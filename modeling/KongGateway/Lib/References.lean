import Mathlib.Data.Set.Image

/-!
# References — rows that refer to rows

A row has a name, which other rows may share, and refers to names. A set
of rows is closed when every name that is referred to is there.
-/

namespace References

variable {ν α : Type*} {refs : α → Set ν} {before fresh after : Set (ν × α)}

/-- The names of rows. -/
def names (rows : Set (ν × α)) : Set ν := Prod.fst '' rows

def Closed (refs : α → Set ν) (rows : Set (ν × α)) : Prop :=
  ∀ row ∈ rows, refs row.2 ⊆ names rows

/-- What an update does that takes no name away: the rows after it are rows
from before and the fresh ones. -/
structure Update (before fresh after : Set (ν × α)) : Prop where
  origin : after ⊆ before ∪ fresh
  stays : fresh ⊆ after
  keeps : names before ⊆ names after

theorem mem_names {row : ν × α} {rows : Set (ν × α)} (h : row ∈ rows) : row.1 ∈ names rows :=
  ⟨row, h, rfl⟩

theorem Update.mem_names_iff (h : Update before fresh after) {name : ν} :
    name ∈ names after ↔ name ∈ names before ∨ name ∈ names fresh := by
  constructor
  · rintro ⟨row, hrow, rfl⟩
    exact (h.origin hrow).imp mem_names mem_names
  · rintro (hbefore | ⟨row, hrow, rfl⟩)
    · exact h.keeps hbefore
    · exact mem_names (h.stays hrow)

/-- An update of closed rows leaves them closed exactly when what the fresh
rows refer to was there or is fresh. -/
theorem Update.closed_iff (h : Update before fresh after) (hclosed : Closed refs before) :
    Closed refs after
      ↔ ∀ row ∈ fresh, ∀ name ∈ refs row.2, name ∈ names before ∨ name ∈ names fresh := by
  constructor
  · intro hafter row hrow name hname
    exact h.mem_names_iff.mp (hafter row (h.stays hrow) hname)
  · intro hfresh row hrow name hname
    rcases h.origin hrow with hbefore | hrow
    · exact h.keeps (hclosed row hbefore hname)
    · exact h.mem_names_iff.mpr (hfresh row hrow name hname)

end References

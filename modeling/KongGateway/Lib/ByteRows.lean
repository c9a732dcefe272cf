import KongGateway.Lib.Bytes

/-!
# ByteRows — tables of byte sequences

A row of a table gives the range of each byte of a sequence. In a table
whose rows are told by the first byte, a string is cut into sequences in
one way only, up to the first byte where none starts.
-/

namespace ByteRows

open Bytes

abbrev Row := List (Nat × Nat)

/-- The start of a string is in the ranges of a row. -/
def fits : Row → List Byte → Bool
  | [], _ => true
  | _ :: _, [] => false
  | range :: row, c :: s => (range.1 ≤ c.val && c.val ≤ range.2) && fits row s

/-- Rows that have a first range, each above the ones before it. -/
structure Table where
  rows : List Row
  ne_nil : ∀ row ∈ rows, row ≠ []
  ascending : rows.Pairwise fun row row' => ∀ a ∈ row.head?, ∀ b ∈ row'.head?, a.2 < b.1

namespace Table

variable (table : Table)

/-- The length of the sequence at the start of a string. -/
def width (s : List Byte) : Option Nat := (table.rows.find? (fits · s)).map List.length

/-- The bytes of a row. -/
def IsSequence (c : List Byte) : Prop :=
  ∃ row ∈ table.rows, row.length = c.length ∧ fits row c = true

/-- A sequence starts here. -/
def StartsAt (s : List Byte) : Prop := ∃ c rest, table.IsSequence c ∧ s = c ++ rest

/-- Sequences one behind the other. -/
inductive WellFormed : List Byte → Prop where
  | nil : WellFormed []
  | cons {c s : List Byte} (hc : table.IsSequence c) (hs : WellFormed s) : WellFormed (c ++ s)

end Table

theorem fits_iff {row : Row} {s : List Byte} :
    fits row s = true ↔ ∃ c rest, s = c ++ rest ∧ row.length = c.length ∧ fits row c = true := by
  constructor
  · intro h
    induction row generalizing s with
    | nil => exact ⟨[], s, rfl, rfl, rfl⟩
    | cons range row ih =>
      cases s with
      | nil => cases h
      | cons d s =>
        rw [fits, Bool.and_eq_true] at h
        obtain ⟨c, rest, hs, hlength, hfits⟩ := ih h.2
        refine ⟨d :: c, rest, by rw [hs, List.cons_append], ?_, ?_⟩
        · rw [List.length_cons, List.length_cons, hlength]
        · rw [fits, h.1, hfits, Bool.and_self]
  · rintro ⟨c, rest, rfl, -, hfits⟩
    induction row generalizing c with
    | nil => rfl
    | cons range row ih =>
      cases c with
      | nil => cases hfits
      | cons d c =>
        rw [fits, Bool.and_eq_true] at hfits
        rw [List.cons_append, fits, hfits.1, ih c hfits.2, Bool.and_self]

variable {table : Table}

theorem not_fits_of_lt {row row' : Row} {s : List Byte} (hne : row ≠ []) (hne' : row' ≠ [])
    (hlt : ∀ a ∈ row.head?, ∀ b ∈ row'.head?, a.2 < b.1) (h : fits row s = true) :
    fits row' s = false := by
  obtain ⟨range, tail, rfl⟩ := List.exists_cons_of_ne_nil hne
  obtain ⟨range', tail', rfl⟩ := List.exists_cons_of_ne_nil hne'
  have hbound := hlt range rfl range' rfl
  cases s with
  | nil => rfl
  | cons c s =>
    simp only [fits, Bool.and_eq_true, decide_eq_true_eq] at h
    have hout : ¬ range'.1 ≤ c.val := by omega
    simp only [fits, hout, decide_false, Bool.false_and]

theorem eq_of_fits {rows : List Row} (hne : ∀ row ∈ rows, row ≠ [])
    (hpair : rows.Pairwise fun row row' => ∀ a ∈ row.head?, ∀ b ∈ row'.head?, a.2 < b.1)
    {row row' : Row} {s : List Byte} (hmem : row ∈ rows) (hmem' : row' ∈ rows)
    (h : fits row s = true) (h' : fits row' s = true) : row = row' := by
  induction rows with
  | nil => cases hmem
  | cons first rows ih =>
    obtain ⟨habove, hrows⟩ := List.pairwise_cons.mp hpair
    have hdistinct : ∀ other ∈ rows, fits first s = true → fits other s = false := by
      intro other hother hfits
      exact not_fits_of_lt (hne first List.mem_cons_self)
        (hne other (List.mem_cons_of_mem first hother)) (habove other hother) hfits
    rcases List.mem_cons.mp hmem with rfl | htail
    · rcases List.mem_cons.mp hmem' with rfl | htail'
      · rfl
      · rw [hdistinct row' htail' h] at h'
        cases h'
    · rcases List.mem_cons.mp hmem' with rfl | htail'
      · rw [hdistinct row htail h'] at h
        cases h
      · exact ih (fun other hother => hne other (List.mem_cons_of_mem first hother)) hrows htail
          htail'

namespace Table

theorem IsSequence.ne_nil {c : List Byte} (h : table.IsSequence c) : c ≠ [] := by
  obtain ⟨row, hrow, hlength, -⟩ := h
  rintro rfl
  exact table.ne_nil row hrow (List.length_eq_zero_iff.mp hlength)

theorem width_eq_some_iff {s : List Byte} {w : Nat} :
    table.width s = some w ↔ ∃ c rest, table.IsSequence c ∧ s = c ++ rest ∧ c.length = w := by
  unfold width
  constructor
  · intro h
    obtain ⟨row, hrow, hw⟩ := Option.map_eq_some_iff.mp h
    obtain ⟨c, rest, hs, hlength, hfits⟩ := fits_iff.mp
      (List.find?_some (p := fun row => fits row s) hrow)
    exact ⟨c, rest, ⟨row, List.mem_of_find?_eq_some hrow, hlength, hfits⟩, hs,
      hlength.symm.trans hw⟩
  · rintro ⟨c, rest, ⟨row, hrow, hlength, hfits⟩, rfl, rfl⟩
    have hstart : fits row (c ++ rest) = true := fits_iff.mpr ⟨c, rest, rfl, hlength, hfits⟩
    obtain ⟨found, hfound⟩ := Option.isSome_iff_exists.mp
      (List.find?_isSome (p := fun row => fits row (c ++ rest)) |>.mpr ⟨row, hrow, hstart⟩)
    have hsame : found = row := eq_of_fits table.ne_nil table.ascending
      (List.mem_of_find?_eq_some hfound) hrow
      (List.find?_some (p := fun row => fits row (c ++ rest)) hfound) hstart
    rw [hfound, hsame, Option.map_some, hlength]

theorem width_eq_none_iff {s : List Byte} : table.width s = none ↔ ¬ table.StartsAt s := by
  constructor
  · rintro hnone ⟨c, rest, hc, hs⟩
    rw [width_eq_some_iff.mpr ⟨c, rest, hc, hs, rfl⟩] at hnone
    cases hnone
  · intro hnone
    rw [Option.eq_none_iff_forall_not_mem]
    intro w hw
    obtain ⟨c, rest, hc, hs, -⟩ := width_eq_some_iff.mp hw
    exact hnone ⟨c, rest, hc, hs⟩

theorem sequence_unique {c c' r r' : List Byte} (h : table.IsSequence c)
    (h' : table.IsSequence c') (heq : c ++ r = c' ++ r') : c = c' ∧ r = r' := by
  have hwidth := width_eq_some_iff.mpr ⟨c, r, h, rfl, rfl⟩
  rw [heq, width_eq_some_iff.mpr ⟨c', r', h', rfl, rfl⟩] at hwidth
  exact List.append_inj heq (Option.some.inj hwidth).symm

theorem exists_cut (s : List Byte) :
    ∃ p rest, s = p ++ rest ∧ table.WellFormed p ∧ ¬ table.StartsAt rest := by
  induction hlength : s.length using Nat.strong_induction_on generalizing s with
  | _ n ih =>
    by_cases hstart : table.StartsAt s
    · obtain ⟨c, rest, hc, rfl⟩ := hstart
      have hpos := List.length_pos_iff.mpr hc.ne_nil
      rw [List.length_append] at hlength
      obtain ⟨p, rest', hrest, hp, hnone⟩ := ih rest.length (by omega) rest rfl
      exact ⟨c ++ p, rest', by rw [hrest, List.append_assoc], .cons hc hp, hnone⟩
    · exact ⟨[], s, rfl, .nil, hstart⟩

theorem cut_unique {p p' r r' : List Byte} (hp : table.WellFormed p) (hp' : table.WellFormed p')
    (hr : ¬ table.StartsAt r) (hr' : ¬ table.StartsAt r') (heq : p ++ r = p' ++ r') :
    p = p' ∧ r = r' := by
  induction hp generalizing p' with
  | nil =>
    cases hp' with
    | nil => exact ⟨rfl, heq⟩
    | @cons c s hc hs => exact absurd ⟨c, s ++ r', hc, by rw [← List.append_assoc]; exact heq⟩ hr
  | @cons c s hc hs ih =>
    cases hp' with
    | nil => exact absurd ⟨c, s ++ r, hc, by rw [← List.append_assoc]; exact heq.symm⟩ hr'
    | @cons c' s' hc' hs' =>
      rw [List.append_assoc, List.append_assoc] at heq
      obtain ⟨rfl, hrest⟩ := sequence_unique hc hc' heq
      obtain ⟨rfl, hr⟩ := ih hs' hrest
      exact ⟨rfl, hr⟩

theorem wellFormed_append_iff {p r : List Byte} (hp : table.WellFormed p)
    (hr : ¬ table.StartsAt r) : table.WellFormed (p ++ r) ↔ r = [] := by
  constructor
  · intro h
    have hnil : ¬ table.StartsAt [] := by
      rintro ⟨c, rest, hc, heq⟩
      exact hc.ne_nil (List.append_eq_nil_iff.mp heq.symm).1
    exact (cut_unique hp h hr hnil (List.append_nil _).symm).2
  · rintro rfl
    rwa [List.append_nil]

end Table

end ByteRows

import Mathlib.Data.List.Pairwise
import Mathlib.Order.Lattice

/-!
# Preference — the first of some candidates that there is

Candidates are tried in the order of a rank. What is found first is what
there is of least rank.
-/

namespace Preference

variable {κ α ρ : Type*} [LinearOrder ρ] {rank : κ → ρ} {table : κ → Option α}

/-- There is something for a candidate, and for none of less rank. -/
def Best (rank : κ → ρ) (table : κ → Option α) (candidates : List κ) (k : κ) (v : α) : Prop :=
  k ∈ candidates ∧ table k = some v
    ∧ ∀ k' ∈ candidates, (table k').isSome = true → rank k ≤ rank k'

theorem findSome?_eq_some_iff {candidates : List κ}
    (hrank : candidates.Pairwise fun k k' => rank k < rank k') (v : α) :
    candidates.findSome? table = some v ↔ ∃ k, Best rank table candidates k v := by
  induction candidates with
  | nil =>
    constructor
    · intro h
      cases h
    · rintro ⟨k, hk, -⟩
      cases hk
  | cons c candidates ih =>
    obtain ⟨hc, hrest⟩ := List.pairwise_cons.mp hrank
    cases hfound : table c with
    | some w =>
      rw [List.findSome?_cons_of_isSome (by rw [hfound]; rfl), hfound]
      constructor
      · intro h
        cases h
        refine ⟨c, List.mem_cons_self, hfound, ?_⟩
        intro k hk _
        rcases List.mem_cons.mp hk with rfl | hk
        · exact le_rfl
        · exact (hc k hk).le
      · rintro ⟨k, hk, hv, hleast⟩
        rcases List.mem_cons.mp hk with rfl | hk
        · rw [hfound] at hv
          exact hv
        · have hle := hleast c List.mem_cons_self (by rw [hfound]; rfl)
          exact absurd (hc k hk) (not_lt.mpr hle)
    | none =>
      rw [List.findSome?_cons_of_isNone (by rw [hfound]; rfl), ih hrest]
      refine exists_congr fun k => ?_
      constructor
      · rintro ⟨hk, hv, hleast⟩
        refine ⟨List.mem_cons_of_mem c hk, hv, ?_⟩
        intro k' hk' hsome
        rcases List.mem_cons.mp hk' with rfl | hk'
        · rw [hfound] at hsome
          cases hsome
        · exact hleast k' hk' hsome
      · rintro ⟨hk, hv, hleast⟩
        refine ⟨?_, hv, fun k' hk' => hleast k' (List.mem_cons_of_mem c hk')⟩
        rcases List.mem_cons.mp hk with rfl | hk
        · rw [hfound] at hv
          cases hv
        · exact hk

end Preference

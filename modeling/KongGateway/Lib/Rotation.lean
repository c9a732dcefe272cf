import Mathlib.Data.List.Perm.Basic

/-!
# Rotation — a pointer that goes round

A pointer into positions `1..size` is moved on by one, and from `size`
or beyond it back to 1. Wherever it stands, also beyond the positions,
`size` moves visit every position once, and the last one is where the
pointer stood if that is a position.
-/

namespace Rotation

/-- One move. -/
def next (size pointer : Nat) : Nat := if size < pointer + 1 then 1 else pointer + 1

/-- The positions of `n` moves. -/
def visits (size : Nat) : Nat → Nat → List Nat
  | _, 0 => []
  | pointer, n + 1 => next size pointer :: visits size (next size pointer) n

variable {size pointer n : Nat}

theorem next_of_lt (h : pointer < size) : next size pointer = pointer + 1 :=
  if_neg (by omega)

theorem next_of_le (h : size ≤ pointer) : next size pointer = 1 := if_pos (by omega)

theorem visits_of_le (h : pointer + n ≤ size) :
    visits size pointer n = List.range' (pointer + 1) n := by
  induction n generalizing pointer with
  | zero => rfl
  | succ n ih => rw [visits, next_of_lt (by omega), ih (by omega), List.range'_succ]

theorem visits_add (m : Nat) (h : pointer + m ≤ size) :
    visits size pointer (m + n) = List.range' (pointer + 1) m ++ visits size (pointer + m) n := by
  induction m generalizing pointer with
  | zero => rw [Nat.zero_add]; rfl
  | succ m ih =>
    rw [Nat.add_right_comm, visits, next_of_lt (by omega), ih (by omega), List.range'_succ,
      List.cons_append]
    congr 3
    omega

theorem next_mem (h : 0 < size) (pointer : Nat) : 1 ≤ next size pointer ∧ next size pointer ≤ size := by
  rw [next]
  split <;> omega

theorem visits_more (size pointer m n : Nat) :
    ∃ later, visits size pointer (m + n) = visits size pointer m ++ later := by
  induction m generalizing pointer with
  | zero => exact ⟨_, rfl⟩
  | succ m ih =>
    obtain ⟨later, hlater⟩ := ih (next size pointer)
    refine ⟨later, ?_⟩
    rw [Nat.add_right_comm, visits, hlater, visits, List.cons_append]

/-- Beyond the last position the pointer is as good as before the
first. -/
theorem visits_wrap (h : size ≤ pointer) (n : Nat) : visits size pointer n = visits size 0 n := by
  cases n with
  | zero => rfl
  | succ n =>
    have hzero : next size 0 = 1 := by
      rw [next]
      split <;> rfl
    rw [visits, visits, next_of_le h, hzero]

theorem visits_round (size pointer : Nat) :
    visits size pointer size
      = List.range' (pointer + 1) (size - pointer) ++ List.range' 1 (min pointer size) := by
  rcases Nat.lt_or_ge pointer size with hlt | hge
  · have hsplit : visits size pointer size = visits size pointer (size - pointer + pointer) := by
      congr 1
      omega
    rw [hsplit, visits_add _ (by omega), Nat.add_sub_cancel' (Nat.le_of_lt hlt), visits_wrap (Nat.le_refl _),
      visits_of_le (by omega), Nat.min_eq_left (Nat.le_of_lt hlt)]
  · rw [visits_wrap hge, visits_of_le (by omega), Nat.sub_eq_zero_of_le hge, Nat.min_eq_right hge]
    rfl

theorem visits_round_perm (size pointer : Nat) :
    (visits size pointer size).Perm (List.range' 1 size) := by
  rw [visits_round]
  refine List.perm_append_comm.trans (.of_eq ?_)
  rcases Nat.lt_or_ge pointer size with hlt | hge
  · have hlen : size = pointer + (size - pointer) := by omega
    rw [Nat.min_eq_left (Nat.le_of_lt hlt)]
    conv_rhs => rw [hlen]
    rw [← List.range'_append_1, Nat.add_comm pointer 1]
  · rw [Nat.min_eq_right hge, Nat.sub_eq_zero_of_le hge, List.range'_zero, List.append_nil]

theorem not_mem_before {before after : List Nat} {q : Nat}
    (h : visits size pointer size = before ++ q :: after) : pointer ∉ before := by
  intro hmem
  have hnodup : (visits size pointer size).Nodup :=
    (visits_round_perm size pointer).nodup_iff.mpr List.nodup_range'
  have hin : pointer ∈ visits size pointer size := by
    rw [h]
    exact List.mem_append_left _ hmem
  have hbounds := (visits_round_perm size pointer).mem_iff.mp hin
  rw [List.mem_range'_1] at hbounds
  have hlast : (visits size pointer size).getLast? = some pointer := by
    rw [visits_round, Nat.min_eq_left (by omega), List.getLast?_append]
    obtain ⟨k, rfl⟩ : ∃ k, pointer = k + 1 := ⟨pointer - 1, by omega⟩
    rw [List.range'_1_concat, List.getLast?_concat, Nat.add_comm 1 k]
    rfl
  rw [h, List.getLast?_append, List.getLast?_cons] at hlast
  have hlater : pointer ∈ q :: after := by
    have hend : (after.getLast?.getD q) = pointer := by simpa using hlast
    rw [← hend]
    cases hafter : after.getLast? with
    | none => exact List.mem_cons_self
    | some x => exact List.mem_cons_of_mem _ (List.mem_of_getLast? hafter)
  rw [h] at hnodup
  exact (List.nodup_append.mp hnodup).2.2 pointer hmem pointer hlater rfl

end Rotation

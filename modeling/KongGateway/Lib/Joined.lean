import Mathlib.Data.List.Basic

/-!
# Joined — strings put together with a separator

A joined string tells its parts only up to the separators they contain.
With several separators, each part comes with the one after it; rows that
give the same string are the same up to separators that shift into a part.
-/

namespace Joined

section

variable {α : Type} {sep : α}

theorem intercalate_append {l r : List (List α)} (hl : l ≠ []) (hr : r ≠ []) :
    [sep].intercalate (l ++ r) = [sep].intercalate l ++ sep :: [sep].intercalate r := by
  induction l with
  | nil => exact absurd rfl hl
  | cons part l ih =>
    cases l with
    | nil =>
      rw [List.singleton_append, List.intercalate_cons_of_ne_nil hr, List.intercalate_singleton,
        List.append_assoc, List.singleton_append]
    | cons part' l =>
      have hrest := ih (List.cons_ne_nil part' l)
      rw [List.cons_append, List.cons_append,
        List.intercalate_cons_of_ne_nil (List.cons_ne_nil part' (l ++ r)), ← List.cons_append,
        hrest, List.intercalate_cons_cons]
      simp only [List.append_assoc, List.cons_append, List.nil_append]

theorem head?_intercalate {part : List α} {parts : List (List α)} (h : part ≠ []) :
    ([sep].intercalate (part :: parts)).head? = part.head? := by
  obtain ⟨c, part, rfl⟩ := List.exists_cons_of_ne_nil h
  cases parts with
  | nil => rw [List.intercalate_singleton]
  | cons other parts => rw [List.intercalate_cons_cons]; rfl

theorem getLast?_intercalate {part : List α} {parts : List (List α)} (h : part ≠ []) :
    ([sep].intercalate (parts ++ [part])).getLast? = part.getLast? := by
  cases parts with
  | nil => rw [List.nil_append, List.intercalate_singleton]
  | cons other parts =>
    rw [intercalate_append (List.cons_ne_nil other parts) (List.cons_ne_nil part []),
      List.intercalate_singleton, List.getLast?_append, List.getLast?_cons_of_ne_nil h]
    obtain ⟨c, hc⟩ := Option.ne_none_iff_exists'.mp (mt List.getLast?_eq_none_iff.mp h)
    rw [hc, Option.some_or]

theorem mem_intercalate {parts : List (List α)} {c : α} (h : c ∈ [sep].intercalate parts) :
    c = sep ∨ ∃ part ∈ parts, c ∈ part := by
  induction parts with
  | nil => cases h
  | cons part parts ih =>
    cases parts with
    | nil =>
      rw [List.intercalate_singleton] at h
      exact Or.inr ⟨part, List.mem_cons_self, h⟩
    | cons other parts =>
      rw [List.intercalate_cons_cons, List.append_assoc, List.mem_append] at h
      rcases h with hpart | h
      · exact Or.inr ⟨part, List.mem_cons_self, hpart⟩
      · rcases List.mem_append.mp h with hsep | hrest
        · exact Or.inl (List.mem_singleton.mp hsep)
        · rcases ih hrest with hsep | ⟨p, hp, hc⟩
          · exact Or.inl hsep
          · exact Or.inr ⟨p, List.mem_cons_of_mem part hp, hc⟩

end

section

variable {α : Type} [DecidableEq α] {sep : α}

theorem count_intercalate {parts : List (List α)} (hne : parts ≠ [])
    (h : ∀ part ∈ parts, sep ∉ part) :
    ([sep].intercalate parts).count sep + 1 = parts.length := by
  induction parts with
  | nil => exact absurd rfl hne
  | cons part parts ih =>
    have hpart := List.count_eq_zero_of_not_mem (h part List.mem_cons_self)
    cases parts with
    | nil => rw [List.intercalate_singleton, hpart]; rfl
    | cons other parts =>
      have hrest := ih (List.cons_ne_nil other parts) fun p hp =>
        h p (List.mem_cons_of_mem part hp)
      rw [List.intercalate_cons_cons, List.append_assoc, List.singleton_append,
        List.count_append, List.count_cons_self, hpart, List.length_cons, ← hrest,
        Nat.zero_add]

theorem notMem_of_mem_splitOn {s part : List α} (h : part ∈ s.splitOn sep) : sep ∉ part := by
  induction s generalizing part with
  | nil =>
    rw [List.mem_singleton.mp h]
    exact List.not_mem_nil
  | cons c s ih =>
    rw [List.splitOn_cons_eq_if_modifyHead] at h
    split at h
    · rcases List.mem_cons.mp h with rfl | hmem
      · exact List.not_mem_nil
      · exact ih hmem
    · rename_i hc
      have hne : sep ≠ c := fun heq => hc (by rw [heq, beq_self_eq_true])
      cases hrow : s.splitOn sep with
      | nil => exact absurd hrow (List.splitOn_ne_nil sep s)
      | cons first row =>
        rw [hrow, List.modifyHead_cons] at h
        rcases List.mem_cons.mp h with rfl | hmem
        · have hfirst := ih (hrow ▸ List.mem_cons_self)
          exact List.not_mem_cons_of_ne_of_not_mem hne hfirst
        · exact ih (hrow ▸ List.mem_cons_of_mem first hmem)

theorem intercalate_inj {parts parts' : List (List α)} (hne : parts ≠ []) (hne' : parts' ≠ [])
    (h : ∀ part ∈ parts, sep ∉ part) (h' : ∀ part ∈ parts', sep ∉ part)
    (heq : [sep].intercalate parts = [sep].intercalate parts') : parts = parts' := by
  rw [← List.splitOn_intercalate sep h hne, heq, List.splitOn_intercalate sep h' hne']

end

/-! ## Several separators -/

section

variable {α : Type}

abbrev Row (α : Type) := List (List α × α)

/-- Parts that are each followed by a separator. -/
def join (row : Row α) : List α := row.flatMap fun part => part.1 ++ [part.2]

/-- Two rows are the same up to separators inside parts: what stands inside
a part of one of them follows a part of the other. -/
inductive Aligned : Row α → Row α → Prop where
  | nil : Aligned [] []
  | same {part : List α × α} {row row' : Row α} (h : Aligned row row') :
      Aligned (part :: row) (part :: row')
  | left {s t : List α} {c d : α} {row row' : Row α} (h : Aligned ((t, d) :: row) row') :
      Aligned ((s ++ c :: t, d) :: row) ((s, c) :: row')
  | right {s t : List α} {c d : α} {row row' : Row α} (h : Aligned row ((t, d) :: row')) :
      Aligned ((s, c) :: row) ((s ++ c :: t, d) :: row')

/-- Rows that are aligned but not the same: a separator has shifted. -/
def Shifted (row row' : Row α) : Prop := Aligned row row' ∧ row ≠ row'

theorem join_cons (part : List α × α) (row : Row α) :
    join (part :: row) = part.1 ++ part.2 :: join row := by
  simp [join]

theorem join_append (row row' : Row α) : join (row ++ row') = join row ++ join row' :=
  List.flatMap_append

theorem Aligned.join_eq {row row' : Row α} (h : Aligned row row') : join row = join row' := by
  induction h with
  | nil => rfl
  | same h ih => rw [join_cons, join_cons, ih]
  | left h ih => rw [join_cons, join_cons, ← ih, join_cons]; simp
  | right h ih => rw [join_cons, join_cons, ih, join_cons]; simp

/-- The parts are compared from the left; of two that differ, one goes on
with the separator of the other. -/
theorem aligned_of_join_eq (n : Nat) : ∀ row row' : Row α, row.length + row'.length = n →
    join row = join row' → Aligned row row' := by
  induction n using Nat.strongRecOn with
  | ind n ih =>
    intro row row' hn h
    match row, row' with
    | [], [] => exact .nil
    | [], part' :: row' => simp [join] at h
    | part :: row, [] => simp [join] at h
    | (s, c) :: row, (s', c') :: row' =>
      simp only [List.length_cons] at hn
      rw [join_cons, join_cons] at h
      rcases List.append_eq_append_iff.mp h with ⟨u, hs, hrest⟩ | ⟨u, hs, hrest⟩
      · cases u with
        | nil =>
          obtain ⟨rfl, hjoin⟩ := List.cons.inj hrest
          simp only [List.append_nil] at hs
          rw [hs]
          exact .same (ih _ (by omega) row row' rfl hjoin)
        | cons d u =>
          obtain ⟨rfl, hjoin⟩ := List.cons.inj hrest
          simp only at hs
          rw [hs]
          exact .right (ih (n - 1) (by omega) row ((u, c') :: row')
            (by simp only [List.length_cons]; omega) (hjoin.trans (join_cons (u, c') row').symm))
      · cases u with
        | nil =>
          obtain ⟨rfl, hjoin⟩ := List.cons.inj hrest
          simp only [List.append_nil] at hs
          rw [hs]
          exact .same (ih _ (by omega) row row' rfl hjoin.symm)
        | cons d u =>
          obtain ⟨rfl, hjoin⟩ := List.cons.inj hrest
          simp only at hs
          rw [hs]
          exact .left (ih (n - 1) (by omega) ((u, c) :: row) row'
            (by simp only [List.length_cons]; omega) ((join_cons (u, c) row).trans hjoin.symm))

/-- Rows that give the same string are the same, or a separator has
shifted. -/
theorem join_eq_iff {row row' : Row α} :
    join row = join row' ↔ row = row' ∨ Shifted row row' := by
  constructor
  · intro h
    by_cases heq : row = row'
    · exact .inl heq
    · exact .inr ⟨aligned_of_join_eq _ row row' rfl h, heq⟩
  · rintro (rfl | h)
    · rfl
    · exact h.1.join_eq

theorem not_shifted {seps : List α} {row row' : Row α}
    (h : ∀ part ∈ row, part.2 ∈ seps ∧ ∀ c ∈ part.1, c ∉ seps)
    (h' : ∀ part ∈ row', part.2 ∈ seps ∧ ∀ c ∈ part.1, c ∉ seps) : ¬ Shifted row row' := by
  rintro ⟨haligned, hne⟩
  apply hne
  clear hne
  induction haligned with
  | nil => rfl
  | same _ ih =>
    rw [ih (fun p hp => h p (List.mem_cons_of_mem _ hp))
      fun p hp => h' p (List.mem_cons_of_mem _ hp)]
  | left _ _ =>
    exact absurd (h' _ List.mem_cons_self).1 ((h _ List.mem_cons_self).2 _ (by simp))
  | right _ _ =>
    exact absurd (h _ List.mem_cons_self).1 ((h' _ List.mem_cons_self).2 _ (by simp))

end

end Joined

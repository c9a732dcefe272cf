import Mathlib.Data.List.Basic

/-!
# Segments — lists cut at a separator

A list is cut at every separator; a list without one is a single
segment. `Free bad` says that no segment is bad. It is a property of the
two parts when a list is put together at a separator, and of all but the
last segment when a list is cut off somewhere.
-/

namespace Segments

variable {α : Type*} [DecidableEq α] {sep : α}

def split (sep : α) : List α → List (List α)
  | [] => [[]]
  | a :: rest =>
    if a = sep then [] :: split sep rest
    else
      match split sep rest with
      | [] => [[a]]
      | first :: others => (a :: first) :: others

theorem split_ne_nil (l : List α) : split sep l ≠ [] := by
  cases l with
  | nil => simp [split]
  | cons a rest =>
    rw [split]
    split_ifs
    · simp
    · split <;> simp

theorem split_of_not_mem {l : List α} (h : sep ∉ l) : split sep l = [l] := by
  induction l with
  | nil => rfl
  | cons a rest ih =>
    rw [List.mem_cons, not_or] at h
    rw [split, if_neg (Ne.symm h.1), ih h.2]

theorem split_append_sep (l l' : List α) :
    split sep (l ++ sep :: l') = split sep l ++ split sep l' := by
  induction l with
  | nil => simp [split]
  | cons a rest ih =>
    rw [List.cons_append, split, split, ih]
    split_ifs
    · rfl
    · cases hrest : split sep rest with
      | nil => exact absurd hrest (split_ne_nil rest)
      | cons first others => rfl

theorem mem_of_mem_split {l s : List α} {a : α} (hs : s ∈ split sep l) (ha : a ∈ s) : a ∈ l := by
  induction l generalizing s with
  | nil =>
    rw [split, List.mem_singleton] at hs
    rwa [hs] at ha
  | cons b rest ih =>
    rw [split] at hs
    split_ifs at hs
    · rcases List.mem_cons.mp hs with rfl | hs
      · exact absurd ha List.not_mem_nil
      · exact List.mem_cons_of_mem b (ih hs ha)
    · cases hrest : split sep rest with
      | nil => exact absurd hrest (split_ne_nil rest)
      | cons first others =>
        rw [hrest] at hs ih
        rcases List.mem_cons.mp hs with rfl | hs
        · rcases List.mem_cons.mp ha with rfl | ha
          · exact List.mem_cons_self
          · exact List.mem_cons_of_mem b (ih List.mem_cons_self ha)
        · exact List.mem_cons_of_mem b (ih (List.mem_cons_of_mem first hs) ha)

theorem exists_last (sep : α) (l : List α) :
    sep ∉ l ∨ ∃ init last, l = init ++ sep :: last ∧ sep ∉ last := by
  induction l with
  | nil => exact .inl List.not_mem_nil
  | cons a rest ih =>
    rcases ih with hrest | ⟨init, last, rfl, hlast⟩
    · by_cases ha : a = sep
      · exact .inr ⟨[], rest, by rw [ha, List.nil_append], hrest⟩
      · exact .inl (by simp [hrest, Ne.symm ha])
    · exact .inr ⟨a :: init, last, rfl, hlast⟩

theorem exists_first (sep : α) (l : List α) :
    sep ∉ l ∨ ∃ first others, l = first ++ sep :: others ∧ sep ∉ first := by
  by_cases h : sep ∈ l
  · obtain ⟨first, others, heq, hfirst⟩ := List.eq_append_cons_of_mem h
    exact .inr ⟨first, others, heq, hfirst⟩
  · exact .inl h

variable (sep) in
/-- No segment is bad. -/
def Free (bad : List α → Prop) (l : List α) : Prop := ∀ s ∈ split sep l, ¬ bad s

variable {bad : List α → Prop}

theorem free_of_not_mem {l : List α} (h : sep ∉ l) : Free sep bad l ↔ ¬ bad l := by
  rw [Free, split_of_not_mem h]
  simp

theorem free_append_sep {l l' : List α} :
    Free sep bad (l ++ sep :: l') ↔ Free sep bad l ∧ Free sep bad l' := by
  rw [Free, split_append_sep]
  simp only [List.mem_append, or_imp, forall_and]
  rfl

theorem free_cons_sep (hnil : ¬ bad []) {l : List α} :
    Free sep bad (sep :: l) ↔ Free sep bad l := by
  have happend := @free_append_sep α _ sep bad [] l
  rw [List.nil_append, free_of_not_mem List.not_mem_nil] at happend
  rw [happend]
  exact ⟨fun h => h.2, fun h => ⟨hnil, h⟩⟩

/-- The last segment of the list is bad. -/
def EndsBad (sep : α) (bad : List α → Prop) (l : List α) : Prop :=
  (sep ∉ l ∧ bad l) ∨ ∃ init last, l = init ++ sep :: last ∧ sep ∉ last ∧ bad last

theorem Free.cut {l rest : List α} (h : Free sep bad (l ++ rest)) :
    Free sep bad l ↔ ¬ EndsBad sep bad l := by
  rcases exists_last sep l with hl | ⟨init, last, rfl, hlast⟩
  · rw [free_of_not_mem hl]
    refine not_congr ⟨fun hbad => .inl ⟨hl, hbad⟩, ?_⟩
    rintro (⟨-, hbad⟩ | ⟨init, last, rfl, -, -⟩)
    · exact hbad
    · exact absurd (by simp) hl
  · rw [List.append_assoc, List.cons_append, free_append_sep] at h
    rw [free_append_sep, free_of_not_mem hlast]
    constructor
    · rintro ⟨-, hgood⟩ (⟨hno, -⟩ | ⟨init', last', heq, hlast', hbad⟩)
      · exact hno (by simp)
      · have hsame : last = last' := by
          have hsplit := congrArg (split sep) heq
          rw [split_append_sep, split_append_sep, split_of_not_mem hlast,
            split_of_not_mem hlast'] at hsplit
          exact List.singleton_injective (List.append_inj' hsplit rfl).2
        rw [hsame] at hgood
        exact hgood hbad
    · intro hnot
      exact ⟨h.1, fun hbad => hnot (.inr ⟨init, last, rfl, hlast, hbad⟩)⟩

theorem endsBad_append_sep {l l' : List α} :
    EndsBad sep bad (l ++ sep :: l') ↔ EndsBad sep bad l' := by
  constructor
  · rintro (⟨hno, -⟩ | ⟨init, last, heq, hlast, hbad⟩)
    · exact absurd (by simp) hno
    · rcases exists_last sep l' with hl' | ⟨init', last', rfl, hlast'⟩
      · have hsplit := congrArg (split sep) heq
        rw [split_append_sep, split_append_sep, split_of_not_mem hl', split_of_not_mem hlast]
          at hsplit
        obtain rfl := List.singleton_injective (List.append_inj' hsplit rfl).2
        exact .inl ⟨hl', hbad⟩
      · have hsplit := congrArg (split sep) heq
        rw [split_append_sep, split_append_sep, split_append_sep, split_of_not_mem hlast',
          split_of_not_mem hlast, ← List.append_assoc] at hsplit
        obtain rfl := List.singleton_injective (List.append_inj' hsplit rfl).2
        exact .inr ⟨init', last', rfl, hlast', hbad⟩
  · rintro (⟨hno, hbad⟩ | ⟨init, last, rfl, hlast, hbad⟩)
    · exact .inr ⟨l, l', rfl, hno, hbad⟩
    · exact .inr ⟨l ++ sep :: init, last, by simp, hlast, hbad⟩

end Segments

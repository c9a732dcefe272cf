import Mathlib.Data.List.Sort
import Mathlib.Data.List.Induction

/-!
# OrderedStore — keys in order

A store holds its entries in the order of the keys; that no key occurs
twice follows. Two stores with the same answers are equal. A page is the
first entries at or after a key that meet a condition on the key.
-/

structure OrderedStore (κ α : Type*) [LinearOrder κ] where
  entries : List (κ × α)
  sorted : entries.Pairwise fun a b => a.1 < b.1

namespace OrderedStore

variable {κ α : Type*} [LinearOrder κ]

instance : EmptyCollection (OrderedStore κ α) where
  emptyCollection := ⟨[], List.Pairwise.nil⟩

def get (s : OrderedStore κ α) (k : κ) : Option α :=
  (s.entries.find? fun entry => entry.1 = k).map Prod.snd

/-- The entries that meet a condition. -/
def restrict (s : OrderedStore κ α) (p : κ × α → Bool) : OrderedStore κ α where
  entries := s.entries.filter p
  sorted := s.sorted.filter p

/-- The value for a key is replaced; `none` removes it. -/
def set (s : OrderedStore κ α) (k : κ) : Option α → OrderedStore κ α
  | none => s.restrict fun entry => entry.1 ≠ k
  | some v =>
    { entries := s.entries.filter (fun entry => entry.1 < k)
        ++ (k, v) :: s.entries.filter (fun entry => k < entry.1)
      sorted := by
        rw [List.pairwise_append, List.pairwise_cons]
        refine ⟨s.sorted.filter _, ⟨fun entry hmem => ?_, s.sorted.filter _⟩,
          fun entry hmem entry' hmem' => ?_⟩
        · simpa using (List.mem_filter.mp hmem).2
        · have hlt : entry.1 < k := by simpa using (List.mem_filter.mp hmem).2
          rcases List.mem_cons.mp hmem' with rfl | hmem'
          · exact hlt
          · have hgt : k < entry'.1 := by simpa using (List.mem_filter.mp hmem').2
            exact hlt.trans hgt }

/-- Writes in order. -/
def write (s : OrderedStore κ α) (writes : List (κ × Option α)) : OrderedStore κ α :=
  writes.foldl (fun s w => s.set w.1 w.2) s

/-! ## Reading -/

theorem nodup_keys (s : OrderedStore κ α) : (s.entries.map Prod.fst).Nodup := by
  rw [List.Nodup, List.pairwise_map]
  exact s.sorted.imp ne_of_lt

theorem eq_of_mem {s : OrderedStore κ α} {a b : κ × α} (ha : a ∈ s.entries) (hb : b ∈ s.entries)
    (h : a.1 = b.1) : a = b :=
  List.inj_on_of_nodup_map s.nodup_keys ha hb h

theorem get_eq_some_iff {s : OrderedStore κ α} {k : κ} {v : α} :
    s.get k = some v ↔ (k, v) ∈ s.entries := by
  unfold get
  rw [Option.map_eq_some_iff]
  constructor
  · rintro ⟨entry, hfind, rfl⟩
    have hkey : entry.1 = k := by simpa using List.find?_some hfind
    rw [← hkey]
    exact List.mem_of_find?_eq_some hfind
  · intro hmem
    cases hfind : s.entries.find? (fun entry => entry.1 = k) with
    | none =>
      have := List.find?_eq_none.mp hfind (k, v) hmem
      simp at this
    | some entry =>
      have hkey : entry.1 = k := by simpa using List.find?_some hfind
      have heq := eq_of_mem (List.mem_of_find?_eq_some hfind) hmem hkey
      exact ⟨entry, rfl, by rw [heq]⟩

@[simp] theorem get_empty (k : κ) : (∅ : OrderedStore κ α).get k = none := rfl

theorem get_set (s : OrderedStore κ α) (k k' : κ) (v : Option α) :
    (s.set k v).get k' = if k' = k then v else s.get k' := by
  have hother (hne : k' ≠ k) (w : α) : (k', w) ∈ (s.set k v).entries ↔ (k', w) ∈ s.entries := by
    cases v with
    | none =>
      rw [set, restrict, List.mem_filter]
      simp [hne]
    | some v =>
      simp only [set, List.mem_append, List.mem_cons, List.mem_filter, decide_eq_true_eq,
        Prod.mk.injEq]
      rcases lt_or_gt_of_ne hne with hlt | hlt
      · simp [hlt, hne, hlt.not_gt]
      · simp [hlt, hne, hlt.not_gt]
  split
  · rename_i heq
    subst heq
    cases v with
    | none =>
      rw [Option.eq_none_iff_forall_ne_some]
      intro w hw
      rw [get_eq_some_iff, set, restrict, List.mem_filter] at hw
      simp at hw
    | some v =>
      rw [get_eq_some_iff, set]
      simp
  · rename_i hne
    apply Option.ext
    intro w
    rw [get_eq_some_iff, get_eq_some_iff]
    exact hother hne w

@[simp] theorem get_set_self (s : OrderedStore κ α) (k : κ) (v : Option α) :
    (s.set k v).get k = v := by
  rw [get_set, if_pos rfl]

theorem get_set_ne (s : OrderedStore κ α) {k k' : κ} (h : k' ≠ k) (v : Option α) :
    (s.set k v).get k' = s.get k' := by
  rw [get_set, if_neg h]

@[ext] theorem ext {s t : OrderedStore κ α} (h : ∀ k, s.get k = t.get k) : s = t := by
  have hperm : s.entries.Perm t.entries := by
    rw [List.perm_ext_iff_of_nodup (List.Nodup.of_map _ s.nodup_keys)
      (List.Nodup.of_map _ t.nodup_keys)]
    rintro ⟨k, v⟩
    rw [← get_eq_some_iff, ← get_eq_some_iff, h]
  have hentries : s.entries = t.entries := by
    refine hperm.eq_of_pairwise (fun a b _ _ hab hba => ?_) s.sorted t.sorted
    exact absurd hba hab.not_gt
  cases s
  cases t
  cases hentries
  rfl

/-! ## Writing -/

@[simp] theorem write_nil (s : OrderedStore κ α) : s.write [] = s := rfl

@[simp] theorem write_cons (s : OrderedStore κ α) (w : κ × Option α)
    (writes : List (κ × Option α)) : s.write (w :: writes) = (s.set w.1 w.2).write writes := rfl

theorem write_append (s : OrderedStore κ α) (a b : List (κ × Option α)) :
    s.write (a ++ b) = (s.write a).write b := List.foldl_append

theorem get_write_of_notMem {s : OrderedStore κ α} {writes : List (κ × Option α)} {k : κ}
    (h : ∀ w ∈ writes, w.1 ≠ k) : (s.write writes).get k = s.get k := by
  induction writes generalizing s with
  | nil => rfl
  | cons w writes ih =>
    rw [write_cons, ih (fun w' hw' => h w' (List.mem_cons_of_mem w hw'))]
    exact get_set_ne s (h w List.mem_cons_self).symm w.2

theorem get_write_of_mem {s : OrderedStore κ α} {writes : List (κ × Option α)} {k : κ}
    {v : Option α} (hmem : (k, v) ∈ writes) (h : ∀ w ∈ writes, w.1 = k → w.2 = v) :
    (s.write writes).get k = v := by
  induction writes generalizing s with
  | nil => cases hmem
  | cons w writes ih =>
    have hrest : ∀ w' ∈ writes, w'.1 = k → w'.2 = v :=
      fun w' hw' => h w' (List.mem_cons_of_mem w hw')
    rw [write_cons]
    by_cases hlater : ∃ w' ∈ writes, w'.1 = k
    · obtain ⟨w', hw', hkey⟩ := hlater
      refine ih ?_ hrest
      rw [← hkey, ← hrest w' hw' hkey]
      exact hw'
    · rw [get_write_of_notMem fun w' hw' hkey => hlater ⟨w', hw', hkey⟩]
      rcases List.mem_cons.mp hmem with rfl | hmem
      · exact get_set_self s k v
      · exact absurd ⟨_, hmem, rfl⟩ hlater

/-- The entries of a store are these. -/
def Holds (s : OrderedStore κ α) (rows : Set (κ × α)) : Prop :=
  ∀ k v, s.get k = some v ↔ (k, v) ∈ rows

theorem Holds.insert {s : OrderedStore κ α} {held : Set (κ × α)} (h : s.Holds held)
    {rows : List (κ × α)} (hrows : ∀ a ∈ rows, ∀ b ∈ rows, a.1 = b.1 → a = b)
    (hnew : ∀ a ∈ held, ∀ b ∈ rows, a.1 ≠ b.1) :
    (s.write (rows.map fun row => (row.1, some row.2))).Holds (held ∪ {row | row ∈ rows}) := by
  intro k v
  by_cases hmem : ∃ w, (k, w) ∈ rows
  · obtain ⟨w, hw⟩ := hmem
    have hget : (s.write (rows.map fun row => (row.1, some row.2))).get k = some w := by
      refine get_write_of_mem (List.mem_map.mpr ⟨(k, w), hw, rfl⟩) fun x hx hkey => ?_
      obtain ⟨row, hrow, rfl⟩ := List.mem_map.mp hx
      rw [hrows row hrow (k, w) hw hkey]
    rw [hget, Option.some.injEq]
    constructor
    · rintro rfl
      exact .inr hw
    · rintro (hheld | hrow)
      · exact absurd rfl (hnew (k, v) hheld (k, w) hw)
      · exact congrArg Prod.snd (hrows _ hw _ hrow rfl)
  · rw [get_write_of_notMem fun x hx hkey => ?_, h k v]
    · exact ⟨.inl, fun hv => hv.resolve_right fun hrow => hmem ⟨v, hrow⟩⟩
    · obtain ⟨row, hrow, rfl⟩ := List.mem_map.mp hx
      exact hmem ⟨row.2, hkey ▸ hrow⟩

theorem Holds.delete {s : OrderedStore κ α} {held : Set (κ × α)} (h : s.Holds held)
    (keys : List κ) : (s.write (keys.map fun k => (k, none))).Holds {row ∈ held | row.1 ∉ keys} := by
  intro k v
  by_cases hmem : k ∈ keys
  · have hget : (s.write (keys.map fun k => (k, none))).get k = none := by
      refine get_write_of_mem (List.mem_map.mpr ⟨k, hmem, rfl⟩) fun x hx _ => ?_
      obtain ⟨k', -, rfl⟩ := List.mem_map.mp hx
      rfl
    rw [hget]
    exact ⟨fun hnone => absurd hnone (by simp), fun hrow => absurd hmem hrow.2⟩
  · rw [get_write_of_notMem fun x hx hkey => ?_, h k v]
    · exact ⟨fun hrow => ⟨hrow, hmem⟩, fun hrow => hrow.1⟩
    · obtain ⟨k', hk', rfl⟩ := List.mem_map.mp hx
      exact hmem (hkey ▸ hk')

/-! ## Steps that remove and set -/

/-- A step removes keys, then sets rows. -/
abbrev Step (κ α : Type*) := List κ × List (κ × α)

def stepOps (step : Step κ α) : List (κ × Option α) :=
  step.1.map (fun k => (k, none)) ++ step.2.map fun row => (row.1, some row.2)

/-- The value that rows set a key to. -/
def setBy (k : κ) (rows : List (κ × α)) : Option α :=
  rows.foldl (fun value row => if row.1 = k then some row.2 else value) none

/-- The last value that steps set a key to. -/
def lastSet (k : κ) (steps : List (Step κ α)) : Option α :=
  steps.foldl (fun value step => (setBy k step.2).or value) none

/-- Whether a key is removed and not set again. -/
def removed (k : κ) (steps : List (Step κ α)) : Bool :=
  steps.foldl (fun gone step =>
    if (setBy k step.2).isSome then false else gone || k ∈ step.1) false

theorem get_write_removes (s : OrderedStore κ α) (keys : List κ) (k : κ) :
    (s.write (keys.map fun k => (k, none))).get k = if k ∈ keys then none else s.get k := by
  induction keys generalizing s with
  | nil => simp
  | cons a keys ih =>
    rw [List.map_cons, write_cons, ih, get_set]
    by_cases hk : k = a
    · simp [hk]
    · simp [hk]

theorem foldl_setBy (k : κ) (rows : List (κ × α)) (value : Option α) :
    rows.foldl (fun value row => if row.1 = k then some row.2 else value) value
      = (setBy k rows).or value := by
  unfold setBy
  induction rows generalizing value with
  | nil => rfl
  | cons row rows ih =>
    rw [List.foldl_cons, List.foldl_cons, ih, ih (if row.1 = k then some row.2 else none)]
    split
    · simp
    · simp

theorem setBy_cons (k : κ) (row : κ × α) (rows : List (κ × α)) :
    setBy k (row :: rows) = (setBy k rows).or (if row.1 = k then some row.2 else none) :=
  foldl_setBy k rows _

theorem setBy_eq_none {k : κ} {rows : List (κ × α)} (h : ∀ row ∈ rows, row.1 ≠ k) :
    setBy k rows = none := by
  induction rows with
  | nil => rfl
  | cons row rows ih =>
    rw [setBy_cons, ih fun row' hrow' => h row' (List.mem_cons_of_mem row hrow'),
      if_neg (h row List.mem_cons_self)]
    rfl

theorem get_write_rows (s : OrderedStore κ α) (rows : List (κ × α)) (k : κ) :
    (s.write (rows.map fun row => (row.1, some row.2))).get k = (setBy k rows).or (s.get k) := by
  rw [← foldl_setBy]
  induction rows generalizing s with
  | nil => rfl
  | cons row rows ih =>
    rw [List.map_cons, write_cons, ih, List.foldl_cons, get_set]
    simp only [eq_comm]

theorem get_write_stepOps (s : OrderedStore κ α) (step : Step κ α) (k : κ) :
    (s.write (stepOps step)).get k
      = (setBy k step.2).or (if k ∈ step.1 then none else s.get k) := by
  rw [stepOps, write_append, get_write_rows, get_write_removes]

theorem get_write_steps (s : OrderedStore κ α) (steps : List (Step κ α)) (k : κ) :
    (s.write (steps.flatMap stepOps)).get k
      = if removed k steps then none else (lastSet k steps).or (s.get k) := by
  induction steps using List.reverseRecOn with
  | nil => simp [removed, lastSet]
  | append_singleton steps step ih =>
    have hremoved : removed k (steps ++ [step])
        = if (setBy k step.2).isSome then false else removed k steps || k ∈ step.1 := by
      simp [removed, List.foldl_append]
    have hlast : lastSet k (steps ++ [step]) = (setBy k step.2).or (lastSet k steps) := by
      simp [lastSet, List.foldl_append]
    rw [List.flatMap_append, write_append, List.flatMap_singleton, get_write_stepOps, ih,
      hremoved, hlast]
    cases setBy k step.2 with
    | some v => simp
    | none =>
      by_cases hmem : k ∈ step.1
      · simp [hmem]
      · simp [hmem]

theorem lastSet_eq (k : κ) (steps : List (Step κ α)) :
    lastSet k steps
      = (steps.map Prod.snd).foldl (fun value rows => (setBy k rows).or value) none := by
  rw [lastSet, List.foldl_map]

theorem setBy_isSome_iff {k : κ} {rows : List (κ × α)} :
    (setBy k rows).isSome ↔ ∃ row ∈ rows, row.1 = k := by
  induction rows with
  | nil => simp [setBy]
  | cons row rows ih =>
    rw [setBy_cons, Option.isSome_or, Bool.or_eq_true, ih]
    by_cases hrow : row.1 = k
    · simp [hrow]
    · simp [hrow]

theorem lastSet_isSome_iff {k : κ} {steps : List (Step κ α)} :
    (lastSet k steps).isSome ↔ ∃ step ∈ steps, ∃ row ∈ step.2, row.1 = k := by
  induction steps using List.reverseRecOn with
  | nil => simp [lastSet]
  | append_singleton steps step ih =>
    have hlast : lastSet k (steps ++ [step]) = (setBy k step.2).or (lastSet k steps) := by
      simp [lastSet, List.foldl_append]
    rw [hlast, Option.isSome_or, Bool.or_eq_true, ih, setBy_isSome_iff]
    simp only [List.mem_append, List.mem_singleton, or_and_right, exists_or, exists_eq_left]
    exact or_comm

/-- Steps that set the same rows leave the same under a key unless one of
them removes what the others keep. -/
theorem get_write_steps_eq_iff (s : OrderedStore κ α) {steps steps' : List (Step κ α)}
    (hrows : steps.map Prod.snd = steps'.map Prod.snd) (k : κ) :
    (s.write (steps.flatMap stepOps)).get k = (s.write (steps'.flatMap stepOps)).get k
      ↔ (((s.get k).isSome ∨ ∃ step ∈ steps, ∃ row ∈ step.2, row.1 = k) →
          removed k steps = removed k steps') := by
  have hlast : lastSet k steps' = lastSet k steps := by
    rw [lastSet_eq, lastSet_eq, hrows]
  rw [get_write_steps, get_write_steps, hlast, ← lastSet_isSome_iff]
  cases hset : lastSet k steps with
  | some v =>
    cases removed k steps <;> cases removed k steps' <;> simp
  | none =>
    cases hget : s.get k with
    | none => simp
    | some v => cases removed k steps <;> cases removed k steps' <;> simp

/-! ## Pages -/

/-- The first `size` entries at or after `start` whose key meets `p`, and
whether more follow. -/
def page (s : OrderedStore κ α) (start : κ) (p : κ → Bool) (size : Nat) :
    List (κ × α) × Bool :=
  let found := s.entries.filter fun entry => start ≤ entry.1 && p entry.1
  (found.take size, size < found.length)

theorem filter_gt_getElem {l : List (κ × α)} (h : l.Pairwise fun a b => a.1 < b.1) {n : Nat}
    (hn : n < l.length) : l.filter (fun entry => l[n].1 < entry.1) = l.drop (n + 1) := by
  induction l generalizing n with
  | nil => exact absurd hn (Nat.not_lt_zero n)
  | cons a l ih =>
    rw [List.pairwise_cons] at h
    cases n with
    | zero =>
      have hself : (decide (a.1 < a.1)) = false := by simp
      rw [List.getElem_cons_zero, List.filter_cons, hself, List.drop_succ_cons, List.drop_zero]
      exact List.filter_eq_self.mpr fun entry hmem => decide_eq_true (h.1 entry hmem)
    | succ n =>
      have hn' : n < l.length := Nat.lt_of_succ_lt_succ hn
      have hlt : a.1 < l[n].1 := h.1 _ (List.getElem_mem hn')
      have hdrop : (decide (l[n].1 < a.1)) = false := decide_eq_false hlt.not_gt
      rw [List.getElem_cons_succ, List.filter_cons, hdrop, List.drop_succ_cons]
      exact ih h.2 hn'

end OrderedStore

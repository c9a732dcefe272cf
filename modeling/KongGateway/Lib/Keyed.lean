import Mathlib.Data.List.AList

/-!
# Keyed — tables, and passes over items with distinct keys

A Lua table with string keys is an association list without repeated
keys; assigning `nil` removes the key.

A pass over keyed items is described slot by slot: `slot s k` is what the
state `s` says about the key `k`. When a step settles the slot of its own
item and leaves every other slot alone, a pass over items with pairwise
distinct keys settles each item's slot from what the slot held before the
pass, whatever the order of the items.
-/

/-! ## Tables -/

/-- A Lua table; the order of the entries is one of the orders in which
`pairs` may visit them. -/
abbrev LuaTable (κ α : Type*) := AList fun _ : κ => α

namespace LuaTable

variable {κ α : Type*} [DecidableEq κ]

def get (t : LuaTable κ α) (k : κ) : Option α := AList.lookup k t

/-- `t[k] = v`, where `v` may be `nil`. -/
def set (t : LuaTable κ α) (k : κ) : Option α → LuaTable κ α
  | none => AList.erase k t
  | some v => AList.insert k v t

theorem get_set (t : LuaTable κ α) (k k' : κ) (v : Option α) :
    (t.set k v).get k' = if k' = k then v else t.get k' := by
  cases v with
  | none =>
    split
    · rename_i heq
      rw [heq]
      exact AList.lookup_erase k t
    · rename_i hne
      exact AList.lookup_erase_ne hne
  | some v =>
    split
    · rename_i heq
      rw [heq]
      exact AList.lookup_insert t
    · rename_i hne
      exact AList.lookup_insert_ne hne

@[simp] theorem get_set_self (t : LuaTable κ α) (k : κ) (v : Option α) :
    (t.set k v).get k = v := by
  rw [get_set, if_pos rfl]

theorem get_set_ne (t : LuaTable κ α) {k k' : κ} (h : k' ≠ k) (v : Option α) :
    (t.set k v).get k' = t.get k' := by
  rw [get_set, if_neg h]

theorem get_set_some_cases {t : LuaTable κ α} {k k' : κ} {v w : α}
    (h : (t.set k (some v)).get k' = some w) :
    (k' = k ∧ w = v) ∨ (k' ≠ k ∧ t.get k' = some w) := by
  rw [get_set] at h
  split at h
  · rename_i heq
    exact .inl ⟨heq, (Option.some.inj h).symm⟩
  · rename_i hne
    exact .inr ⟨hne, h⟩

theorem set_set_some (t : LuaTable κ α) (k : κ) (v v' : α) :
    (t.set k (some v)).set k (some v') = t.set k (some v') :=
  AList.insert_insert t

@[simp] theorem get_empty (k : κ) : get (∅ : LuaTable κ α) k = none := AList.lookup_empty k

theorem get_eq_none_iff {t : LuaTable κ α} {k : κ} : t.get k = none ↔ k ∉ t.keys := by
  rw [← AList.mem_keys]
  exact AList.lookup_eq_none

/-- Every value of a table changed. -/
def map {β : Type*} (f : α → β) (t : LuaTable κ α) : LuaTable κ β where
  entries := t.entries.map fun entry => ⟨entry.1, f entry.2⟩
  nodupKeys := by
    have hkeys : (t.entries.map fun entry => (⟨entry.1, f entry.2⟩ : (_ : κ) × β)).keys
        = t.entries.keys := by
      rw [List.keys, List.map_map]
      rfl
    rw [List.NodupKeys, hkeys]
    exact t.nodupKeys

theorem get_map {β : Type*} (f : α → β) (t : LuaTable κ α) (k : κ) :
    (t.map f).get k = (t.get k).map f :=
  @List.dlookup_map₂ κ _ (fun _ => α) (fun _ => β) t.entries (fun _ => f) k

end LuaTable

/-! ## Tables in a given order -/

namespace OrderedTable

variable {κ α : Type*} [DecidableEq κ]

/-- `t[k] = v`, where an entry that exists keeps its place. -/
def set (t : List (κ × α)) (k : κ) : Option α → List (κ × α)
  | none => t.filter fun entry => entry.1 ≠ k
  | some v =>
    if t.any fun entry => entry.1 = k then
      t.map fun entry => if entry.1 = k then (k, v) else entry
    else t ++ [(k, v)]

variable [BEq κ] [LawfulBEq κ]

theorem lookup_cons (entry : κ × α) (t : List (κ × α)) (k : κ) :
    List.lookup k (entry :: t) = if k = entry.1 then some entry.2 else List.lookup k t := by
  rw [List.lookup_cons]
  by_cases hk : k = entry.1
  · simp [hk]
  · simp [hk, beq_false_of_ne hk]

theorem lookup_replace (t : List (κ × α)) (k k' : κ) (v : α) :
    List.lookup k' (t.map fun entry => if entry.1 = k then (k, v) else entry)
      = if k' = k then (List.lookup k t).map fun _ => v else List.lookup k' t := by
  induction t with
  | nil => simp
  | cons entry t ih =>
    rw [List.map_cons, lookup_cons, ih, lookup_cons, lookup_cons]
    by_cases hk : k' = k
    · by_cases hentry : entry.1 = k
      · simp [hk, hentry]
      · simp [hk, hentry, Ne.symm hentry]
    · by_cases hentry : entry.1 = k
      · simp [hk, hentry]
      · simp [hk, hentry]

theorem lookup_set (t : List (κ × α)) (k k' : κ) (v : Option α) :
    List.lookup k' (set t k v) = if k' = k then v else List.lookup k' t := by
  cases v with
  | none =>
    unfold set
    induction t with
    | nil => simp
    | cons entry t ih =>
      rw [List.filter_cons, lookup_cons]
      by_cases hentry : entry.1 = k
      · rw [if_neg (by simp [hentry]), ih]
        by_cases hk : k' = k
        · simp [hk]
        · simp [hk, hentry]
      · rw [if_pos (by simp [hentry]), lookup_cons, ih]
        by_cases hk : k' = k
        · simp [hk, Ne.symm hentry]
        · simp [hk]
  | some v =>
    change List.lookup k' (if _ then _ else _) = _
    split
    · rename_i hany
      rw [lookup_replace]
      obtain ⟨entry, hentry, hkey⟩ := List.any_eq_true.mp hany
      have hsome : List.lookup k t ≠ none := fun hnone => by
        have := List.lookup_eq_none_iff.mp hnone entry hentry
        simp [of_decide_eq_true hkey] at this
      obtain ⟨w, hw⟩ := Option.ne_none_iff_exists'.mp hsome
      rw [hw]
      rfl
    · rename_i hany
      rw [List.lookup_append, lookup_cons]
      have hnone : List.lookup k t = none := by
        rw [List.lookup_eq_none_iff]
        intro entry hentry
        have hne : entry.1 ≠ k := fun heq =>
          hany (List.any_eq_true.mpr ⟨entry, hentry, decide_eq_true heq⟩)
        exact bne_iff_ne.mpr (Ne.symm hne)
      by_cases hk : k' = k
      · simp [hk, hnone]
      · simp [hk]

end OrderedTable

/-! ## Passes -/

namespace Keyed

variable {σ ι κ ω β ε : Type*}

/-- One step of a pass: ready items succeed, settle their own slot, leave
the others alone and move the tally. -/
structure Step (step : σ → ι → Except ε σ) (key : ι → κ) (slot : σ → κ → ω) (tally : σ → β)
    (Ready : ω → ι → Prop) (value : ω → ι → ω) (count : β → ι → β) : Prop where
  settle : ∀ s i, Ready (slot s (key i)) i → ∃ s', step s i = .ok s'
    ∧ slot s' (key i) = value (slot s (key i)) i
    ∧ (∀ k, k ≠ key i → slot s' k = slot s k)
    ∧ tally s' = count (tally s) i

variable {step : σ → ι → Except ε σ} {key : ι → κ} {slot : σ → κ → ω} {tally : σ → β}
  {Ready : ω → ι → Prop} {value : ω → ι → ω} {count : β → ι → β}

/-- **The pass rule.** -/
theorem Step.foldlM (h : Step step key slot tally Ready value count) {items : List ι} {s : σ}
    (hkeys : (items.map key).Nodup) (hready : ∀ i ∈ items, Ready (slot s (key i)) i) :
    ∃ s', items.foldlM step s = .ok s'
      ∧ (∀ i ∈ items, slot s' (key i) = value (slot s (key i)) i)
      ∧ (∀ k, k ∉ items.map key → slot s' k = slot s k)
      ∧ tally s' = items.foldl count (tally s) := by
  induction items generalizing s with
  | nil => exact ⟨s, rfl, by simp, fun _ _ => rfl, rfl⟩
  | cons i rest ih =>
    rw [List.map_cons, List.nodup_cons] at hkeys
    obtain ⟨hi, hrest⟩ := hkeys
    obtain ⟨s₁, hstep, hself, hframe, htally⟩ := h.settle s i (hready i (by simp))
    have hother : ∀ j ∈ rest, slot s₁ (key j) = slot s (key j) := by
      intro j hj
      refine hframe (key j) fun heq => hi ?_
      rw [← heq]
      exact List.mem_map_of_mem hj
    obtain ⟨s', hrun, hsettled, hkept, hcount⟩ := ih hrest fun j hj => by
      rw [hother j hj]
      exact hready j (List.mem_cons_of_mem i hj)
    refine ⟨s', ?_, ?_, ?_, ?_⟩
    · rw [List.foldlM_cons, hstep]
      exact hrun
    · intro j hj
      rcases List.mem_cons.mp hj with rfl | hj
      · rw [hkept (key j) hi, hself]
      · rw [hsettled j hj, hother j hj]
    · intro k hk
      rw [List.map_cons, List.mem_cons, not_or] at hk
      rw [hkept k hk.2, hframe k hk.1]
    · rw [hcount, htally, List.foldl_cons]

end Keyed

import Mathlib.Data.List.Perm.Basic

/-!
# MultiMap — several values under one key

A multimap is the list of pairs its iterator yields. What it says of a
key is the list of the key's values, in order; two multimaps are the
same if they say the same of every key, in whichever order the keys
come.
-/

namespace MultiMap

variable {κ α : Type*} [DecidableEq κ]

/-! ## Operations -/

/-- The values of a key, in order. -/
def getAll (m : List (κ × α)) (k : κ) : List α :=
  (m.filter fun entry => entry.1 = k).map Prod.snd

/-- The key has this value afterwards and no other. -/
def insert : List (κ × α) → κ → α → List (κ × α)
  | [], k, v => [(k, v)]
  | entry :: rest, k, v =>
    if entry.1 = k then (k, v) :: rest.filter fun other => other.1 ≠ k
    else entry :: insert rest k v

/-- The key has this value behind those it has. -/
def append (m : List (κ × α)) (k : κ) (v : α) : List (κ × α) := m ++ [(k, v)]

def remove (m : List (κ × α)) (k : κ) : List (κ × α) := m.filter fun entry => entry.1 ≠ k

def contains (m : List (κ × α)) (k : κ) : Bool := m.any fun entry => entry.1 = k

/-- The first pair of every key. -/
def firsts : List (κ × α) → List (κ × α)
  | [] => []
  | entry :: rest => entry :: (firsts rest).filter fun other => other.1 ≠ entry.1

/-- The pairs inserted one after the other. -/
def insertAll (entries m : List (κ × α)) : List (κ × α) :=
  entries.foldl (fun m entry => insert m entry.1 entry.2) m

/-- The multimaps have the same values under every key. -/
def Same (m m' : List (κ × α)) : Prop := ∀ k, getAll m k = getAll m' k

/-! ## The values of a key -/

@[simp] theorem getAll_nil (k : κ) : getAll ([] : List (κ × α)) k = [] := rfl

theorem getAll_cons (entry : κ × α) (m : List (κ × α)) (k : κ) :
    getAll (entry :: m) k = if entry.1 = k then entry.2 :: getAll m k else getAll m k := by
  by_cases hk : entry.1 = k
  · simp [getAll, hk]
  · simp [getAll, hk]

theorem getAll_filter_key (m : List (κ × α)) (p : κ → Bool) (k : κ) :
    getAll (m.filter fun entry => p entry.1) k = if p k then getAll m k else [] := by
  induction m with
  | nil => simp
  | cons entry rest ih =>
    by_cases hp : p entry.1 = true
    · rw [List.filter_cons, if_pos hp, getAll_cons, getAll_cons, ih]
      split_ifs with hk hpk
      · rfl
      · rw [hk] at hp
        exact absurd hp hpk
      · rfl
      · rfl
    · rw [List.filter_cons, if_neg hp, ih, getAll_cons]
      split_ifs with hpk hk
      · rw [← hk] at hpk
        exact absurd hpk hp
      · rfl
      · rfl

theorem getAll_remove (m : List (κ × α)) (k k' : κ) :
    getAll (remove m k) k' = if k' = k then [] else getAll m k' := by
  rw [remove, getAll_filter_key m (fun key => decide (key ≠ k)) k']
  by_cases hk : k' = k <;> simp [hk]

theorem getAll_append (m : List (κ × α)) (k : κ) (v : α) (k' : κ) :
    getAll (append m k v) k' = if k' = k then getAll m k' ++ [v] else getAll m k' := by
  rw [getAll, append, List.filter_append, List.map_append]
  by_cases hk : k' = k
  · simp [hk, getAll]
  · simp [hk, Ne.symm hk, getAll]

theorem getAll_insert (m : List (κ × α)) (k : κ) (v : α) (k' : κ) :
    getAll (insert m k v) k' = if k' = k then [v] else getAll m k' := by
  induction m with
  | nil =>
    by_cases hk : k' = k
    · simp [insert, getAll_cons, hk]
    · simp [insert, getAll_cons, hk, Ne.symm hk]
  | cons entry rest ih =>
    by_cases hentry : entry.1 = k
    · -- the other values of the key are dropped
      have hrest := getAll_remove rest k k'
      rw [insert, if_pos hentry, getAll_cons, getAll_cons, hentry]
      rw [remove] at hrest
      rw [hrest]
      by_cases hk : k' = k
      · simp [hk]
      · simp [hk, Ne.symm hk]
    · rw [insert, if_neg hentry, getAll_cons, getAll_cons, ih]
      by_cases hk : k' = k
      · simp [hk, hentry]
      · simp [hk]

theorem contains_eq_true_iff {m : List (κ × α)} {k : κ} :
    contains m k = true ↔ getAll m k ≠ [] := by
  induction m with
  | nil => simp [contains]
  | cons entry rest ih =>
    rw [getAll_cons]
    by_cases hk : entry.1 = k
    · simp [contains, hk]
    · rw [if_neg hk, ← ih]
      simp [contains, hk]

theorem getAll_firsts (m : List (κ × α)) (k : κ) :
    getAll (firsts m) k = (getAll m k).head?.toList := by
  induction m with
  | nil => rfl
  | cons entry rest ih =>
    rw [firsts, getAll_cons, getAll_cons,
      getAll_filter_key (firsts rest) (fun key => decide (key ≠ entry.1)) k, ih]
    by_cases hk : entry.1 = k
    · simp [hk]
    · simp [hk, Ne.symm hk]

theorem getAll_insertAll (entries m : List (κ × α)) (k : κ) :
    getAll (insertAll entries m) k
      = (getAll entries k).getLast?.elim (getAll m k) fun v => [v] := by
  induction entries generalizing m with
  | nil => rfl
  | cons entry rest ih =>
    have hfold : insertAll (entry :: rest) m = insertAll rest (insert m entry.1 entry.2) := rfl
    rw [hfold, ih, getAll_cons, getAll_insert]
    by_cases hk : entry.1 = k
    · rw [if_pos hk, if_pos hk.symm, List.getLast?_cons]
      cases (getAll rest k).getLast? <;> rfl
    · rw [if_neg hk, if_neg (Ne.symm hk)]

theorem getAll_insertAll_nil (entries : List (κ × α)) (k : κ) :
    getAll (insertAll entries []) k = (getAll entries k).getLast?.toList := by
  rw [getAll_insertAll]
  cases (getAll entries k).getLast? with
  | none => rfl
  | some v => rfl

/-! ## Orders of the entries -/

/-- All values under the key are the same. -/
def Agrees (entries : List (κ × α)) (k : κ) : Prop :=
  ∀ v ∈ getAll entries k, ∀ v' ∈ getAll entries k, v = v'

theorem mem_getAll {m : List (κ × α)} {k : κ} {v : α} : v ∈ getAll m k ↔ (k, v) ∈ m := by
  simp only [getAll, List.mem_map, List.mem_filter, decide_eq_true_eq]
  constructor
  · rintro ⟨⟨key, value⟩, ⟨hmem, rfl⟩, rfl⟩
    exact hmem
  · intro hmem
    exact ⟨(k, v), ⟨hmem, rfl⟩, rfl⟩

theorem getAll_eq_of_perm {entries entries' : List (κ × α)} (hperm : entries'.Perm entries)
    {k : κ} (hagrees : Agrees entries k) : getAll entries' k = getAll entries k := by
  have hvalues : (getAll entries' k).Perm (getAll entries k) :=
    (hperm.filter _).map _
  cases hall : getAll entries k with
  | nil =>
    rw [hall] at hvalues
    exact hvalues.eq_nil
  | cons v rest =>
    -- the values are copies of one
    have hcopies : getAll entries k = List.replicate (getAll entries k).length v := by
      refine List.eq_replicate_iff.mpr ⟨rfl, fun v' hmem => ?_⟩
      exact hagrees v' hmem v (by simp [hall])
    rw [hcopies] at hvalues
    rw [← hall, hcopies]
    exact List.perm_replicate.mp hvalues

end MultiMap

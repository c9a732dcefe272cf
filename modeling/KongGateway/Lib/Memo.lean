import KongGateway.Lib.Run

/-!
# Memo — answers kept in a positive and a negative cache

A query is a key together with the outcome its evaluation would have.
`Memo.consult` looks the key up in the positive cache, then in the
negative one, and evaluates only when both miss; an aborted evaluation
is not stored.

A cache may forget whatever it likes and whenever it likes, but it never
answers with a value that was not stored under the key. So the answers
of a run are those of the evaluations as soon as queries of the run with
equal keys have equal results.
-/

/-! ## Caches -/

/-- What a user relies on of a cache such as an LRU cache. `peek` is the
value the next `get` would give. -/
structure CacheLib (κ ν : Type) where
  State : Type
  empty : State
  get : State → κ → Option ν × State
  set : State → κ → ν → State
  peek : State → κ → Option ν
  peek_empty : ∀ k, peek empty k = none
  get_fst : ∀ s k, (get s k).1 = peek s k
  peek_get : ∀ s k k', peek (get s k).2 k' = peek s k'
  peek_set : ∀ s k v k' w, peek (set s k v) k' = some w →
    (k' = k ∧ w = v) ∨ peek s k' = some w

namespace Lru

variable {κ ν : Type} [DecidableEq κ]

/-- The entry moves to, or comes in at, the front. -/
def touch (s : List (κ × ν)) (k : κ) (v : ν) : List (κ × ν) :=
  (k, v) :: s.filter fun entry => entry.1 ≠ k

theorem lookup_filter_ne (s : List (κ × ν)) {k k' : κ} (h : k' ≠ k) :
    (s.filter fun entry => entry.1 ≠ k).lookup k' = s.lookup k' := by
  induction s with
  | nil => rfl
  | cons entry rest ih =>
    obtain ⟨key, value⟩ := entry
    by_cases hkey : key = k
    · have hmiss : (k' == key) = false := by
        rw [hkey]
        simpa using h
      rw [List.filter_cons_of_neg (by simpa using hkey), ih, List.lookup_cons, hmiss]
    · rw [List.filter_cons_of_pos (by simpa using hkey), List.lookup_cons, List.lookup_cons, ih]

theorem lookup_touch (s : List (κ × ν)) (k k' : κ) (v : ν) :
    (touch s k v).lookup k' = if k' = k then some v else s.lookup k' := by
  rw [touch, List.lookup_cons]
  split
  · rename_i heq
    rw [if_pos (by simpa using heq)]
  · rename_i hne
    have hne' : k' ≠ k := by simpa using hne
    rw [if_neg hne', lookup_filter_ne s hne']

theorem lookup_of_take {s : List (κ × ν)} {n : Nat} {k : κ} {v : ν}
    (h : (s.take n).lookup k = some v) : s.lookup k = some v := by
  induction s generalizing n with
  | nil => simp at h
  | cons entry rest ih =>
    cases n with
    | zero => simp at h
    | succ n =>
      rw [List.take_succ_cons, List.lookup_cons] at h
      rw [List.lookup_cons]
      split at h
      · exact h
      · exact ih h

/-- A cache of bounded size that drops the least recently used entry. -/
def cache (size : Nat) : CacheLib κ ν where
  State := List (κ × ν)
  empty := []
  get s k :=
    match s.lookup k with
    | some v => (some v, touch s k v)
    | none => (none, s)
  set s k v := (touch s k v).take size
  peek s k := s.lookup k
  peek_empty _ := rfl
  get_fst s k := by
    cases h : s.lookup k <;> rfl
  peek_get s k k' := by
    cases h : s.lookup k with
    | none => rfl
    | some v =>
      show (touch s k v).lookup k' = s.lookup k'
      rw [lookup_touch]
      split
      · rename_i heq
        rw [heq, h]
      · rfl
  peek_set s k v k' w h := by
    have hfound := lookup_of_take h
    rw [lookup_touch] at hfound
    split at hfound
    · rename_i heq
      exact .inl ⟨heq, (Option.some.inj hfound).symm⟩
    · exact .inr hfound

end Lru

/-! ## Memoised evaluation -/

/-- How an evaluation ends; an aborted one has no result and leaves no
trace. -/
inductive Outcome (ν : Type) where
  | found (value : ν)
  | missing
  | aborted

def Outcome.result {ν : Type} : Outcome ν → Option ν
  | .found value => some value
  | .missing => none
  | .aborted => none

structure Memo {κ ν : Type} (posLib : CacheLib κ ν) (negLib : CacheLib κ Unit) where
  pos : posLib.State
  neg : negLib.State

namespace Memo

variable {κ ν ι ω ε : Type} {posLib : CacheLib κ ν} {negLib : CacheLib κ Unit}

def empty : Memo posLib negLib where
  pos := posLib.empty
  neg := negLib.empty

def consult (s : Memo posLib negLib) (key : κ) (outcome : Outcome ν) :
    Option ν × Memo posLib negLib :=
  match posLib.get s.pos key with
  | (some value, pos) => (some value, { s with pos := pos })
  | (none, pos) =>
    match negLib.get s.neg key with
    | (some _, neg) => (none, { pos := pos, neg := neg })
    | (none, neg) =>
      match outcome with
      | .found value => (some value, { pos := posLib.set pos key value, neg := neg })
      | .missing => (none, { pos := pos, neg := negLib.set neg key () })
      | .aborted => (none, { pos := pos, neg := neg })

/-- Everything in the caches was the outcome of an earlier query. -/
structure Remembers (s : Memo posLib negLib) (asked : κ → Outcome ν → Prop) : Prop where
  pos : ∀ key value, posLib.peek s.pos key = some value → asked key (.found value)
  neg : ∀ key, negLib.peek s.neg key = some () → asked key .missing

theorem Remembers.empty (asked : κ → Outcome ν → Prop) :
    (empty : Memo posLib negLib).Remembers asked where
  pos := by simp [Memo.empty, posLib.peek_empty]
  neg := by simp [Memo.empty, negLib.peek_empty]

variable {asked : κ → Outcome ν → Prop} {s : Memo posLib negLib}

/-- Consulting the caches answers with the result of this query or of an earlier one
under the same key, and remembers nothing else. -/
theorem Remembers.consult (h : s.Remembers asked) {key : κ} {outcome : Outcome ν}
    (hasked : asked key outcome) :
    (∃ outcome', asked key outcome' ∧ (s.consult key outcome).1 = outcome'.result)
      ∧ (s.consult key outcome).2.Remembers asked := by
  have hposAfter : ∀ key' value, posLib.peek (posLib.get s.pos key).2 key' = some value →
      asked key' (.found value) := fun key' value hpeek =>
    h.pos key' value (posLib.peek_get s.pos key key' ▸ hpeek)
  have hnegAfter : ∀ key', negLib.peek (negLib.get s.neg key).2 key' = some () →
      asked key' .missing := fun key' hpeek =>
    h.neg key' (negLib.peek_get s.neg key key' ▸ hpeek)
  have hposFound := posLib.get_fst s.pos key
  have hnegFound := negLib.get_fst s.neg key
  unfold Memo.consult
  rcases hpos : posLib.get s.pos key with ⟨_ | value, pos⟩
  · rw [hpos] at hposAfter hposFound
    rcases hneg : negLib.get s.neg key with ⟨_ | marked, neg⟩
    · rw [hneg] at hnegAfter
      refine ⟨⟨outcome, hasked, ?_⟩, ?_⟩
      · cases outcome <;> rfl
      · cases outcome with
        | found value =>
          refine ⟨fun key' value' hpeek => ?_, hnegAfter⟩
          rcases posLib.peek_set pos key value key' value' hpeek with ⟨rfl, rfl⟩ | hold
          · exact hasked
          · exact hposAfter key' value' hold
        | missing =>
          refine ⟨hposAfter, fun key' hpeek => ?_⟩
          rcases negLib.peek_set neg key () key' () hpeek with ⟨rfl, -⟩ | hold
          · exact hasked
          · exact hnegAfter key' hold
        | aborted => exact ⟨hposAfter, hnegAfter⟩
    · rw [hneg] at hnegAfter hnegFound
      exact ⟨⟨.missing, h.neg key hnegFound.symm, rfl⟩, hposAfter, hnegAfter⟩
  · rw [hpos] at hposAfter hposFound
    exact ⟨⟨.found value, h.pos key value hposFound.symm, rfl⟩, hposAfter, h.neg⟩

/-- A memoised system: the query of an input, or an error that comes
before any lookup, and what is made of the result. -/
def step (query : ι → Except ε (κ × Outcome ν)) (finish : ι → Option ν → ω)
    (s : Memo posLib negLib) (i : ι) : Except ε ω × Memo posLib negLib :=
  match query i with
  | .error err => (.error err, s)
  | .ok (key, outcome) =>
    ((.ok (finish i (s.consult key outcome).1)), (s.consult key outcome).2)

/-- The answer to an input when nothing is in the caches. -/
def fresh (query : ι → Except ε (κ × Outcome ν)) (finish : ι → Option ν → ω) (i : ι) :
    Except ε ω :=
  (query i).map fun asked => finish i asked.2.result

theorem step_empty (query : ι → Except ε (κ × Outcome ν)) (finish : ι → Option ν → ω) (i : ι) :
    (step query finish (empty : Memo posLib negLib) i).1 = fresh query finish i := by
  cases hquery : query i with
  | error err => simp [step, fresh, hquery, Except.map]
  | ok asked =>
    obtain ⟨key, outcome⟩ := asked
    have hremembers : (empty : Memo posLib negLib).Remembers
        (fun key' outcome' => key' = key ∧ outcome' = outcome) := .empty _
    obtain ⟨⟨outcome', ⟨-, rfl⟩, hanswer⟩, -⟩ := hremembers.consult ⟨rfl, rfl⟩
    simp [step, fresh, hquery, Except.map, hanswer]

/-- **Transparency.** When inputs of the run with equal keys have equal
results, the caches change no answer. -/
theorem outputs_eq_fresh (query : ι → Except ε (κ × Outcome ν)) (finish : ι → Option ν → ω)
    (inputs : List ι)
    (hkey : ∀ i ∈ inputs, ∀ j ∈ inputs, ∀ key outcome outcome', query i = .ok (key, outcome) →
      query j = .ok (key, outcome') → outcome.result = outcome'.result) :
    Run.outputs (step query finish) (empty : Memo posLib negLib) inputs
      = inputs.map (fresh query finish) := by
  -- the caches hold outcomes of inputs of this run
  let asked : κ → Outcome ν → Prop := fun key outcome => ∃ i ∈ inputs, query i = .ok (key, outcome)
  suffices hrun : ∀ (rest : List ι) (s : Memo posLib negLib), s.Remembers asked →
      (∀ i ∈ rest, i ∈ inputs) →
      Run.outputs (step query finish) s rest = rest.map (fresh query finish) from
    hrun inputs empty (.empty asked) fun _ hmem => hmem
  intro rest
  induction rest with
  | nil =>
    intro s _ _
    rfl
  | cons i rest ih =>
    intro s hs hsub
    have hi : i ∈ inputs := hsub i List.mem_cons_self
    have hrest : ∀ j ∈ rest, j ∈ inputs := fun j hj => hsub j (List.mem_cons_of_mem i hj)
    cases hquery : query i with
    | error err =>
      have hstep : step query finish s i = (.error err, s) := by simp [step, hquery]
      rw [Run.outputs_cons, hstep, ih s hs hrest, List.map_cons]
      simp [fresh, hquery, Except.map]
    | ok found =>
      obtain ⟨key, outcome⟩ := found
      have hasked : asked key outcome := ⟨i, hi, hquery⟩
      obtain ⟨⟨outcome', ⟨j, hj, hqueryj⟩, hanswer⟩, hnext⟩ := hs.consult hasked
      have hsame := hkey i hi j hj key outcome outcome' hquery hqueryj
      have hstep : step query finish s i
          = (.ok (finish i outcome.result), (s.consult key outcome).2) := by
        simp [step, hquery, hanswer, hsame]
      rw [Run.outputs_cons, hstep, ih _ hnext hrest, List.map_cons]
      simp [fresh, hquery, Except.map]

theorem outputs_eq_alone (query : ι → Except ε (κ × Outcome ν)) (finish : ι → Option ν → ω)
    (inputs : List ι)
    (hkey : ∀ i ∈ inputs, ∀ j ∈ inputs, ∀ key outcome outcome', query i = .ok (key, outcome) →
      query j = .ok (key, outcome') → outcome.result = outcome'.result) :
    Run.outputs (step query finish) (empty : Memo posLib negLib) inputs
      = inputs.map fun i => (step query finish (empty : Memo posLib negLib) i).1 := by
  rw [outputs_eq_fresh query finish inputs hkey]
  apply List.map_congr_left
  intro i _
  exact (step_empty query finish i).symm

end Memo

import Mathlib.Data.List.Nodup
import Mathlib.Data.List.Perm.Subperm
import KongGateway.Lib.MapM

/-!
# Utils — the topological sort of the database layer

`topological_sort` takes items and what each of them refers to. It walks
the relation backwards, depth first: an item is put in front of the
sorted list when all items that refer to it are already there. An item
is marked while the items that refer to it are visited; the walk comes
back to a marked item exactly if there is a cycle.

`visit` calls itself. The model bounds the depth of the calls; no call
reaches the bound, since the marked items are distinct.
-/

namespace KongGateway.Kong.Db.Utils

variable {α : Type} [DecidableEq α]

/-- How the sort ends without a list. -/
inductive Failure
  | error (message : String)
  | tooDeep
deriving DecidableEq, Repr

def cycleDetected : Failure := .error "Cycle detected, cannot sort topologically"

/-- The tables that a walk fills. -/
structure Walk (α : Type) where
  visited : α → Bool := fun _ => false
  marked : α → Bool := fun _ => false
  sorted : List α := []

/-- One entry of `neighbors_map`: `source` refers to `destination`. -/
def addNeighbor (source : α) (map : α → List α) (destination : α) : α → List α :=
  Function.update map destination (map destination ++ [source])

/-- `neighbors_map`: the items that refer to an item. -/
def neighborsMap (items : List α) (getNeighbors : α → List α) : α → List α :=
  items.foldl (fun map source => (getNeighbors source).foldl (addNeighbor source) map) fun _ => []

/-- `visit`, with the depth of the calls that may still be made. -/
def visit (neighborsMap : α → List α) : Nat → Walk α → α → Except Failure (Walk α)
  | 0, _, _ => .error .tooDeep
  | depth + 1, walk, current =>
    if walk.visited current then .ok walk
    else if walk.marked current then .error cycleDetected
    else do
      let walk := { walk with marked := Function.update walk.marked current true }
      let walk ← (neighborsMap current).foldlM (visit neighborsMap depth) walk
      .ok { marked := Function.update walk.marked current false
            visited := Function.update walk.visited current true
            sorted := current :: walk.sorted }

/-- One round of the loop over the items. -/
def visitItem (neighborsMap : α → List α) (depth : Nat) (walk : Walk α) (current : α) :
    Except Failure (Walk α) :=
  if walk.visited current || walk.marked current then .ok walk
  else visit neighborsMap depth walk current

def topologicalSort (items : List α) (getNeighbors : α → List α) : Except Failure (List α) :=
  (items.foldlM (visitItem (neighborsMap items getNeighbors) (items.length + 1)) {}).map Walk.sorted

/-! ## What refers to what -/

/-- An item refers to another one. -/
def Refers (items : List α) (getNeighbors : α → List α) (source destination : α) : Prop :=
  source ∈ items ∧ destination ∈ getNeighbors source

/-- The relation leads from an item back to it. -/
def Cyclic (items : List α) (getNeighbors : α → List α) : Prop :=
  ∃ a, Relation.TransGen (Refers items getNeighbors) a a

theorem mem_foldl_addNeighbor {source : α} {destinations : List α} {map : α → List α} {a b : α} :
    a ∈ destinations.foldl (addNeighbor source) map b
      ↔ a ∈ map b ∨ a = source ∧ b ∈ destinations := by
  induction destinations generalizing map with
  | nil => simp
  | cons destination rest ih =>
    rw [List.foldl_cons, ih, addNeighbor]
    by_cases hb : b = destination
    · subst hb
      rw [Function.update_self, List.mem_append, List.mem_singleton]
      constructor
      · rintro ((h | h) | ⟨h, -⟩)
        · exact .inl h
        · exact .inr ⟨h, List.mem_cons_self⟩
        · exact .inr ⟨h, List.mem_cons_self⟩
      · rintro (h | ⟨h, -⟩)
        · exact .inl (.inl h)
        · exact .inl (.inr h)
    · rw [Function.update_of_ne hb, List.mem_cons, or_iff_right hb]

theorem mem_neighborsMap {items : List α} {getNeighbors : α → List α} {a b : α} :
    a ∈ neighborsMap items getNeighbors b ↔ Refers items getNeighbors a b := by
  have hfold : ∀ (sources : List α) (map : α → List α),
      a ∈ sources.foldl (fun map source => (getNeighbors source).foldl (addNeighbor source) map) map b
        ↔ a ∈ map b ∨ a ∈ sources ∧ b ∈ getNeighbors a := by
    intro sources
    induction sources with
    | nil => simp
    | cons source rest ih =>
      intro map
      rw [List.foldl_cons, ih, mem_foldl_addNeighbor, List.mem_cons]
      constructor
      · rintro ((h | ⟨rfl, h⟩) | ⟨h, h'⟩)
        · exact .inl h
        · exact .inr ⟨.inl rfl, h⟩
        · exact .inr ⟨.inr h, h'⟩
      · rintro (h | ⟨rfl | h, h'⟩)
        · exact .inl (.inl h)
        · exact .inl (.inr ⟨rfl, h'⟩)
        · exact .inr ⟨h, h'⟩
  rw [neighborsMap, hfold, Refers]
  simp

/-! ## The invariant of the walk -/

section

variable {items : List α} {getNeighbors : α → List α}

/-- A list in which every item stands behind the items of the list that
it refers to, and with an item all items that refer to it. -/
structure Ordered (items : List α) (getNeighbors : α → List α) (sorted : List α) : Prop where
  nodup : sorted.Nodup
  subset : ∀ a ∈ sorted, a ∈ items
  behind : ∀ a b, b ∈ sorted → Refers items getNeighbors a b →
    a ∈ sorted ∧ sorted.idxOf b < sorted.idxOf a

theorem Ordered.cons {sorted : List α} (h : Ordered items getNeighbors sorted) {current : α}
    (hitem : current ∈ items) (hnew : current ∉ sorted)
    (hneighbors : ∀ a, Refers items getNeighbors a current → a ∈ sorted) :
    Ordered items getNeighbors (current :: sorted) where
  nodup := List.nodup_cons.mpr ⟨hnew, h.nodup⟩
  subset a ha := by
    rcases List.mem_cons.mp ha with rfl | ha
    · exact hitem
    · exact h.subset a ha
  behind a b hb hrefers := by
    have hne : ∀ {c}, c ∈ sorted → current ≠ c := fun hc heq => hnew (heq ▸ hc)
    rcases List.mem_cons.mp hb with rfl | hb
    · have ha := hneighbors a hrefers
      refine ⟨List.mem_cons_of_mem _ ha, ?_⟩
      rw [List.idxOf_cons_self, List.idxOf_cons_ne _ (hne ha)]
      exact Nat.succ_pos _
    · obtain ⟨ha, hlt⟩ := h.behind a b hb hrefers
      refine ⟨List.mem_cons_of_mem _ ha, ?_⟩
      rw [List.idxOf_cons_ne _ (hne ha), List.idxOf_cons_ne _ (hne hb)]
      exact Nat.succ_lt_succ hlt

theorem Ordered.behind_of_transGen {sorted : List α} (h : Ordered items getNeighbors sorted)
    (hall : ∀ a ∈ items, a ∈ sorted) {a b : α}
    (hpath : Relation.TransGen (Refers items getNeighbors) a b) (hb : b ∈ sorted) :
    sorted.idxOf b < sorted.idxOf a := by
  induction hpath with
  | single hrefers => exact (h.behind _ _ hb hrefers).2
  | tail hpath hrefers ih =>
    have hlt := (h.behind _ _ hb hrefers).2
    exact Nat.lt_trans hlt (ih (hall _ hrefers.1))

theorem Ordered.not_cyclic {sorted : List α} (h : Ordered items getNeighbors sorted)
    (hall : ∀ a ∈ items, a ∈ sorted) : ¬ Cyclic items getNeighbors := by
  rintro ⟨a, hpath⟩
  have ha : a ∈ items := by
    obtain ⟨b, hrefers, -⟩ := Relation.TransGen.head'_iff.mp hpath
    exact hrefers.1
  exact absurd (h.behind_of_transGen hall hpath (hall a ha)) (Nat.lt_irrefl _)

/-- A walk with the items of `path` marked. -/
structure Walking (items : List α) (getNeighbors : α → List α) (path : List α) (walk : Walk α) :
    Prop where
  ordered : Ordered items getNeighbors walk.sorted
  visited : ∀ a, walk.visited a = true ↔ a ∈ walk.sorted
  marked : ∀ a, walk.marked a = true ↔ a ∈ path
  path_nodup : path.Nodup
  path_subset : ∀ a ∈ path, a ∈ items
  path_open : ∀ a ∈ path, a ∉ walk.sorted

/-- How a visit ends: with the cycle error if there is a cycle, and else
with the items of `added` in the list. -/
def Ends (items : List α) (getNeighbors : α → List α) (path : List α) (walk : Walk α)
    (added : List α) (result : Except Failure (Walk α)) : Prop :=
  (result = .error cycleDetected ∧ Cyclic items getNeighbors)
    ∨ ∃ walk', result = .ok walk' ∧ Walking items getNeighbors path walk'
        ∧ (∀ a ∈ walk.sorted, a ∈ walk'.sorted) ∧ ∀ a ∈ added, a ∈ walk'.sorted

variable {path : List α} {walk : Walk α}

theorem Walking.ends_self (h : Walking items getNeighbors path walk) {added : List α}
    (hadded : ∀ a ∈ added, a ∈ walk.sorted) :
    Ends items getNeighbors path walk added (.ok walk) :=
  .inr ⟨walk, rfl, h, fun _ ha => ha, hadded⟩

theorem Walking.foldlM (h : Walking items getNeighbors path walk) {l : List α}
    {f : Walk α → α → Except Failure (Walk α)}
    (hf : ∀ a ∈ l, ∀ walk, Walking items getNeighbors path walk →
      Ends items getNeighbors path walk [a] (f walk a)) :
    Ends items getNeighbors path walk l (l.foldlM f walk) := by
  induction l generalizing walk with
  | nil => exact h.ends_self (by simp)
  | cons a rest ih =>
    rw [List.foldlM_cons]
    rcases hf a List.mem_cons_self walk h with ⟨herror, hcyclic⟩ | ⟨walk₁, hok, h₁, hkept, hadded⟩
    · rw [herror]
      exact .inl ⟨rfl, hcyclic⟩
    · rw [hok]
      rcases ih h₁ fun b hb => hf b (List.mem_cons_of_mem a hb) with
        hcycle | ⟨walk₂, hok₂, h₂, hkept₂, hadded₂⟩
      · exact .inl hcycle
      · refine .inr ⟨walk₂, hok₂, h₂, fun b hb => hkept₂ b (hkept b hb), fun b hb => ?_⟩
        rcases List.mem_cons.mp hb with rfl | hb
        · exact hkept₂ b (hadded b List.mem_cons_self)
        · exact hadded₂ b hb

theorem Walking.mark (h : Walking items getNeighbors path walk) {current : α}
    (hitem : current ∈ items) (hvisited : ¬ walk.visited current) (hmarked : ¬ walk.marked current) :
    Walking items getNeighbors (current :: path)
      { walk with marked := Function.update walk.marked current true } where
  ordered := h.ordered
  visited := h.visited
  marked a := by
    dsimp only
    by_cases ha : a = current
    · subst ha
      simp
    · rw [Function.update_of_ne ha, h.marked, List.mem_cons, or_iff_right ha]
  path_nodup := List.nodup_cons.mpr ⟨fun hmem => hmarked ((h.marked current).mpr hmem), h.path_nodup⟩
  path_subset a ha := by
    rcases List.mem_cons.mp ha with rfl | ha
    · exact hitem
    · exact h.path_subset a ha
  path_open a ha := by
    rcases List.mem_cons.mp ha with rfl | ha
    · exact fun hmem => hvisited ((h.visited a).mpr hmem)
    · exact h.path_open a ha

theorem Walking.finish {current : α} (h : Walking items getNeighbors (current :: path) walk)
    (hneighbors : ∀ a, Refers items getNeighbors a current → a ∈ walk.sorted) :
    Walking items getNeighbors path
      { marked := Function.update walk.marked current false
        visited := Function.update walk.visited current true
        sorted := current :: walk.sorted } := by
  obtain ⟨hnot, hnodup⟩ := List.nodup_cons.mp h.path_nodup
  have hnew := h.path_open current List.mem_cons_self
  refine ⟨h.ordered.cons (h.path_subset current List.mem_cons_self) hnew hneighbors, fun a => ?_,
    fun a => ?_, hnodup, fun a ha => h.path_subset a (List.mem_cons_of_mem _ ha), fun a ha => ?_⟩
  · dsimp only
    by_cases ha : a = current
    · subst ha
      simp
    · rw [Function.update_of_ne ha, h.visited, List.mem_cons, or_iff_right ha]
  · dsimp only
    by_cases ha : a = current
    · subst ha
      simp [hnot]
    · rw [Function.update_of_ne ha, h.marked, List.mem_cons, or_iff_right ha]
  · rw [List.mem_cons, not_or]
    refine ⟨?_, h.path_open a (List.mem_cons_of_mem _ ha)⟩
    rintro rfl
    exact hnot ha

/-- **A visit.** The item leads to all marked ones, so coming back to one
of them closes a cycle; the marked items are distinct, so the depth is
enough. -/
theorem visit_ends {depth : Nat} {current : α} (hdepth : items.length < depth + path.length)
    (h : Walking items getNeighbors path walk) (hitem : current ∈ items)
    (hleads : ∀ a ∈ path, Relation.TransGen (Refers items getNeighbors) current a) :
    Ends items getNeighbors path walk [current]
      (visit (neighborsMap items getNeighbors) depth walk current) := by
  induction depth generalizing path walk current with
  | zero =>
    have hle := (List.subperm_of_subset h.path_nodup fun a ha => h.path_subset a ha).length_le
    omega
  | succ depth ih =>
    rw [visit]
    split
    · rename_i hvisited
      exact h.ends_self (by simpa using (h.visited current).mp hvisited)
    · rename_i hvisited
      split
      · rename_i hmarked
        exact .inl ⟨rfl, current, hleads current ((h.marked current).mp hmarked)⟩
      · rename_i hmarked
        have hwalk := h.mark hitem hvisited hmarked
        have hneighbor : ∀ a ∈ neighborsMap items getNeighbors current, ∀ walk,
            Walking items getNeighbors (current :: path) walk →
              Ends items getNeighbors (current :: path) walk [a]
                (visit (neighborsMap items getNeighbors) depth walk a) := by
          intro a ha walk hw
          have hrefers := mem_neighborsMap.mp ha
          refine ih (by simp only [List.length_cons]; omega) hw hrefers.1 fun b hb => ?_
          rcases List.mem_cons.mp hb with rfl | hb
          · exact .single hrefers
          · exact .head hrefers (hleads b hb)
        dsimp only
        rcases hwalk.foldlM hneighbor with ⟨herror, hcyclic⟩ | ⟨walk', hok, hw', hkept, hadded⟩
        · rw [herror]
          exact .inl ⟨rfl, hcyclic⟩
        · rw [hok]
          refine .inr ⟨_, rfl, hw'.finish fun a ha => hadded a (mem_neighborsMap.mpr ha),
            fun a ha => List.mem_cons_of_mem _ (hkept a ha), fun a ha => ?_⟩
          rw [List.mem_singleton.mp ha]
          exact List.mem_cons_self

theorem visitItem_ends {current : α} (h : Walking items getNeighbors [] walk)
    (hitem : current ∈ items) :
    Ends items getNeighbors [] walk [current]
      (visitItem (neighborsMap items getNeighbors) (items.length + 1) walk current) := by
  have hunmarked : walk.marked current = false := by
    rw [← Bool.not_eq_true, h.marked]
    exact List.not_mem_nil
  rw [visitItem, hunmarked, Bool.or_false]
  split
  · rename_i hvisited
    exact h.ends_self (by simpa using (h.visited current).mp hvisited)
  · exact visit_ends (by simp) h hitem fun a ha => absurd ha List.not_mem_nil

/-- **The sort** fails exactly on a cycle; else it lists the items, each
behind those that it refers to. -/
theorem topologicalSort_ends (items : List α) (getNeighbors : α → List α) :
    (topologicalSort items getNeighbors = .error cycleDetected ∧ Cyclic items getNeighbors)
      ∨ ∃ sorted, topologicalSort items getNeighbors = .ok sorted
          ∧ Ordered items getNeighbors sorted ∧ ∀ a ∈ items, a ∈ sorted := by
  have hstart : Walking items getNeighbors [] {} := by
    refine ⟨⟨List.nodup_nil, ?_, ?_⟩, ?_, ?_, List.nodup_nil, ?_, ?_⟩ <;> simp
  rw [topologicalSort]
  rcases hstart.foldlM fun a ha walk hw => visitItem_ends hw ha with
    ⟨herror, hcyclic⟩ | ⟨walk, hok, hw, -, hadded⟩
  · rw [herror]
    exact .inl ⟨rfl, hcyclic⟩
  · rw [hok]
    exact .inr ⟨walk.sorted, rfl, hw.ordered, hadded⟩

theorem topologicalSort_error_iff (items : List α) (getNeighbors : α → List α) :
    topologicalSort items getNeighbors = .error cycleDetected ↔ Cyclic items getNeighbors := by
  rcases topologicalSort_ends items getNeighbors with
    ⟨herror, hcyclic⟩ | ⟨sorted, hok, hordered, hall⟩
  · exact ⟨fun _ => hcyclic, fun _ => herror⟩
  · rw [hok]
    exact ⟨fun h => (by cases h), fun hcyclic => absurd hcyclic (hordered.not_cyclic hall)⟩

theorem topologicalSort_sorted {items : List α} {getNeighbors : α → List α}
    (hnodup : items.Nodup) (hacyclic : ¬ Cyclic items getNeighbors) :
    ∃ sorted, topologicalSort items getNeighbors = .ok sorted ∧ sorted.Perm items
      ∧ ∀ a ∈ items, ∀ b ∈ getNeighbors a, b ∈ items → sorted.idxOf b < sorted.idxOf a := by
  rcases topologicalSort_ends items getNeighbors with
    ⟨-, hcyclic⟩ | ⟨sorted, hok, hordered, hall⟩
  · exact absurd hcyclic hacyclic
  · refine ⟨sorted, hok, ?_, fun a ha b hb hitem =>
      (hordered.behind a b (hall b hitem) ⟨ha, hb⟩).2⟩
    rw [List.perm_ext_iff_of_nodup hordered.nodup hnodup]
    exact fun a => ⟨hordered.subset a, hall a⟩

end

end KongGateway.Kong.Db.Utils

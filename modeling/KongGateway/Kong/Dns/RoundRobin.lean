import KongGateway.Lib.GreedyRotation
import Mathlib.Algebra.BigOperators.Fin

/-!
# RoundRobin — the record that an SRV name resolves to

`get_next_weighted_round_robin_answer` gathers the records of the lowest
priority once and keeps a running counter (`cw`) in each of them. The
gathered list refers to the records of the answer list; only through it
is `cw` read and written, so the model keeps the counters there. A record
is told by its place in the gathered list. Counters are exact here, as
they are in the code while the weights are whole numbers.
-/

namespace KongGateway.Kong.Dns

open GreedyRotation

/-- The fields of an SRV record that the selection reads. -/
structure Srv where
  priority : Nat
  weight : Nat
deriving DecidableEq, Repr

/-- A record with its current weight. -/
structure Answer extends Srv where
  cw : Option ℚ := none
deriving DecidableEq

structure Answers where
  records : List Answer
  lowestPrioRecords : Option (List Answer) := none

/-- An answer list as it was received. -/
def Answers.received (records : List Srv) : Answers where
  records := records.map fun r => { toSrv := r }

/-- The weight that the selection uses; 0.1 gives a record of weight 0 a
minimal chance. -/
def Srv.effectiveWeight (answer : Srv) : ℚ :=
  if answer.weight = 0 then 1 / 10 else answer.weight

/-- What the loop of `swrr_next` has at hand: the records with their new
counters, the sum of the weights, and the best record so far with its
counter. -/
structure Pass where
  seen : List Answer := []
  total : ℚ := 0
  best : Option (Nat × ℚ) := none

/-- One round of the loop; adding to a missing counter raises. -/
def swrrVisit (s : Pass) (answer : Answer) : Option Pass :=
  answer.cw.map fun cw =>
    let cw := cw + answer.effectiveWeight
    { seen := s.seen ++ [{ answer with cw := some cw }]
      total := s.total + answer.effectiveWeight
      best :=
        match s.best with
        | none => some (s.seen.length, cw)
        | some best => if best.2 < cw then some (s.seen.length, cw) else some best }

/-- `swrr_next`: the place of the best record, and the records after it. -/
def swrrNext (answers : List Answer) : Option (Nat × List Answer) :=
  (answers.foldlM swrrVisit {}).bind fun s =>
    s.best.map fun best =>
      (best.1, s.seen.modify best.1 fun answer => { answer with cw := some (best.2 - s.total) })

/-- The rounds of the random start. -/
def swrrSteps : Nat → List Answer → Option (List Answer)
  | 0, answers => some answers
  | n + 1, answers => (swrrNext answers).bind fun next => swrrSteps n next.2

def swrrInit (mathRandom : Nat → Nat) (answers : List Answer) : Option (List Answer) :=
  swrrSteps (mathRandom answers.length) (answers.map fun answer => { answer with cw := some 0 })

/-- One round of the loop of `filter_lowest_priority_answers`. -/
def visitPriority (s : Nat × List Answer) (answer : Answer) : Nat × List Answer :=
  if answer.priority < s.1 then (answer.priority, [answer])
  else if answer.priority = s.1 then (s.1, s.2 ++ [answer])
  else s

def filterLowestPriorityAnswers (answers : List Answer) : Option (List Answer) :=
  answers.head?.map fun first => (answers.foldl visitPriority (first.priority, [])).2

def getNextWeightedRoundRobinAnswer (mathRandom : Nat → Nat) (answers : Answers) :
    Option (Nat × Answers) := do
  let l ← match answers.lowestPrioRecords with
    | some l => some l
    | none => filterLowestPriorityAnswers answers.records
  let first ← l.head?
  let l ← if first.cw.isNone then swrrInit mathRandom l else some l
  let next ← swrrNext l
  some (next.1, { answers with lowestPrioRecords := some next.2 })

/-- Consecutive calls: the places returned, and the answer list after
them. -/
def calls (mathRandom : Nat → Nat) : Nat → Answers → Option (List Nat × Answers)
  | 0, answers => some ([], answers)
  | n + 1, answers =>
    (getNextWeightedRoundRobinAnswer mathRandom answers).bind fun next =>
      (calls mathRandom n next.2).map fun rest => (next.1 :: rest.1, rest.2)

/-- The records of the lowest priority. -/
def lowest (records : List Srv) : List Srv :=
  records.filter fun r => records.all fun other => r.priority ≤ other.priority

/-! ## The gathered list -/

/-- What is gathered from the records seen so far. -/
structure Gathered (first : Nat) (seen : List Answer) (s : Nat × List Answer) : Prop where
  list_eq : s.2 = seen.filter fun a => a.priority = s.1
  le : ∀ a ∈ seen, s.1 ≤ a.priority
  attained : s.1 = first ∨ ∃ a ∈ seen, a.priority = s.1

theorem Gathered.visit {first : Nat} {seen : List Answer} {s : Nat × List Answer}
    (h : Gathered first seen s) (answer : Answer) :
    Gathered first (seen ++ [answer]) (visitPriority s answer) := by
  rw [visitPriority]
  split
  · rename_i hlt
    -- a lower priority starts the list anew
    have hnone : (seen.filter fun a => a.priority = answer.priority) = [] := by
      rw [List.filter_eq_nil_iff]
      intro a ha
      have hle := h.le a ha
      simp only [decide_eq_true_eq]
      omega
    refine ⟨by simp [List.filter_append, hnone], fun a ha => ?_, .inr ⟨answer, by simp, rfl⟩⟩
    rcases List.mem_append.mp ha with ha | ha
    · exact (Nat.le_of_lt hlt).trans (h.le a ha)
    · rw [List.mem_singleton.mp ha]
  · split
    · rename_i hge heq
      refine ⟨by simp [List.filter_append, heq, h.list_eq], fun a ha => ?_,
        .inr ⟨answer, by simp, heq⟩⟩
      rcases List.mem_append.mp ha with ha | ha
      · exact h.le a ha
      · rw [List.mem_singleton.mp ha, heq]
    · rename_i hge hne
      refine ⟨by simp [List.filter_append, hne, h.list_eq], fun a ha => ?_,
        h.attained.imp_right ?_⟩
      · rcases List.mem_append.mp ha with ha | ha
        · exact h.le a ha
        · rw [List.mem_singleton.mp ha]
          exact Nat.not_lt.mp hge
      · rintro ⟨a, ha, hp⟩
        exact ⟨a, List.mem_append_left _ ha, hp⟩

theorem Gathered.foldl {first : Nat} (rest : List Answer) {seen : List Answer}
    {s : Nat × List Answer} (h : Gathered first seen s) :
    Gathered first (seen ++ rest) (rest.foldl visitPriority s) := by
  induction rest generalizing seen s with
  | nil => simpa using h
  | cons answer rest ih =>
    have hrest := ih (h.visit answer)
    rwa [List.append_assoc] at hrest

theorem filterLowestPriorityAnswers_eq {answers : List Answer} (hne : answers ≠ []) :
    filterLowestPriorityAnswers answers
      = some (answers.filter fun a => answers.all fun other => a.priority ≤ other.priority) := by
  obtain ⟨first, rest, rfl⟩ := List.exists_cons_of_ne_nil hne
  have hstart : Gathered first.priority [] (first.priority, []) := ⟨rfl, by simp, .inl rfl⟩
  have h := hstart.foldl (first :: rest)
  rw [List.nil_append] at h
  rw [filterLowestPriorityAnswers, List.head?_cons, Option.map_some, h.list_eq]
  congr 1
  apply List.filter_congr
  intro a ha
  rw [Bool.eq_iff_iff, decide_eq_true_eq, List.all_eq_true]
  simp only [decide_eq_true_eq]
  constructor
  · intro heq other hother
    rw [heq]
    exact h.le other hother
  · intro hleast
    obtain ⟨least, hmem, hleast'⟩ : ∃ least ∈ first :: rest,
        least.priority = ((first :: rest).foldl visitPriority (first.priority, [])).1 := by
      rcases h.attained with heq | hseen
      · exact ⟨first, by simp, heq.symm⟩
      · exact hseen
    have hle := h.le a ha
    have hge := hleast least hmem
    omega

theorem filterLowestPriorityAnswers_received {records : List Srv} (hne : records ≠ []) :
    filterLowestPriorityAnswers (Answers.received records).records
      = some ((lowest records).map fun r => { toSrv := r }) := by
  rw [filterLowestPriorityAnswers_eq (by simpa [Answers.received] using hne), Answers.received,
    lowest, List.filter_map]
  simp [Function.comp_def]

theorem lowest_ne_nil {records : List Srv} (hne : records ≠ []) : lowest records ≠ [] := by
  obtain ⟨least, hmem, hleast⟩ := Finset.exists_min_image records.toFinset Srv.priority
    (List.toFinset_nonempty_iff records |>.mpr hne)
  have hin : least ∈ lowest records := by
    rw [lowest, List.mem_filter, List.all_eq_true]
    refine ⟨List.mem_toFinset.mp hmem, fun other hother => ?_⟩
    exact decide_eq_true (hleast other (List.mem_toFinset.mpr hother))
  exact List.ne_nil_of_mem hin

/-! ## One selection -/

/-- A record with the weight added to its counter. -/
def Answer.raised (answer : Answer) : Answer :=
  { answer with cw := answer.cw.map (· + answer.effectiveWeight) }

/-- The best record so far: the largest counter. -/
def Pass.Best (seen : List Answer) (best : Nat × ℚ) : Prop :=
  (∃ a, seen[best.1]? = some a ∧ a.cw = some best.2) ∧ ∀ b ∈ seen, ∀ c, b.cw = some c → c ≤ best.2

theorem Pass.Best.concat {seen : List Answer} {best : Nat × ℚ} (h : Pass.Best seen best)
    {a : Answer} {c : ℚ} (ha : a.cw = some c) (hle : c ≤ best.2) :
    Pass.Best (seen ++ [a]) best := by
  obtain ⟨⟨b, hb, hbcw⟩, hmax⟩ := h
  refine ⟨⟨b, ?_, hbcw⟩, fun d hd e he => ?_⟩
  · have hlt : best.1 < seen.length := (List.getElem?_eq_some_iff.mp hb).1
    rw [List.getElem?_append_left hlt, hb]
  · rcases List.mem_append.mp hd with hd | hd
    · exact hmax d hd e he
    · rw [List.mem_singleton.mp hd, ha] at he
      cases he
      exact hle

theorem Pass.Best.of_above {seen : List Answer} {a : Answer} {c : ℚ} (ha : a.cw = some c)
    (habove : ∀ b ∈ seen, ∀ d, b.cw = some d → d ≤ c) :
    Pass.Best (seen ++ [a]) (seen.length, c) := by
  refine ⟨⟨a, by simp, ha⟩, fun d hd e he => ?_⟩
  rcases List.mem_append.mp hd with hd | hd
  · exact habove d hd e he
  · rw [List.mem_singleton.mp hd, ha] at he
    cases he
    exact le_refl _

/-- What the loop has after the records seen. -/
structure Pass.Seen (s : Pass) (answers : List Answer) : Prop where
  seen : s.seen = answers.map Answer.raised
  total : s.total = (answers.map fun a => a.effectiveWeight).sum
  none : s.best = none → answers = []
  best : ∀ best, s.best = some best → Pass.Best s.seen best

theorem Pass.Seen.visit {s : Pass} {answers : List Answer} (h : s.Seen answers) {answer : Answer}
    {cw : ℚ} (hcw : answer.cw = some cw) :
    ∃ s', swrrVisit s answer = some s' ∧ s'.Seen (answers ++ [answer]) := by
  have hraised : answer.raised = { answer with cw := some (cw + answer.effectiveWeight) } := by
    rw [Answer.raised, hcw]
    rfl
  rw [swrrVisit, hcw]
  refine ⟨_, rfl, ⟨by simp [h.seen, hraised], by simp [h.total], fun hnone => ?_,
    fun best hbest => ?_⟩⟩
  · simp only at hnone
    split at hnone
    · cases hnone
    · split at hnone <;> cases hnone
  · simp only at hbest ⊢
    split at hbest
    · rename_i hfirst
      cases hbest
      have hempty : s.seen = [] := by rw [h.seen, h.none hfirst, List.map_nil]
      exact .of_above rfl (by simp [hempty])
    · rename_i old hold
      split at hbest
      · rename_i hlt
        cases hbest
        exact .of_above rfl fun b hb d hd => ((h.best old hold).2 b hb d hd).trans hlt.le
      · rename_i hge
        cases hbest
        exact (h.best _ hold).concat rfl (not_lt.mp hge)

theorem Pass.Seen.foldlM (rest : List Answer) {s : Pass} {answers : List Answer}
    (h : s.Seen answers) (hcw : ∀ a ∈ rest, ∃ c, a.cw = some c) :
    ∃ s', rest.foldlM swrrVisit s = some s' ∧ s'.Seen (answers ++ rest) := by
  induction rest generalizing s answers with
  | nil => exact ⟨s, rfl, by simpa using h⟩
  | cons answer rest ih =>
    obtain ⟨c, hc⟩ := hcw answer List.mem_cons_self
    obtain ⟨s₁, hvisit, hseen⟩ := h.visit hc
    obtain ⟨s₂, hrest, hend⟩ := ih hseen fun a ha => hcw a (List.mem_cons_of_mem _ ha)
    refine ⟨s₂, ?_, by simpa using hend⟩
    rw [List.foldlM_cons, hvisit]
    exact hrest

/-- **What `swrr_next` does**: it raises every counter by its weight and
takes the sum of the weights off a largest one. -/
theorem swrrNext_eq {answers : List Answer} (hne : answers ≠ [])
    (hcw : ∀ a ∈ answers, ∃ c, a.cw = some c) :
    ∃ best, Pass.Best (answers.map Answer.raised) best
      ∧ swrrNext answers = some (best.1, (answers.map Answer.raised).modify best.1 fun a =>
          { a with cw := some (best.2 - (answers.map fun a => a.effectiveWeight).sum) }) := by
  have hstart : Pass.Seen {} [] := ⟨rfl, rfl, fun _ => rfl, fun best hbest => by cases hbest⟩
  obtain ⟨s, hfold, hseen⟩ := hstart.foldlM answers hcw
  rw [List.nil_append] at hseen
  cases hbest : s.best with
  | none => exact absurd (hseen.none hbest) hne
  | some best =>
    have hmax := hseen.best best hbest
    rw [hseen.seen] at hmax
    refine ⟨best, hmax, ?_⟩
    rw [swrrNext, hfold, Option.bind_some, hbest, Option.map_some, hseen.seen, hseen.total]

/-! ## The counters of the gathered list -/

/-- The gathered list with its counters. -/
def withCounters (l : List Srv) (c : Fin l.length → ℚ) : List Answer :=
  List.ofFn fun i => { toSrv := l.get i, cw := some (c i) }

/-- The weights by place. -/
def weightAt (l : List Srv) (i : Fin l.length) : ℕ := (l.get i).weight

theorem effectiveWeight_eq {a : Srv} (h : 0 < a.weight) : a.effectiveWeight = a.weight :=
  if_neg (by omega)

section

variable {l : List Srv}

theorem sum_effectiveWeight (hweight : ∀ a ∈ l, 0 < a.weight) (c : Fin l.length → ℚ) :
    ((withCounters l c).map fun a => a.effectiveWeight).sum = (total (weightAt l) : ℚ) := by
  rw [withCounters, List.map_ofFn, List.sum_ofFn, total, Nat.cast_sum]
  apply Finset.sum_congr rfl
  intro i _
  exact effectiveWeight_eq (hweight _ (List.get_mem l i))

theorem map_raised_withCounters (hweight : ∀ a ∈ l, 0 < a.weight) (c : Fin l.length → ℚ) :
    (withCounters l c).map Answer.raised = withCounters l fun i => c i + weightAt l i := by
  rw [withCounters, List.map_ofFn, withCounters]
  congr 1
  funext i
  have heff := effectiveWeight_eq (hweight _ (List.get_mem l i))
  simp only [Function.comp_apply, Answer.raised, Option.map_some, heff, weightAt]

theorem swrrNext_withCounters (hne : l ≠ []) (hweight : ∀ a ∈ l, 0 < a.weight)
    (c : Fin l.length → ℚ) :
    ∃ p : Fin l.length, (∀ i, c i + weightAt l i ≤ c p + weightAt l p)
      ∧ swrrNext (withCounters l c) = some (p.val, withCounters l fun i =>
          c i + weightAt l i - if i = p then (total (weightAt l) : ℚ) else 0) := by
  have hlist : withCounters l c ≠ [] := by
    intro h
    have hlen := congrArg List.length h
    rw [withCounters, List.length_ofFn] at hlen
    exact hne (List.eq_nil_of_length_eq_zero hlen)
  have hcw : ∀ a ∈ withCounters l c, ∃ d, a.cw = some d := by
    intro a ha
    obtain ⟨i, rfl⟩ := List.mem_ofFn.mp ha
    exact ⟨c i, rfl⟩
  obtain ⟨best, ⟨⟨a, hat, hacw⟩, hmax⟩, hnext⟩ := swrrNext_eq hlist hcw
  rw [map_raised_withCounters hweight] at hat hmax hnext
  rw [sum_effectiveWeight hweight] at hnext
  have hlt : best.1 < l.length := by
    have hlt := (List.getElem?_eq_some_iff.mp hat).1
    rwa [withCounters, List.length_ofFn] at hlt
  have hbest : best.2 = c ⟨best.1, hlt⟩ + weightAt l ⟨best.1, hlt⟩ := by
    rw [withCounters, List.getElem?_ofFn, dif_pos hlt] at hat
    cases hat
    exact (Option.some.inj hacw).symm
  refine ⟨⟨best.1, hlt⟩, fun i => ?_, ?_⟩
  · rw [← hbest]
    exact hmax _ (List.mem_ofFn.mpr ⟨i, rfl⟩) _ rfl
  · rw [hnext]
    congr 2
    apply List.ext_getElem
    · simp [withCounters]
    · intro i hi hi'
      rw [List.getElem_modify]
      simp only [withCounters, List.getElem_ofFn]
      by_cases hi : best.1 = i
      · subst hi
        simp [hbest]
      · have hi' : ¬ i = best.1 := Ne.symm hi
        simp [hi, hi']

/-! ## Consecutive calls -/

/-- `pick` is what `swrr_next` returns by the counters. -/
def Picks (l : List Srv) (pick : (Fin l.length → ℚ) → Fin l.length) : Prop :=
  ∀ c, swrrNext (withCounters l c) = some ((pick c).val, withCounters l fun i =>
    c i + weightAt l i - if i = pick c then (total (weightAt l) : ℚ) else 0)

variable {pick : (Fin l.length → ℚ) → Fin l.length}

theorem Picks.next (hpick : Picks l pick) (t : Nat) :
    swrrNext (withCounters l (counters (weightAt l) pick t))
      = some ((pick (counters (weightAt l) pick t)).val,
          withCounters l (counters (weightAt l) pick (t + 1))) :=
  hpick _

theorem Picks.steps (hpick : Picks l pick) (n t : Nat) :
    swrrSteps n (withCounters l (counters (weightAt l) pick t))
      = some (withCounters l (counters (weightAt l) pick (t + n))) := by
  induction n generalizing t with
  | zero => rfl
  | succ n ih =>
    rw [swrrSteps, hpick.next, Option.bind_some, ih, Nat.add_right_comm, Nat.add_assoc]

theorem Picks.init (hpick : Picks l pick) (mathRandom : Nat → Nat) :
    swrrInit mathRandom (l.map fun r => { toSrv := r })
      = some (withCounters l (counters (weightAt l) pick (mathRandom l.length))) := by
  have hzero : ((l.map fun r => ({ toSrv := r } : Answer)).map fun answer =>
        { answer with cw := some 0 }) = withCounters l (counters (weightAt l) pick 0) := by
    apply List.ext_getElem
    · simp [withCounters]
    · intro i hi hi'
      simp [withCounters, counters]
  rw [swrrInit, hzero, List.length_map, hpick.steps, Nat.zero_add]

end

section

variable {records : List Srv} {mathRandom : Nat → Nat}
  {pick : (Fin (lowest records).length → ℚ) → Fin (lowest records).length}

/-- The counters when a number of calls have been made. -/
def countersAfter (records : List Srv) (mathRandom : Nat → Nat)
    (pick : (Fin (lowest records).length → ℚ) → Fin (lowest records).length) (calls : Nat) :
    Fin (lowest records).length → ℚ :=
  counters (weightAt (lowest records)) pick (mathRandom (lowest records).length + calls)

/-- The answer list when a number of calls have been made. -/
def answersAfter (records : List Srv) (mathRandom : Nat → Nat)
    (pick : (Fin (lowest records).length → ℚ) → Fin (lowest records).length) : Nat → Answers
  | 0 => .received records
  | m + 1 =>
    { Answers.received records with
      lowestPrioRecords :=
        some (withCounters (lowest records) (countersAfter records mathRandom pick (m + 1))) }

theorem getNext_first {answers : Answers} {l l' : List Answer} {first : Answer}
    {next : Nat × List Answer} (hnone : answers.lowestPrioRecords = none)
    (hfilter : filterLowestPriorityAnswers answers.records = some l)
    (hhead : l.head? = some first) (hcw : first.cw = none)
    (hinit : swrrInit mathRandom l = some l') (hnext : swrrNext l' = some next) :
    getNextWeightedRoundRobinAnswer mathRandom answers
      = some (next.1, { answers with lowestPrioRecords := some next.2 }) := by
  simp [getNextWeightedRoundRobinAnswer, hnone, hfilter, hhead, hcw, hinit, hnext]

theorem getNext_later {answers : Answers} {l : List Answer} {first : Answer} {cw : ℚ}
    {next : Nat × List Answer} (hsome : answers.lowestPrioRecords = some l)
    (hhead : l.head? = some first) (hcw : first.cw = some cw) (hnext : swrrNext l = some next) :
    getNextWeightedRoundRobinAnswer mathRandom answers
      = some (next.1, { answers with lowestPrioRecords := some next.2 }) := by
  simp [getNextWeightedRoundRobinAnswer, hsome, hhead, hcw, hnext]

theorem head?_withCounters {l : List Srv} (hne : l ≠ []) (c : Fin l.length → ℚ) :
    ∃ first cw, (withCounters l c).head? = some first ∧ first.cw = some cw := by
  have hpos : 0 < l.length := List.length_pos_of_ne_nil hne
  refine ⟨{ toSrv := l.get ⟨0, hpos⟩, cw := some (c ⟨0, hpos⟩) }, _, ?_, rfl⟩
  rw [withCounters, List.head?_eq_getElem?, List.getElem?_ofFn, dif_pos hpos]

theorem getNext_answersAfter (hne : records ≠ []) (hpick : Picks (lowest records) pick) (m : Nat) :
    getNextWeightedRoundRobinAnswer mathRandom (answersAfter records mathRandom pick m)
      = some ((pick (countersAfter records mathRandom pick m)).val,
          answersAfter records mathRandom pick (m + 1)) := by
  cases m with
  | zero =>
    -- the first call gathers the list and makes the random start
    obtain ⟨first, rest, hlowest⟩ := List.exists_cons_of_ne_nil (lowest_ne_nil hne)
    have hhead : ((lowest records).map fun r => ({ toSrv := r } : Answer)).head?
        = some { toSrv := first } := by
      rw [hlowest]
      rfl
    exact getNext_first rfl (filterLowestPriorityAnswers_received hne) hhead rfl
      (hpick.init mathRandom) (hpick.next _)
  | succ m =>
    obtain ⟨first, cw, hhead, hcw⟩ := head?_withCounters (lowest_ne_nil hne)
      (countersAfter records mathRandom pick (m + 1))
    exact getNext_later rfl hhead hcw (hpick.next _)

theorem calls_answersAfter (hne : records ≠ []) (hpick : Picks (lowest records) pick) (n m : Nat) :
    calls mathRandom n (answersAfter records mathRandom pick m)
      = some ((List.range n).map fun k => (pick (countersAfter records mathRandom pick (m + k))).val,
          answersAfter records mathRandom pick (m + n)) := by
  induction n generalizing m with
  | zero => rfl
  | succ n ih =>
    rw [calls, getNext_answersAfter hne hpick, Option.bind_some, ih, Option.map_some,
      List.range_succ_eq_map, List.map_cons, List.map_map]
    have hshift : ∀ k, m + 1 + k = m + (k + 1) := fun k => by omega
    simp [Function.comp_def, hshift]

/-- The sum of the weights of the lowest priority. -/
def weightTotal (records : List Srv) : Nat := ((lowest records).map Srv.weight).sum

theorem total_weightAt (records : List Srv) : total (weightAt (lowest records)) = weightTotal records := by
  have hmap : (lowest records).map Srv.weight = List.ofFn (weightAt (lowest records)) := by
    apply List.ext_getElem
    · simp
    · intro i hi hi'
      simp [weightAt]
  rw [weightTotal, hmap, List.sum_ofFn, total]

theorem weightTotal_pos (hne : records ≠ []) (hweight : ∀ r ∈ records, 0 < r.weight) :
    0 < weightTotal records := by
  obtain ⟨first, rest, hlowest⟩ := List.exists_cons_of_ne_nil (lowest_ne_nil hne)
  have hmem : first ∈ lowest records := by simp [hlowest]
  have hfirst := hweight first (List.mem_filter.mp hmem).1
  rw [weightTotal, hlowest, List.map_cons, List.sum_cons]
  omega

/-- **The selection is exactly weighted.** In any window of as many calls
as the weights of the lowest priority sum to, each record of the lowest
priority is returned as often as its weight; and after every call the
counters of these records sum to zero and are above the negated sum of
the weights. -/
theorem getNext_window (mathRandom : Nat → Nat) (records : List Srv) (hne : records ≠ [])
    (hweight : ∀ r ∈ records, 0 < r.weight) (before : Nat) :
    (∃ earlier middle picks last,
      calls mathRandom before (.received records) = some (earlier, middle)
        ∧ calls mathRandom (weightTotal records) middle = some (picks, last)
        ∧ (∀ p ∈ picks, p < (lowest records).length)
        ∧ ∀ (p : Nat) (hp : p < (lowest records).length),
            picks.count p = ((lowest records)[p]).weight)
    ∧ ∃ picks last l, calls mathRandom (before + 1) (.received records) = some (picks, last)
        ∧ last.lowestPrioRecords = some l ∧ l.map Answer.toSrv = lowest records
        ∧ ∃ cws : List ℚ, l.map Answer.cw = cws.map some ∧ cws.sum = 0
            ∧ ∀ cw ∈ cws, -(weightTotal records : ℚ) < cw := by
  have hlowest := lowest_ne_nil hne
  have hpositive : ∀ r ∈ lowest records, 0 < r.weight :=
    fun r hr => hweight r (List.mem_filter.mp hr).1
  choose pick hgreedy hpick using swrrNext_withCounters hlowest hpositive
  have hcalls := @calls_answersAfter records mathRandom pick hne hpick
  let trace := Trace.ofPick (weightAt (lowest records)) pick hgreedy
  have hpos : 0 < total (weightAt (lowest records)) := by
    rw [total_weightAt]
    exact weightTotal_pos hne hweight
  constructor
  · refine ⟨_, _, _, _, hcalls before 0, hcalls _ _, fun p hp => ?_, fun p hp => ?_⟩
    · obtain ⟨k, _, rfl⟩ := List.mem_map.mp hp
      exact Fin.isLt _
    · have hwindow := trace.count_window hpos
        (mathRandom (lowest records).length + (0 + before)) ⟨p, hp⟩
      have hval : ((List.range (weightTotal records)).map fun k =>
            (pick (countersAfter records mathRandom pick (0 + before + k))).val)
          = ((List.range (total (weightAt (lowest records)))).map fun k =>
              trace.pick (mathRandom (lowest records).length + (0 + before) + k)).map Fin.val := by
        rw [total_weightAt, List.map_map]
        apply List.map_congr_left
        intro k _
        rw [countersAfter, ← Nat.add_assoc]
        rfl
      rw [hval]
      exact (List.count_map_of_injective _ Fin.val Fin.val_injective ⟨p, hp⟩).trans hwindow
  · have hsum := trace.sum_counter (mathRandom (lowest records).length + (0 + before + 1))
    have hlow := trace.neg_total_lt hpos (mathRandom (lowest records).length + (0 + before + 1))
    rw [total_weightAt] at hlow
    refine ⟨_, _, withCounters (lowest records)
      (countersAfter records mathRandom pick (0 + before + 1)), hcalls (before + 1) 0, rfl, ?_,
      List.ofFn (countersAfter records mathRandom pick (0 + before + 1)), ?_, ?_, fun cw hcw => ?_⟩
    · rw [withCounters, List.map_ofFn]
      exact List.ofFn_get (lowest records)
    · rw [withCounters, List.map_ofFn, List.map_ofFn]
      rfl
    · rw [List.sum_ofFn]
      exact hsum
    · obtain ⟨i, rfl⟩ := List.mem_ofFn.mp hcw
      exact hlow i

/-- Three records of weights 2, 1 and 5, the last one of a higher
priority value. -/
theorem getNext_window_two_one :
    (∃ earlier middle picks last,
      calls (fun _ => 2) 4 (.received [⟨1, 2⟩, ⟨1, 1⟩, ⟨2, 5⟩]) = some (earlier, middle)
        ∧ calls (fun _ => 2) (weightTotal [⟨1, 2⟩, ⟨1, 1⟩, ⟨2, 5⟩]) middle = some (picks, last)
        ∧ (∀ p ∈ picks, p < (lowest [⟨1, 2⟩, ⟨1, 1⟩, ⟨2, 5⟩]).length)
        ∧ ∀ (p : Nat) (hp : p < (lowest [⟨1, 2⟩, ⟨1, 1⟩, ⟨2, 5⟩]).length),
            picks.count p = ((lowest [⟨1, 2⟩, ⟨1, 1⟩, ⟨2, 5⟩])[p]).weight)
    ∧ ∃ picks last l,
        calls (fun _ => 2) (4 + 1) (.received [⟨1, 2⟩, ⟨1, 1⟩, ⟨2, 5⟩]) = some (picks, last)
        ∧ last.lowestPrioRecords = some l
        ∧ l.map Answer.toSrv = lowest [⟨1, 2⟩, ⟨1, 1⟩, ⟨2, 5⟩]
        ∧ ∃ cws : List ℚ, l.map Answer.cw = cws.map some ∧ cws.sum = 0
            ∧ ∀ cw ∈ cws, -(weightTotal [⟨1, 2⟩, ⟨1, 1⟩, ⟨2, 5⟩] : ℚ) < cw :=
  getNext_window (fun _ => 2) [⟨1, 2⟩, ⟨1, 1⟩, ⟨2, 5⟩] (by decide) (by decide) 4

end

end KongGateway.Kong.Dns

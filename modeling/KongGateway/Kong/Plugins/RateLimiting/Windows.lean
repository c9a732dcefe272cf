import KongGateway.Kong.Plugins.RateLimiting
import KongGateway.Lib.Run

/-!
# Windows — the limits of calendar windows

Requests are handled one after the other with the local policy. A counter
is right as long as it has not disappeared before its window ends, which
months of 31 days and leap years allow.
-/

namespace KongGateway.Kong.Plugins.RateLimiting

open Calendar Tools.Timestamp

variable (luatz : Luatz) (conf : Conf) (limits : Limits)

/-- The counters, and the requests that have been let through. -/
structure State where
  shm : Shm := fun _ => none
  passed : List Request := []

def step (s : State) (request : Request) : State :=
  let result := access luatz conf limits s.shm request
  ⟨result.2, if result.1 then s.passed ++ [request] else s.passed⟩

/-- The state after the requests have been handled. -/
def handled (requests : List Request) : State := Run.exec (step luatz conf limits) {} requests

/-- The UTC window of a time in seconds. -/
def window (period : Period) (t : Nat) : DateTime := floor period (DateTime.ofSeconds t)

/-- A request of an identifier in the window of a time. -/
def inWindow (period : Period) (identifier : Text) (t : Nat) (request : Request) : Bool :=
  request.identifier = identifier ∧ window period (request.now / 1000) = window period t

/-- In every window no more requests are let through than its limit says. -/
def Honoured (requests : List Request) : Prop :=
  ∀ period limit, limits period = some limit → ∀ identifier t,
    (((handled luatz conf limits requests).passed.filter
      (inWindow period identifier t)).length : ℚ) ≤ limit

/-- Requests are counted before the next one arrives, and the clock is past
the values that are taken for seconds. -/
structure Clocked (requests : List Request) : Prop where
  times : ∀ request ∈ requests,
    msCheck luatz < request.currentTimestamp ∧ request.now ≤ request.counted
  order : requests.Pairwise fun request next => request.counted ≤ next.now

/-- No request of a window arrives when the counter that an earlier one has
created is gone. -/
def InTime (period : Period) (identifier : Text) (t : Nat) (requests : List Request) : Prop :=
  (requests.filter (inWindow period identifier t)).Pairwise fun request next =>
    next.now < request.counted + expiration period * 1000

/-- In every window there are no more requests than its limit says, or the
limit is a whole number and the requests are in time. -/
def Kept (period : Period) (limit : ℚ) (requests : List Request) : Prop :=
  ∀ identifier t,
    ((requests.filter (inWindow period identifier t)).length : ℚ) ≤ limit
      ∨ (∃ n : Nat, limit = n) ∧ InTime period identifier t requests

/-! ## Counters and the requests they count -/

variable {luatz conf limits}

theorem handled_append (requests : List Request) (request : Request) :
    handled luatz conf limits (requests ++ [request])
      = step luatz conf limits (handled luatz conf limits requests) request := by
  unfold handled
  rw [Run.exec_append]
  rfl

/-- The key of a window. -/
def windowKey (conf : Conf) (period : Period) (identifier : Text) (t : Nat) : Text :=
  getLocalKey conf identifier period ((window period t).toSeconds * 1000)

theorem currentTimestamp_div (request : Request) :
    request.currentTimestamp / 1000 = request.now / 1000 :=
  Nat.mul_div_cancel _ (by decide)

theorem date_eq {request : Request} (h : msCheck luatz < request.currentTimestamp)
    (period : Period) :
    getTimestamps luatz request.currentTimestamp period
      = (window period (request.now / 1000)).toSeconds * 1000 := by
  rw [getTimestamps_eq h, currentTimestamp_div]
  rfl

theorem window_toSeconds_inj {period : Period} {t t' : Nat}
    (h : (window period t).toSeconds * 1000 = (window period t').toSeconds * 1000) :
    window period t = window period t' :=
  DateTime.toSeconds_injective (floor_valid (DateTime.ofSeconds_spec t).1 period)
    (floor_valid (DateTime.ofSeconds_spec t').1 period) (by omega)

/-- What the counter of a window knows of the requests it has counted, the
first of which is `first`. -/
structure Counts (ttl : Nat) (first : Request) (counted : List Request) (counter : Counter) :
    Prop where
  le : counter.value ≤ counted.length
  expires : counter.value = counted.length → counter.expires = first.counted + ttl
  all : (∀ request ∈ counted, request.counted < first.counted + ttl) →
    counter.value = counted.length

/-- The counter of a window after the requests of the window that have been
let through. -/
def CounterOf (ttl : Nat) : List Request → Option Counter → Prop
  | [], counter => counter = none
  | first :: rest, counter => ∃ c, counter = some c ∧ Counts ttl first (first :: rest) c

theorem counterOf_bump {ttl : Nat} {counted : List Request} {counter : Option Counter}
    (h : CounterOf (ttl * 1000) counted counter) (request : Request) :
    CounterOf (ttl * 1000) (counted ++ [request])
      (some (Shm.bump request.counted 1 0 ttl counter)) := by
  cases counted with
  | nil =>
    rw [show counter = none from h]
    exact ⟨_, rfl, Nat.le_refl 1, fun _ => rfl, fun _ => rfl⟩
  | cons first rest =>
    obtain ⟨c, rfl, hc⟩ := h
    refine ⟨_, rfl, ?_⟩
    change Counts _ _ ((first :: rest) ++ [request]) _
    unfold Shm.bump
    simp only
    split
    · refine ⟨?_, fun hall => ?_, fun hall => ?_⟩
      · rw [List.length_append]
        exact Nat.succ_le_succ hc.le
      · rw [List.length_append] at hall
        exact hc.expires (Nat.succ.inj hall)
      · rw [List.length_append]
        refine congrArg (· + 1) (hc.all fun other hother => hall other ?_)
        exact List.mem_append_left _ hother
    · rename_i hgone
      refine ⟨?_, fun hall => ?_, fun hall => ?_⟩
      · simp
      · simp at hall
      · have hvalue := hc.all fun other hother => hall other (List.mem_append_left _ hother)
        have hlast := hall request (by simp)
        rw [hc.expires hvalue] at hgone
        exact absurd hlast hgone

/-- Whether the handler lets a request through in a state. -/
def Passes (luatz : Luatz) (conf : Conf) (limits : Limits) (s : State) (request : Request) : Prop :=
  ∀ period limit, limits period = some limit →
    (localUsage luatz conf request.identifier period request.currentTimestamp request.now s.shm : ℚ)
      < limit

theorem step_of_passes {s : State} {request : Request} (h : Passes luatz conf limits s request) :
    step luatz conf limits s request
      = ⟨localIncrement luatz conf limits request.identifier request.currentTimestamp 1
          request.counted s.shm, s.passed ++ [request]⟩ := by
  have hstop := getUsage_stop_eq_none_iff.mpr h
  unfold step access
  simp only [hstop, if_true]

theorem step_of_not_passes {s : State} {request : Request}
    (h : ¬ Passes luatz conf limits s request) : step luatz conf limits s request = s := by
  unfold Passes at h
  rw [← getUsage_stop_eq_none_iff] at h
  obtain ⟨period, hstop⟩ := Option.ne_none_iff_exists'.mp h
  unfold step access
  simp only [hstop, Bool.false_eq_true, if_false]

theorem counterOf_step {period : Period} (hlimited : (limits period).isSome) {identifier : Text}
    {t : Nat} {s : State} {request : Request} (htime : msCheck luatz < request.currentTimestamp)
    (h : CounterOf (expiration period * 1000) (s.passed.filter (inWindow period identifier t))
      (s.shm (windowKey conf period identifier t))) :
    CounterOf (expiration period * 1000)
      ((step luatz conf limits s request).passed.filter (inWindow period identifier t))
      ((step luatz conf limits s request).shm (windowKey conf period identifier t)) := by
  by_cases hpasses : Passes luatz conf limits s request
  · rw [step_of_passes hpasses]
    simp only [List.filter_append, List.filter_cons, List.filter_nil, windowKey,
      localIncrement_key, date_eq htime, hlimited, true_and]
    by_cases hin : inWindow period identifier t request
    · have hin' := hin
      simp only [inWindow, decide_eq_true_eq] at hin'
      rw [if_pos hin, if_pos ⟨hin'.1.symm, by rw [hin'.2]⟩]
      exact counterOf_bump h request
    · have hout : ¬ (identifier = request.identifier
          ∧ (window period t).toSeconds * 1000
            = (window period (request.now / 1000)).toSeconds * 1000) := by
        rintro ⟨rfl, hdate⟩
        exact hin (by simp [inWindow, window_toSeconds_inj hdate])
      rw [if_neg hin, if_neg hout, List.append_nil]
      exact h
  · rw [step_of_not_passes hpasses]
    exact h

theorem counterOf_handled {period : Period} (hlimited : (limits period).isSome)
    (identifier : Text) (t : Nat) {requests : List Request}
    (h : ∀ request ∈ requests, msCheck luatz < request.currentTimestamp) :
    CounterOf (expiration period * 1000)
      ((handled luatz conf limits requests).passed.filter (inWindow period identifier t))
      ((handled luatz conf limits requests).shm (windowKey conf period identifier t)) := by
  induction requests using List.reverseRecOn with
  | nil => rfl
  | append_singleton requests request ih =>
    rw [handled_append]
    exact counterOf_step hlimited (h request (by simp))
      (ih fun other hother => h other (List.mem_append_left _ hother))

/-! ## What a request finds -/

section Usage

variable {period : Period} {s : State} {request : Request}

/-- The usage of a limited period that a request finds, in terms of the
requests of its window that have been let through. -/
theorem usage_spec (htime : msCheck luatz < request.currentTimestamp) {counted : List Request}
    (h : CounterOf (expiration period * 1000) counted
      (s.shm (windowKey conf period request.identifier (request.now / 1000)))) :
    localUsage luatz conf request.identifier period request.currentTimestamp request.now s.shm
        ≤ counted.length
      ∧ ∀ first rest, counted = first :: rest →
        (localUsage luatz conf request.identifier period request.currentTimestamp request.now s.shm
            = counted.length →
          request.now < first.counted + expiration period * 1000)
        ∧ ((∀ other ∈ counted, other.counted ≤ request.now) →
          request.now < first.counted + expiration period * 1000 →
          localUsage luatz conf request.identifier period request.currentTimestamp request.now s.shm
            = counted.length) := by
  have husage : localUsage luatz conf request.identifier period request.currentTimestamp
      request.now s.shm
      = (s.shm.get request.now
          (windowKey conf period request.identifier (request.now / 1000))).getD 0 := by
    simp only [localUsage, date_eq htime, windowKey]
  rw [husage, Shm.get]
  cases counted with
  | nil =>
    rw [show s.shm _ = none from h]
    exact ⟨Nat.le_refl 0, fun _ _ hnil => (nomatch hnil)⟩
  | cons head tail =>
    obtain ⟨c, hshm, hc⟩ := h
    rw [hshm]
    simp only
    split
    · rename_i halive
      refine ⟨hc.le, ?_⟩
      rintro first rest ⟨rfl, rfl⟩
      constructor
      · intro hvalue
        rw [← hc.expires hvalue]
        exact halive
      · intro hbefore hnow
        exact hc.all fun other hother => Nat.lt_of_le_of_lt (hbefore other hother) hnow
    · rename_i hgone
      refine ⟨Nat.zero_le _, ?_⟩
      rintro first rest ⟨rfl, rfl⟩
      constructor
      · intro hvalue
        simp at hvalue
      · intro hbefore hnow
        have hvalue := hc.all fun other hother => Nat.lt_of_le_of_lt (hbefore other hother) hnow
        rw [hc.expires hvalue] at hgone
        exact absurd hnow hgone

end Usage

theorem passed_append (requests more : List Request) :
    (handled luatz conf limits requests).passed
      <+: (handled luatz conf limits (requests ++ more)).passed := by
  induction more using List.reverseRecOn with
  | nil => simp
  | append_singleton more request ih =>
    rw [← List.append_assoc, handled_append]
    refine ih.trans ?_
    by_cases hpasses : Passes luatz conf limits
        (handled luatz conf limits (requests ++ more)) request
    · rw [step_of_passes hpasses]
      exact List.prefix_append _ _
    · rw [step_of_not_passes hpasses]

theorem passed_sublist (requests : List Request) :
    (handled luatz conf limits requests).passed.Sublist requests := by
  induction requests using List.reverseRecOn with
  | nil => exact List.Sublist.refl _
  | append_singleton requests request ih =>
    rw [handled_append]
    by_cases hpasses : Passes luatz conf limits (handled luatz conf limits requests) request
    · rw [step_of_passes hpasses]
      exact ih.append (List.Sublist.refl _)
    · rw [step_of_not_passes hpasses]
      exact ih.trans (List.sublist_append_left _ _)

/-! ## A request of a run -/

/-- The requests of a window that have been let through. -/
def passedIn (luatz : Luatz) (conf : Conf) (limits : Limits) (period : Period) (identifier : Text)
    (t : Nat) (requests : List Request) : List Request :=
  (handled luatz conf limits requests).passed.filter (inWindow period identifier t)

section Run

variable {period : Period} {limit : ℚ} {identifier : Text} {t : Nat} {pre post : List Request}
  {request : Request}

theorem passedIn_append :
    passedIn luatz conf limits period identifier t pre
      <+: passedIn luatz conf limits period identifier t (pre ++ post) := by
  obtain ⟨more, hmore⟩ := @passed_append luatz conf limits pre post
  unfold passedIn
  rw [← hmore, List.filter_append]
  exact List.prefix_append _ _

theorem passedIn_sublist :
    (passedIn luatz conf limits period identifier t pre).Sublist
      (pre.filter (inWindow period identifier t)) :=
  (passed_sublist pre).filter _

theorem mem_of_mem_passedIn (h : request ∈ passedIn luatz conf limits period identifier t pre) :
    request ∈ pre :=
  List.mem_of_mem_filter (passedIn_sublist.subset h)

theorem passedIn_append_singleton (hin : inWindow period identifier t request)
    (hpasses : Passes luatz conf limits (handled luatz conf limits pre) request) :
    passedIn luatz conf limits period identifier t (pre ++ [request])
      = passedIn luatz conf limits period identifier t pre ++ [request] := by
  unfold passedIn
  rw [handled_append, step_of_passes hpasses, List.filter_append, List.filter_cons, if_pos hin,
    List.filter_nil]

theorem usage_of_run (hclock : Clocked luatz (pre ++ request :: post))
    (hlimited : (limits period).isSome) (hin : inWindow period identifier t request) :
    let usage := localUsage luatz conf request.identifier period request.currentTimestamp
      request.now (handled luatz conf limits pre).shm
    let counted := passedIn luatz conf limits period identifier t pre
    usage ≤ counted.length
      ∧ ∀ first rest, counted = first :: rest →
        (usage = counted.length → request.now < first.counted + expiration period * 1000)
        ∧ (request.now < first.counted + expiration period * 1000 → usage = counted.length) := by
  intro usage counted
  have htimes := hclock.times
  simp only [inWindow, decide_eq_true_eq] at hin
  have hcounter := @counterOf_handled luatz conf limits period hlimited identifier t pre
    fun other hother => (htimes other (List.mem_append_left _ hother)).1
  rw [show windowKey conf period identifier t
      = windowKey conf period request.identifier (request.now / 1000) by
    rw [windowKey, windowKey, hin.1, hin.2]] at hcounter
  obtain ⟨hle, hfirst⟩ := usage_spec (htimes request (by simp)).1 hcounter
  refine ⟨hle, fun first rest heq => ?_⟩
  obtain ⟨hback, hall⟩ := hfirst first rest heq
  refine ⟨hback, hall fun other hother => ?_⟩
  exact (List.pairwise_append.mp hclock.order).2.2 other (mem_of_mem_passedIn hother) request
    List.mem_cons_self

end Run

/-! ## Limits that are kept -/

section Limits

variable {period : Period} {limit : ℚ} {identifier : Text} {t : Nat} {requests : List Request}

theorem length_passedIn_le (hclock : Clocked luatz requests) (hlimit : limits period = some limit)
    {n : Nat} (hn : limit = n) (hintime : InTime period identifier t requests) :
    ∀ pre, pre <+: requests →
      (passedIn luatz conf limits period identifier t pre).length ≤ n := by
  have hlimited : (limits period).isSome := by
    rw [hlimit]
    rfl
  intro pre
  induction pre using List.reverseRecOn with
  | nil => exact fun _ => Nat.zero_le n
  | append_singleton pre request ih =>
    intro hpre
    obtain ⟨post, rfl⟩ := hpre
    have hlength := ih ⟨request :: post, by simp⟩
    have hclock' : Clocked luatz (pre ++ request :: post) := by simpa using hclock
    by_cases hpasses : Passes luatz conf limits (handled luatz conf limits pre) request
    · by_cases hin : inWindow period identifier t request
      · rw [passedIn_append_singleton hin hpasses, List.length_append, List.length_singleton]
        have hlt := hpasses period limit hlimit
        rw [hn, Nat.cast_lt] at hlt
        obtain ⟨-, hfirst⟩ := @usage_of_run luatz conf limits period identifier t pre post request
          hclock' hlimited hin
        cases hcounted : passedIn luatz conf limits period identifier t pre with
        | nil => exact Nat.lt_of_le_of_lt (Nat.zero_le _) hlt
        | cons first rest =>
          have hmem : first ∈ pre.filter (inWindow period identifier t) :=
            passedIn_sublist.subset (by rw [hcounted]; exact List.mem_cons_self)
          have hnow : request.now < first.counted + expiration period * 1000 := by
            unfold InTime at hintime
            rw [List.filter_append, List.filter_append, List.filter_cons, if_pos hin]
              at hintime
            exact (List.pairwise_append.mp (List.pairwise_append.mp hintime).1).2.2 first hmem
              request List.mem_cons_self
          have husage := (hfirst first rest hcounted).2 hnow
          rw [← hcounted, ← husage]
          exact hlt
      · unfold passedIn at hlength ⊢
        rw [handled_append, step_of_passes hpasses, List.filter_append, List.filter_cons,
          if_neg hin, List.filter_nil, List.append_nil]
        exact hlength
    · unfold passedIn at hlength ⊢
      rw [handled_append, step_of_not_passes hpasses]
      exact hlength

theorem honoured_of_kept (hclock : Clocked luatz requests)
    (h : ∀ period limit, limits period = some limit → Kept period limit requests) :
    Honoured luatz conf limits requests := by
  intro period limit hlimit identifier t
  rcases h period limit hlimit identifier t with hfew | ⟨⟨n, hn⟩, hintime⟩
  · have hle : (passedIn luatz conf limits period identifier t requests).length
        ≤ (requests.filter (inWindow period identifier t)).length := passedIn_sublist.length_le
    exact (Nat.cast_le.mpr hle).trans hfew
  · rw [hn, Nat.cast_le]
    exact length_passedIn_le hclock hlimit hn hintime requests (List.prefix_refl requests)

theorem inTime_of_windowLength_le (hclock : Clocked luatz requests)
    (h : windowLength period (window period t) ≤ expiration period) :
    InTime period identifier t requests := by
  refine List.pairwise_of_forall_mem_list fun request hrequest next hnext => ?_
  obtain ⟨hmem, hin⟩ := List.mem_filter.mp hrequest
  obtain ⟨-, hin'⟩ := List.mem_filter.mp hnext
  simp only [inWindow, decide_eq_true_eq] at hin hin'
  obtain ⟨hvalid, hseconds⟩ := DateTime.ofSeconds_spec (request.now / 1000)
  obtain ⟨hvalid', hseconds'⟩ := DateTime.ofSeconds_spec (next.now / 1000)
  have hstart := (floor_bounds hvalid period).1
  have hend := (floor_bounds hvalid' period).2
  rw [show floor period _ = window period t from hin.2, hseconds] at hstart
  rw [show floor period _ = window period t from hin'.2, hseconds'] at hend
  have hcounted := (hclock.times request hmem).2
  omega

theorem exists_stopped :
    passedIn luatz conf limits period identifier t requests
        = requests.filter (inWindow period identifier t)
      ∨ ∃ pre request post, requests = pre ++ request :: post
        ∧ inWindow period identifier t request = true
        ∧ ¬ Passes luatz conf limits (handled luatz conf limits pre) request := by
  induction requests using List.reverseRecOn with
  | nil => exact .inl rfl
  | append_singleton requests request ih =>
    rcases ih with heq | ⟨pre, stopped, post, rfl, hin, hstopped⟩
    · by_cases hpasses : Passes luatz conf limits (handled luatz conf limits requests) request
      · refine .inl ?_
        unfold passedIn at heq ⊢
        rw [handled_append, step_of_passes hpasses, List.filter_append, List.filter_append, heq]
      · by_cases hin : inWindow period identifier t request
        · exact .inr ⟨requests, request, [], rfl, hin, hpasses⟩
        · refine .inl ?_
          unfold passedIn at heq ⊢
          rw [handled_append, step_of_not_passes hpasses, List.filter_append, heq,
            List.filter_cons, if_neg hin, List.filter_nil, List.append_nil]
    · exact .inr ⟨pre, stopped, post ++ [request], by simp, hin, hstopped⟩

variable (hclock : Clocked luatz requests) (hlimit : limits period = some limit)
  (hpos : 0 < limit) (honly : ∀ other, (limits other).isSome → other = period)
  (hhonoured : ((passedIn luatz conf limits period identifier t requests).length : ℚ) ≤ limit)

include hclock hlimit hpos honly hhonoured

/-- A request that is not let through has found the counter of all requests
that are let through in its window. -/
theorem counter_of_stopped {pre post : List Request} {request : Request}
    (hsplit : requests = pre ++ request :: post)
    (hin : inWindow period identifier t request = true)
    (hstopped : ¬ Passes luatz conf limits (handled luatz conf limits pre) request) :
    limit = ((passedIn luatz conf limits period identifier t requests).length : ℚ)
      ∧ passedIn luatz conf limits period identifier t pre
        = passedIn luatz conf limits period identifier t requests
      ∧ ∃ first rest, passedIn luatz conf limits period identifier t requests = first :: rest
        ∧ request.now < first.counted + expiration period * 1000 := by
  have hlimited : (limits period).isSome := by
    rw [hlimit]
    rfl
  subst hsplit
  obtain ⟨husage, hfirst⟩ := @usage_of_run luatz conf limits period identifier t pre post request
    hclock hlimited hin
  have hle := (@passedIn_append luatz conf limits period identifier t pre
    (request :: post)).length_le
  -- the only limited period is the one that has stopped the request
  have hstop : limit ≤ (localUsage luatz conf request.identifier period request.currentTimestamp
      request.now (handled luatz conf limits pre).shm : ℚ) := by
    unfold Passes at hstopped
    push Not at hstopped
    obtain ⟨other, limit', hother, hge⟩ := hstopped
    obtain rfl := honly other (by rw [hother]; rfl)
    rw [hlimit] at hother
    cases hother
    exact hge
  have hlength := Nat.cast_le (α := ℚ).mpr (Nat.le_trans husage hle)
  have heq : limit
      = ((passedIn luatz conf limits period identifier t (pre ++ request :: post)).length : ℚ) :=
    le_antisymm (hstop.trans hlength) hhonoured
  rw [heq, Nat.cast_le] at hstop
  have hsame : passedIn luatz conf limits period identifier t pre
      = passedIn luatz conf limits period identifier t (pre ++ request :: post) :=
    passedIn_append.eq_of_length (by omega)
  refine ⟨heq, hsame, ?_⟩
  cases hpassed : passedIn luatz conf limits period identifier t (pre ++ request :: post) with
  | nil =>
    rw [hpassed] at heq
    exact absurd hpos (by rw [heq]; simp)
  | cons first rest =>
    refine ⟨first, rest, rfl, (hfirst first rest (hsame.trans hpassed)).1 ?_⟩
    rw [hsame] at husage ⊢
    omega

theorem first_counted_le {first : Request} {rest : List Request}
    (hpassed : passedIn luatz conf limits period identifier t requests = first :: rest)
    {request : Request} (hmem : request ∈ requests)
    (hin : inWindow period identifier t request = true) : first.counted ≤ request.counted := by
  obtain ⟨pre, post, hsplit⟩ := List.append_of_mem hmem
  have hpre : passedIn luatz conf limits period identifier t pre
      <+: passedIn luatz conf limits period identifier t requests := by
    rw [hsplit]
    exact passedIn_append
  cases hcounted : passedIn luatz conf limits period identifier t pre with
  | nil =>
    by_cases hpasses : Passes luatz conf limits (handled luatz conf limits pre) request
    · have hone := passedIn_append_singleton hin hpasses
      have hgrown : passedIn luatz conf limits period identifier t (pre ++ [request])
          <+: passedIn luatz conf limits period identifier t requests := by
        rw [hsplit, show pre ++ request :: post = (pre ++ [request]) ++ post by simp]
        exact passedIn_append
      rw [hone, hcounted, hpassed, List.nil_append, List.cons_prefix_cons] at hgrown
      rw [hgrown.1]
    · have hsame := (counter_of_stopped hclock hlimit hpos honly hhonoured hsplit hin
        hpasses).2.1
      rw [hcounted, hpassed] at hsame
      cases hsame
  | cons head tail =>
    rw [hcounted, hpassed, List.cons_prefix_cons] at hpre
    have hbefore : head ∈ pre := mem_of_mem_passedIn (by rw [hcounted]; exact List.mem_cons_self)
    subst hsplit
    have horder := (List.pairwise_append.mp hclock.order).2.2 head hbefore request
      List.mem_cons_self
    have htimes := (hclock.times request hmem).2
    rw [← hpre.1]
    omega

theorem kept_of_honoured :
    ((requests.filter (inWindow period identifier t)).length : ℚ) ≤ limit
      ∨ (∃ n : Nat, limit = n) ∧ InTime period identifier t requests := by
  rcases @exists_stopped luatz conf limits period identifier t requests with
    heq | ⟨pre, stopped, post, hsplit, hin, hstopped⟩
  · rw [← heq]
    exact .inl hhonoured
  · obtain ⟨heq, hsame, first, rest, hpassed, hnow⟩ :=
      counter_of_stopped hclock hlimit hpos honly hhonoured hsplit hin hstopped
    refine .inr ⟨⟨_, heq⟩, List.pairwise_of_forall_mem_list fun request hrequest next hnext => ?_⟩
    obtain ⟨hmem, hin'⟩ := List.mem_filter.mp hrequest
    obtain ⟨hmem', hin''⟩ := List.mem_filter.mp hnext
    have hle := first_counted_le hclock hlimit hpos honly hhonoured hpassed hmem hin'
    suffices hlt : next.now < first.counted + expiration period * 1000 by omega
    obtain ⟨pre', post', hsplit'⟩ := List.append_of_mem hmem'
    by_cases hpasses : Passes luatz conf limits (handled luatz conf limits pre') next
    · -- it has been let through before the request that was stopped
      have hone := passedIn_append_singleton hin'' hpasses
      have hgrown : passedIn luatz conf limits period identifier t (pre' ++ [next])
          <+: passedIn luatz conf limits period identifier t requests := by
        rw [hsplit', show pre' ++ next :: post' = (pre' ++ [next]) ++ post' by simp]
        exact passedIn_append
      have hbefore : next ∈ pre := by
        refine mem_of_mem_passedIn (?_ : next ∈ passedIn luatz conf limits period identifier t pre)
        rw [hsame]
        exact hgrown.subset (by rw [hone]; simp)
      subst hsplit
      have horder := (List.pairwise_append.mp hclock.order).2.2 next hbefore stopped
        List.mem_cons_self
      have htimes := (hclock.times next hmem').2
      omega
    · obtain ⟨-, -, first', rest', hpassed', hnow'⟩ :=
        counter_of_stopped hclock hlimit hpos honly hhonoured hsplit' hin'' hpasses
      rw [hpassed] at hpassed'
      cases hpassed'
      exact hnow'

end Limits

/-- The limits are honoured if they are kept, and with one limited period
only then. Windows that are no longer than their counters live, so all but
the months of 31 days and the leap years, are in time. -/
theorem windows_honoured (requests : List Request) (hclock : Clocked luatz requests)
    (hpos : ∀ period limit, limits period = some limit → 0 < limit) :
    ((∀ period limit, limits period = some limit → Kept period limit requests) →
      Honoured luatz conf limits requests)
    ∧ ((∀ period other, (limits period).isSome → (limits other).isSome → other = period) →
      Honoured luatz conf limits requests →
      ∀ period limit, limits period = some limit → Kept period limit requests)
    ∧ ∀ period identifier t, windowLength period (window period t) ≤ expiration period →
      InTime period identifier t requests := by
  refine ⟨honoured_of_kept hclock, ?_, fun period identifier t =>
    inTime_of_windowLength_le hclock⟩
  intro honly hhonoured period limit hlimit identifier t
  have hlimited : (limits period).isSome := by
    rw [hlimit]
    rfl
  exact kept_of_honoured hclock hlimit (hpos period limit hlimit)
    (fun other hother => honly period other hlimited hother)
    (hhonoured period limit hlimit identifier t)

/-- A request of a client that is counted 5 ms after it has arrived, at a
time in seconds. -/
def requestAt (seconds : Nat) : Request :=
  ⟨Bytes.ofText "10.0.0.1", seconds * 1000, seconds * 1000 + 5⟩

/-- One request a month, on 1 January 2025 at midnight and 20 days later. -/
theorem second_request_stopped :
    Honoured Luatz.calendar {} (limitOf .month 1) [requestAt 1735689600, requestAt 1737417600]
      ∧ (handled Luatz.calendar {} (limitOf .month 1)
        [requestAt 1735689600, requestAt 1737417600]).passed = [requestAt 1735689600] := by
  have hclock : Clocked Luatz.calendar [requestAt 1735689600, requestAt 1737417600] :=
    ⟨by decide +kernel, by decide +kernel⟩
  refine ⟨(windows_honoured _ hclock ?_).1 ?_, by decide +kernel⟩
  · intro period limit hlimit
    unfold limitOf at hlimit
    split at hlimit
    · cases hlimit
      decide
    · cases hlimit
  · intro period limit hlimit identifier t
    unfold limitOf at hlimit
    split at hlimit
    · rename_i hmonth
      cases hlimit
      subst hmonth
      refine .inr ⟨⟨1, rfl⟩, List.Pairwise.filter _ ?_⟩
      decide +kernel
    · cases hlimit

/-- One request a month, on 1 January 2025 at midnight and on 31 January at
noon. -/
theorem second_request_passes :
    ¬ Honoured Luatz.calendar {} (limitOf .month 1)
      [requestAt 1735689600, requestAt 1738324800] := by
  have hpassed : ((handled Luatz.calendar {} (limitOf .month 1)
      [requestAt 1735689600, requestAt 1738324800]).passed.filter
        (inWindow .month (Bytes.ofText "10.0.0.1") 1735689600)).length = 2 := by
    decide +kernel
  intro h
  have hle := h .month 1 rfl (Bytes.ofText "10.0.0.1") 1735689600
  rw [hpassed] at hle
  exact absurd hle (by decide)

end KongGateway.Kong.Plugins.RateLimiting

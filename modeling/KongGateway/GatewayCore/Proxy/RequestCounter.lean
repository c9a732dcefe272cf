import KongGateway.GatewayCore.Proxy.Arithmetic

/-!
# Proxy — the request counter

The handlers of concurrent requests share one counter. A handler loads
it before the fault-injection step, and decides on a fault and on the
canary with what it has loaded; it advances the counter at each attempt
to send the request upstream. The steps below are those between which
other handlers may run.

A request that is aborted, or leaves before its first attempt, does not
advance the counter, and neither has one that is still on its way. The
next request then decides with the same number.
-/

namespace KongGateway.GatewayCore

open RustStd

/-! ## The handlers and their counter -/

/-- A request as it reaches the fault-injection step. -/
structure ProxiedRequest where
  route : Route
  clientKey : String
  headers : HeaderMap := []

inductive ProxyPhase where
  | arrived
  /-- The counter is loaded; the request may be sleeping in a fault. -/
  | counted (requestCount : Nat)
  /-- The request is in the attempt loop, for the upstream of this name. -/
  | forwarding (upstreamName : String)
  | finished
deriving DecidableEq, Repr

/-- `request_counter` and the handlers in the order of their arrival.
The last three fields are what has happened: the counts that were loaded,
the number of attempts, and what it was when the counter was last
loaded. -/
structure Numbering where
  requestCounter : Nat
  handlers : List (ProxiedRequest × ProxyPhase)
  counts : List Nat
  attempts : Nat
  attemptsAtLoad : Option Nat

inductive NumberingEvent where
  | arrive (request : ProxiedRequest)
  /-- The request is answered before the counter is loaded: draining, no
  route, a plugin, the credentials or the rate limit. -/
  | refuse (i : Nat)
  | reachFault (i : Nat)
  /-- The fault is over. A request that is not aborted goes on if there
  are an upstream, its registry and a readable body. -/
  | leaveFault (i : Nat) (goesOn : Bool)
  | attempt (i : Nat)
  | finish (i : Nat)

namespace Numbering

def start : Numbering where
  requestCounter := 0
  handlers := []
  counts := []
  attempts := 0
  attemptsAtLoad := none

def phase (s : Numbering) (i : Nat) : Option ProxyPhase := (s.handlers[i]?).map Prod.snd

def setPhase (s : Numbering) (i : Nat) (phase : ProxyPhase) : Numbering :=
  { s with handlers := s.handlers.modify i fun handler => (handler.1, phase) }

section Steps

variable (bucketHasher : String → String → Nat → Nat) (jitterHasher : String → Nat → Nat)

/-- Where a request is after the fault-injection step. A panic ends its
handler. -/
def afterFault (request : ProxiedRequest) (requestCount : Nat) (goesOn : Bool) : ProxyPhase :=
  match maybeApplyFaultInjection bucketHasher jitterHasher request.route.faultInjection
      request.clientKey requestCount with
  | .error _ => .finished
  | .ok outcome =>
    if outcome.abort.isSome || !goesOn then .finished
    else
      .forwarding (selectUpstreamName bucketHasher request.route request.headers
        request.clientKey requestCount)

def step (s : Numbering) : NumberingEvent → Numbering
  | .arrive request => { s with handlers := s.handlers ++ [(request, .arrived)] }
  | .refuse i => s.setPhase i .finished
  | .reachFault i =>
    { s.setPhase i (.counted s.requestCounter) with
      counts := s.counts ++ [s.requestCounter]
      attemptsAtLoad := some s.attempts }
  | .leaveFault i goesOn =>
    match s.handlers[i]? with
    | some (request, .counted requestCount) =>
      s.setPhase i (afterFault bucketHasher jitterHasher request requestCount goesOn)
    | _ => s
  | .attempt _ =>
    { s with
      requestCounter := (s.requestCounter + 1) % 2 ^ 64
      attempts := s.attempts + 1 }
  | .finish i => s.setPhase i .finished

end Steps

/-- Every handler takes its steps in program order. -/
def Possible (s : Numbering) : NumberingEvent → Prop
  | .arrive _ => True
  | .refuse i => s.phase i = some .arrived
  | .reachFault i => s.phase i = some .arrived
  | .leaveFault i _ => ∃ requestCount, s.phase i = some (.counted requestCount)
  | .attempt i => ∃ upstreamName, s.phase i = some (.forwarding upstreamName)
  | .finish i => ∃ upstreamName, s.phase i = some (.forwarding upstreamName)

/-- No two requests have reached the fault-injection step with the same
count. -/
def FreshCounts (s : Numbering) : Prop := s.counts.Nodup

/-- A request reaches the fault-injection step only when an attempt has
been made since another one did, and the counter has not wrapped. -/
def Advances (s : Numbering) : NumberingEvent → Prop
  | .reachFault _ => s.attemptsAtLoad ≠ some s.attempts ∧ s.attempts < 2 ^ 64
  | _ => True

/-! ## The counts ascend -/

/-- The counter counts attempts; the counts that were loaded ascend and
end with the last one. -/
structure Ascending (s : Numbering) : Prop where
  counter : s.requestCounter = s.attempts % 2 ^ 64
  ascending : s.counts.Pairwise (· < ·)
  bounded : ∀ count ∈ s.counts, ∃ n, s.attemptsAtLoad = some n ∧ count ≤ n ∧ n ≤ s.attempts
  last : ∀ n, s.attemptsAtLoad = some n → n % 2 ^ 64 ∈ s.counts

theorem Ascending.start : start.Ascending where
  counter := rfl
  ascending := List.Pairwise.nil
  bounded := fun _ hmem => absurd hmem List.not_mem_nil
  last := by simp [Numbering.start]

variable {s : Numbering}

theorem Ascending.of_handlers (h : s.Ascending) (handlers : List (ProxiedRequest × ProxyPhase)) :
    Ascending { s with handlers := handlers } :=
  ⟨h.counter, h.ascending, h.bounded, h.last⟩

theorem Ascending.reachFault (h : s.Ascending) (i : Nat)
    (hadvanced : s.attemptsAtLoad ≠ some s.attempts) (hwrap : s.attempts < 2 ^ 64) :
    Ascending { s.setPhase i (.counted s.requestCounter) with
      counts := s.counts ++ [s.requestCounter]
      attemptsAtLoad := some s.attempts } := by
  have hcounter : s.requestCounter = s.attempts := by rw [h.counter, Nat.mod_eq_of_lt hwrap]
  have hbelow : ∀ count ∈ s.counts, count < s.attempts := by
    intro count hmem
    obtain ⟨n, hload, hle, hn⟩ := h.bounded count hmem
    have hne : n ≠ s.attempts := fun heq => hadvanced (heq ▸ hload)
    omega
  refine ⟨h.counter, ?_, ?_, ?_⟩
  · refine List.pairwise_append.mpr ⟨h.ascending, List.pairwise_singleton _ _, ?_⟩
    intro count hmem new hnew
    rw [List.mem_singleton.mp hnew, hcounter]
    exact hbelow count hmem
  · intro count hmem
    refine ⟨s.attempts, rfl, ?_, Nat.le_refl _⟩
    rcases List.mem_append.mp hmem with hmem | hmem
    · exact Nat.le_of_lt (hbelow count hmem)
    · rw [List.mem_singleton.mp hmem, hcounter]
  · intro n hn
    obtain rfl := Option.some.inj hn
    rw [← h.counter]
    exact List.mem_append_right _ List.mem_cons_self

theorem Ascending.attempt (h : s.Ascending) :
    Ascending { s with
      requestCounter := (s.requestCounter + 1) % 2 ^ 64
      attempts := s.attempts + 1 } := by
  refine ⟨?_, h.ascending, ?_, h.last⟩
  · show (s.requestCounter + 1) % 2 ^ 64 = (s.attempts + 1) % 2 ^ 64
    rw [h.counter, Nat.mod_add_mod]
  · intro count hmem
    obtain ⟨n, hload, hle, hn⟩ := h.bounded count hmem
    exact ⟨n, hload, hle, Nat.le_succ_of_le hn⟩

section

variable (bucketHasher : String → String → Nat → Nat) (jitterHasher : String → Nat → Nat)

theorem Ascending.step (h : s.Ascending) (event : NumberingEvent) (hadvances : s.Advances event) :
    (s.step bucketHasher jitterHasher event).Ascending := by
  cases event with
  | arrive request => exact h.of_handlers _
  | refuse i => exact h.of_handlers _
  | reachFault i => exact h.reachFault i hadvances.1 hadvances.2
  | leaveFault i goesOn =>
    simp only [Numbering.step]
    split
    · exact h.of_handlers _
    · exact h
  | attempt i => exact h.attempt
  | finish i => exact h.of_handlers _

end

theorem Ascending.freshCounts (h : s.Ascending) : s.FreshCounts :=
  h.ascending.imp Nat.ne_of_lt

end Numbering

/-- **Fresh counts.** In every run in which an attempt is made between
any two requests that reach the fault-injection step, all of them decide
with counts of their own; and a request that reaches the step in such a
run when no attempt has been made since another one did, decides with a
count that is taken. -/
theorem counts_fresh_of_advances (bucketHasher : String → String → Nat → Nat)
    (jitterHasher : String → Nat → Nat) (events : List NumberingEvent)
    (hrun : Run.Guarded (Numbering.step bucketHasher jitterHasher)
      (fun s event => s.Possible event ∧ s.Advances event) .start events) :
    let s := Run.exec (Numbering.step bucketHasher jitterHasher) .start events
    s.FreshCounts
      ∧ ∀ i, s.attemptsAtLoad = some s.attempts →
        ¬ (s.step bucketHasher jitterHasher (.reachFault i)).FreshCounts := by
  intro s
  have hascending : s.Ascending :=
    hrun.invariant (fun s event h hguard => h.step bucketHasher jitterHasher event hguard.2)
      Numbering.Ascending.start
  refine ⟨hascending.freshCounts, ?_⟩
  intro i hload hfresh
  have hmem : s.requestCounter ∈ s.counts := by
    rw [hascending.counter]
    exact hascending.last _ hload
  exact (List.nodup_append.mp hfresh).2.2 _ hmem _ List.mem_cons_self rfl

/-! ### Two requests of one client -/

/-- A request of one client on a route with the fault. -/
def faultyRequest (fault : FaultInjectionConfig) : ProxiedRequest where
  route := faultyRoute fault
  clientKey := "api:10.0.0.9"

/-- The first request is sent before the second one reaches the step. -/
theorem second_count_after_attempt :
    (Run.exec (Numbering.step (fun _ _ _ => 0) (fun _ _ => 0)) .start
      [.arrive (faultyRequest {}), .reachFault 0, .leaveFault 0 true, .attempt 0,
        .arrive (faultyRequest {}), .reachFault 1]).FreshCounts := by
  refine (counts_fresh_of_advances _ _ _ ?_).1
  refine ⟨⟨trivial, trivial⟩, ⟨rfl, ?_⟩, ⟨⟨0, rfl⟩, trivial⟩, ⟨⟨"svc", rfl⟩, trivial⟩,
    ⟨trivial, trivial⟩, ⟨rfl, ?_⟩, trivial⟩
  · exact ⟨by decide, by decide⟩
  · exact ⟨by decide, by decide⟩

/-- A fault of one request in two that aborts. -/
def abortingFault : FaultInjectionConfig where
  enabled := true
  probabilityPercent := 50
  abortStatus := some 503

/-- The first request is aborted, and the second one, from the same
client, decides with the same count: it is aborted as well, like all
after it. -/
theorem aborted_request_keeps_count :
    let events : List NumberingEvent :=
      [.arrive (faultyRequest abortingFault), .reachFault 0, .leaveFault 0 true,
        .arrive (faultyRequest abortingFault), .reachFault 1, .leaveFault 1 true]
    let s := Run.exec (Numbering.step (fun _ _ _ => 0) (fun _ _ => 0)) .start events
    Run.Guarded (Numbering.step (fun _ _ _ => 0) (fun _ _ => 0)) Numbering.Possible .start events
      ∧ s.counts = [0, 0]
      ∧ s.phase 0 = some .finished ∧ s.phase 1 = some .finished
      ∧ ¬ s.FreshCounts := by
  refine ⟨?_, rfl, rfl, rfl, ?_⟩
  · exact ⟨trivial, rfl, ⟨0, rfl⟩, trivial, rfl, ⟨0, rfl⟩, trivial⟩
  · show ¬ [0, 0].Nodup
    decide

end KongGateway.GatewayCore

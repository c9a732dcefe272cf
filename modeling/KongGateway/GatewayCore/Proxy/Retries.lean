import KongGateway.GatewayCore.Proxy.Attempts

/-!
# Proxy — the discipline of the attempt loop

What the loop does, as a list of events: it reads the clock, sends,
follows redirects, records a verdict, waits before another round, returns.
One round has four shapes (`RoundShape`); a round that goes on does so
below the number of attempts only, so the last one returns and the code
behind the loop is never reached. Redirects are followed inside a send and
are not counted as attempts.
-/

namespace KongGateway.GatewayCore

open RustStd

/-! ## Events -/

inductive LoopEvent where
  | readClock (elapsed : Duration)
  | send (attempt : Nat) (key : String)
  | redirected (count : Nat)
  | record (key : String) (verdict : TargetVerdict)
  | backoff
  | finish (reply : ProxyReply)
  | afterLoop
deriving DecidableEq, Repr

namespace LoopEvent

def isSend : LoopEvent → Bool
  | send _ _ => true
  | _ => false

/-- The requests that reach an upstream. -/
def requests : LoopEvent → Nat
  | send _ _ => 1
  | redirected count => count
  | _ => 0

def recorded : LoopEvent → Option (String × TargetVerdict)
  | record key verdict => some (key, verdict)
  | _ => none

/-- After a send there is exactly one verdict, for the key of that send,
before the next send or the end; no verdict comes without a send. The
key is that of a send without a verdict so far. -/
def OneVerdictEach : Option String → List LoopEvent → Prop
  | pending, [] => pending = none
  | pending, send _ key :: rest => pending = none ∧ OneVerdictEach (some key) rest
  | pending, record key _ :: rest => pending = some key ∧ OneVerdictEach none rest
  | pending, finish _ :: rest => pending = none ∧ OneVerdictEach none rest
  | pending, afterLoop :: rest => pending = none ∧ OneVerdictEach none rest
  | pending, _ :: rest => OneVerdictEach pending rest

/-- A send comes right behind a reading of the clock below the timeout,
and behind a reading that has reached it nothing is sent any more. -/
def SentInTime (timeout : Duration) : List LoopEvent → Prop
  | [] => True
  | readClock elapsed :: rest =>
    (timeout ≤ elapsed → ∀ event ∈ rest, event.isSend = false)
      ∧ match rest with
        | send _ _ :: rest => elapsed < timeout ∧ SentInTime timeout rest
        | rest => SentInTime timeout rest
  | send _ _ :: _ => False
  | _ :: rest => SentInTime timeout rest

/-- The events end with a return, and with that only. -/
def ReturnInside (events : List LoopEvent) : Prop :=
  ∃ before reply, events = before ++ [finish reply]
    ∧ ∀ event ∈ before, event ≠ afterLoop ∧ ∀ reply, event ≠ finish reply

end LoopEvent

namespace AttemptLoop

/-! ## One round -/

/-- The events of one round and, if it goes on, the registry it leaves. -/
def round (loop : AttemptLoop) (attempt : Nat) (registry : RuntimeRegistry) :
    List LoopEvent × Option RuntimeRegistry :=
  let env := loop.env attempt
  if fromMillis loop.proxyCfg.requestTimeoutMs ≤ env.elapsed then
    ([.readClock env.elapsed, .finish (.text 504 "upstream request timed out")], none)
  else
    match pickTarget loop.hasher loop.upstream (env.beforePick registry) env.pickedAt
        loop.clientKey env.requestCount with
    | (none, _) =>
      ([.readClock env.elapsed, .finish (.text 502 "no healthy upstream target available")],
        none)
    | (some target, registry) =>
      let key := targetKey loop.upstream.name target.id
      let registry := env.duringSend registry
      match env.sent with
      | .failed =>
        let sent : List LoopEvent :=
          [.readClock env.elapsed, .send attempt key, .redirected env.redirects.val,
            .record key .failure]
        if attempt < loop.maxAttempts then
          (sent ++ [.backoff], some (registry.record env.recordedAt key .failure))
        else (sent ++ [.finish (.text 502 "upstream request failed")], none)
      | .response status =>
        let (verdict, retry) := judgeAnswer attempt loop.maxAttempts status
        let sent : List LoopEvent :=
          [.readClock env.elapsed, .send attempt key, .redirected env.redirects.val,
            .record key verdict]
        if retry then (sent ++ [.backoff], some (registry.record env.recordedAt key verdict))
        else (sent ++ [.finish (.forwarded status)], none)

/-- What a round can be. -/
inductive RoundShape (loop : AttemptLoop) (attempt : Nat) :
    List LoopEvent × Option RuntimeRegistry → Prop where
  | timedOut {elapsed : Duration} {reply : ProxyReply} :
      fromMillis loop.proxyCfg.requestTimeoutMs ≤ elapsed →
      RoundShape loop attempt ([.readClock elapsed, .finish reply], none)
  | noTarget {elapsed : Duration} {reply : ProxyReply} :
      elapsed < fromMillis loop.proxyCfg.requestTimeoutMs →
      RoundShape loop attempt ([.readClock elapsed, .finish reply], none)
  | answered {elapsed : Duration} {key : String} {verdict : TargetVerdict}
      {reply : ProxyReply} :
      elapsed < fromMillis loop.proxyCfg.requestTimeoutMs →
      RoundShape loop attempt
        ([.readClock elapsed, .send attempt key, .redirected (loop.env attempt).redirects.val,
          .record key verdict, .finish reply], none)
  | retried {elapsed : Duration} {key : String} {verdict : TargetVerdict}
      {registry : RuntimeRegistry} :
      elapsed < fromMillis loop.proxyCfg.requestTimeoutMs → attempt < loop.maxAttempts →
      RoundShape loop attempt
        ([.readClock elapsed, .send attempt key, .redirected (loop.env attempt).redirects.val,
          .record key verdict, .backoff], some registry)

theorem lt_of_judgeAnswer_retry {attempt maxAttempts : Nat} {status : StatusCode}
    (h : (judgeAnswer attempt maxAttempts status).2 = true) : attempt < maxAttempts := by
  simp only [judgeAnswer] at h
  split at h
  · rename_i hretry
    simpa using (Bool.and_eq_true_iff.mp hretry).2
  · split at h <;> cases h

theorem round_shape (loop : AttemptLoop) (attempt : Nat) (registry : RuntimeRegistry) :
    RoundShape loop attempt (loop.round attempt registry) := by
  simp only [round]
  split
  · rename_i htimeout
    exact .timedOut htimeout
  · rename_i htime
    rw [not_le] at htime
    split
    · exact .noTarget htime
    · split
      · split
        · rename_i hleft
          exact .retried htime hleft
        · exact .answered htime
      · split
        · rename_i hretry
          exact .retried htime (lt_of_judgeAnswer_retry hretry)
        · exact .answered htime

/-! ## The loop -/

/-- The events of the rounds from `attempt` on, of which `left` remain. -/
def eventsFrom (loop : AttemptLoop) : (left attempt : Nat) → RuntimeRegistry → List LoopEvent
  | 0, _, _ => [.afterLoop]
  | left + 1, attempt, registry =>
    match loop.round attempt registry with
    | (events, none) => events
    | (events, some registry) => events ++ loop.eventsFrom left (attempt + 1) registry

def events (loop : AttemptLoop) (registry : RuntimeRegistry) : List LoopEvent :=
  loop.eventsFrom loop.maxAttempts 1 registry

variable {loop : AttemptLoop}

/-- **The loop rule**: what holds of the rounds that return and is kept by
a round that goes on holds of the loop. The last round cannot go on, so
nothing has to hold of the code behind the loop. -/
theorem eventsFrom_rule {P : List LoopEvent → Prop}
    (hdone : ∀ {attempt events}, RoundShape loop attempt (events, none) → P events)
    (hmore : ∀ {attempt events registry later},
      RoundShape loop attempt (events, some registry) → P later → P (events ++ later))
    {left attempt : Nat} (hleft : attempt + left = loop.maxAttempts) (registry : RuntimeRegistry) :
    P (loop.eventsFrom (left + 1) attempt registry) := by
  induction left generalizing attempt registry with
  | zero =>
    rw [eventsFrom]
    have hshape := loop.round_shape attempt registry
    generalize loop.round attempt registry = result at hshape
    obtain ⟨events, next⟩ := result
    cases next with
    | none => exact hdone hshape
    | some registry' =>
      cases hshape with
      | retried htime hlt => omega
  | succ left ih =>
    rw [eventsFrom]
    have hshape := loop.round_shape attempt registry
    generalize loop.round attempt registry = result at hshape
    obtain ⟨events, next⟩ := result
    cases next with
    | none => exact hdone hshape
    | some registry' => exact hmore hshape (ih (by omega) registry')

theorem maxAttempts_pos (loop : AttemptLoop) : 1 ≤ loop.maxAttempts := by
  rw [maxAttempts, RetryConfig.attemptsFor]
  split <;> omega

theorem events_rule {P : List LoopEvent → Prop}
    (hdone : ∀ {attempt events}, RoundShape loop attempt (events, none) → P events)
    (hmore : ∀ {attempt events registry later},
      RoundShape loop attempt (events, some registry) → P later → P (events ++ later))
    (registry : RuntimeRegistry) : P (loop.events registry) := by
  have hpos := loop.maxAttempts_pos
  obtain ⟨left, hleft⟩ := Nat.exists_eq_add_of_le hpos
  rw [events, hleft, Nat.add_comm]
  exact eventsFrom_rule hdone hmore hleft.symm registry

theorem countP_isSend_le (left attempt : Nat) (registry : RuntimeRegistry) :
    (loop.eventsFrom left attempt registry).countP LoopEvent.isSend ≤ left := by
  induction left generalizing attempt registry with
  | zero => simp [eventsFrom, LoopEvent.isSend]
  | succ left ih =>
    rw [eventsFrom]
    have hshape := loop.round_shape attempt registry
    generalize loop.round attempt registry = result at hshape
    cases hshape with
    | timedOut htimeout => simp [LoopEvent.isSend]
    | noTarget htime => simp [LoopEvent.isSend]
    | answered htime => simp [List.countP_cons, LoopEvent.isSend]
    | retried htime hlt =>
      rename_i registry'
      have hlater := ih (attempt + 1) registry'
      simp only [List.countP_append, List.countP_cons, List.countP_nil, LoopEvent.isSend,
        Bool.false_eq_true, if_false, if_true]
      omega

/-- The redirects of some attempts in a row. -/
def redirectsOf (loop : AttemptLoop) (first count : Nat) : Nat :=
  ((List.range' first count).map fun attempt => (loop.env attempt).redirects.val).sum

theorem redirectsOf_succ (first count : Nat) : loop.redirectsOf first (count + 1)
    = (loop.env first).redirects.val + loop.redirectsOf (first + 1) count := by
  simp [redirectsOf, List.range'_succ]

theorem le_of_send_mem {left attempt k : Nat} {key : String} {registry : RuntimeRegistry}
    (h : .send k key ∈ loop.eventsFrom left attempt registry) : attempt ≤ k := by
  induction left generalizing attempt registry with
  | zero => simp [eventsFrom] at h
  | succ left ih =>
    rw [eventsFrom] at h
    have hshape := loop.round_shape attempt registry
    generalize loop.round attempt registry = result at hshape h
    cases hshape with
    | timedOut htimeout => simp at h
    | noTarget htime => simp at h
    | answered htime =>
      simp only [List.mem_cons, LoopEvent.send.injEq, reduceCtorEq, List.not_mem_nil, or_false,
        false_or] at h
      exact h.1.ge
    | retried htime hlt =>
      rcases List.mem_append.mp h with h | h
      · simp only [List.mem_cons, LoopEvent.send.injEq, reduceCtorEq, List.not_mem_nil, or_false,
          false_or] at h
        exact h.1.ge
      · exact Nat.le_of_succ_le (ih h)

/-- The requests stay within a budget exactly when at every send those of
the attempts so far do. -/
theorem requests_le_iff (left attempt budget : Nat) (registry : RuntimeRegistry) :
    ((loop.eventsFrom left attempt registry).map LoopEvent.requests).sum ≤ budget
      ↔ ∀ n key, .send (attempt + n) key ∈ loop.eventsFrom left attempt registry →
        n + 1 + loop.redirectsOf attempt (n + 1) ≤ budget := by
  induction left generalizing attempt budget registry with
  | zero => simp [eventsFrom, LoopEvent.requests]
  | succ left ih =>
    rw [eventsFrom]
    have hshape := loop.round_shape attempt registry
    generalize loop.round attempt registry = result at hshape
    cases hshape with
    | timedOut htimeout => simp [LoopEvent.requests]
    | noTarget htime => simp [LoopEvent.requests]
    | answered htime => simp [LoopEvent.requests, redirectsOf]
    | @retried elapsed key verdict registry' htime hlt =>
      have hlater := ih (attempt + 1) (budget - (1 + (loop.env attempt).redirects.val)) registry'
      have hsum : ∀ later : List LoopEvent, ((([.readClock elapsed, .send attempt key,
          .redirected (loop.env attempt).redirects.val, .record key verdict, .backoff]
            : List LoopEvent) ++ later).map LoopEvent.requests).sum
          = 1 + (loop.env attempt).redirects.val + (later.map LoopEvent.requests).sum := by
        intro later
        simp [LoopEvent.requests, Nat.add_assoc]
      dsimp only
      rw [hsum]
      constructor
      · intro hle n key' hmem
        cases n with
        | zero =>
          rw [redirectsOf_succ]
          simp only [redirectsOf, List.range'_zero, List.map_nil, List.sum_nil]
          omega
        | succ n =>
          rw [List.mem_append] at hmem
          have hmem := hmem.resolve_left (by simp)
          rw [← Nat.add_assoc, Nat.add_right_comm] at hmem
          have hle' := hlater.mp (by omega) n key' hmem
          rw [redirectsOf_succ]
          omega
      · intro hall
        have hfirst := hall 0 key (by simp)
        rw [redirectsOf_succ] at hfirst
        have hrest := hlater.mpr fun n key' hmem => by
          have hle := hall (n + 1) key' (List.mem_append_right _ (by
            rwa [← Nat.add_assoc, Nat.add_right_comm]))
          rw [redirectsOf_succ] at hle
          omega
        omega

theorem events_oneVerdictEach (registry : RuntimeRegistry) :
    LoopEvent.OneVerdictEach none (loop.events registry) := by
  refine events_rule (fun hshape => ?_) (fun hshape hlater => ?_) registry
  · cases hshape <;> simp [LoopEvent.OneVerdictEach]
  · cases hshape with
    | retried htime hlt => simpa [LoopEvent.OneVerdictEach] using hlater

theorem events_sentInTime (registry : RuntimeRegistry) :
    LoopEvent.SentInTime (fromMillis loop.proxyCfg.requestTimeoutMs) (loop.events registry) := by
  refine events_rule (fun hshape => ?_) (fun hshape hlater => ?_) registry
  · cases hshape with
    | timedOut htimeout => simp [LoopEvent.SentInTime, LoopEvent.isSend]
    | noTarget htime => simp [LoopEvent.SentInTime, LoopEvent.isSend]
    | answered htime => simp [LoopEvent.SentInTime, LoopEvent.isSend, htime]
  · cases hshape with
    | retried htime hlt => simp [LoopEvent.SentInTime, htime, hlater]

theorem events_returnInside (registry : RuntimeRegistry) :
    LoopEvent.ReturnInside (loop.events registry) := by
  refine events_rule (fun hshape => ?_) (fun hshape hlater => ?_) registry
  · cases hshape with
    | timedOut htimeout => exact ⟨[.readClock _], _, rfl, by simp⟩
    | noTarget htime => exact ⟨[.readClock _], _, rfl, by simp⟩
    | answered htime => exact ⟨[.readClock _, .send _ _, .redirected _, .record _ _], _, rfl, by simp⟩
  · cases hshape with
    | retried htime hlt =>
      obtain ⟨before, reply, rfl, hbefore⟩ := hlater
      refine ⟨_ ++ before, reply, (List.append_assoc _ _ _).symm, fun event hmem => ?_⟩
      rcases List.mem_append.mp hmem with hmem | hmem
      · simp only [List.mem_cons, List.not_mem_nil, or_false] at hmem
        rcases hmem with rfl | rfl | rfl | rfl | rfl <;> simp
      · exact hbefore event hmem

/-! ## The events and the loop's model -/

/-- The events record the verdicts of `rounds`, and a return is with the
reply of `rounds`. -/
theorem eventsFrom_rounds (left attempt : Nat) (lastStatus : Option StatusCode)
    (registry : RuntimeRegistry) :
    (loop.eventsFrom left attempt registry).filterMap LoopEvent.recorded
        = (loop.rounds left attempt lastStatus registry).records.map
          (fun record => (record.key, record.verdict))
      ∧ ∀ reply, .finish reply ∈ loop.eventsFrom left attempt registry →
        reply = (loop.rounds left attempt lastStatus registry).reply := by
  induction left generalizing attempt lastStatus registry with
  | zero => simp [eventsFrom, rounds, LoopEvent.recorded]
  | succ left ih =>
    by_cases htime : fromMillis loop.proxyCfg.requestTimeoutMs ≤ (loop.env attempt).elapsed
    · simp [eventsFrom, round, rounds, htime, LoopEvent.recorded]
    · rcases hpick : pickTarget loop.hasher loop.upstream
        ((loop.env attempt).beforePick registry) (loop.env attempt).pickedAt loop.clientKey
        (loop.env attempt).requestCount with ⟨picked, registry'⟩
      cases picked with
      | none => simp [eventsFrom, round, rounds, htime, hpick, LoopEvent.recorded]
      | some target =>
        cases hsent : (loop.env attempt).sent with
        | failed =>
          by_cases hlt : attempt < loop.maxAttempts
          · simpa [eventsFrom, round, rounds, htime, hpick, hsent, hlt,
              List.filterMap_cons, LoopEvent.recorded] using ih (attempt + 1) lastStatus _
          · simp [eventsFrom, round, rounds, htime, hpick, hsent, hlt,
              List.filterMap_cons, LoopEvent.recorded]
        | response status =>
          cases hretry : (judgeAnswer attempt loop.maxAttempts status).2 with
          | true =>
            simpa [eventsFrom, round, rounds, htime, hpick, hsent, hretry,
              List.filterMap_cons, LoopEvent.recorded]
              using ih (attempt + 1) (some status) _
          | false =>
            simp [eventsFrom, round, rounds, htime, hpick, hsent, hretry,
              List.filterMap_cons, LoopEvent.recorded]

end AttemptLoop

/-- What the retry settings and the timeout promise of the events of a
loop: no more requests than attempts, one where the method may not be
retried, none after the timeout, one verdict for every send, and a return
from inside. -/
structure Disciplined (loop : AttemptLoop) (events : List LoopEvent) : Prop where
  requests : (events.map LoopEvent.requests).sum ≤ max 1 loop.proxyCfg.retries.maxAttempts.toNat
  once : shouldRetryMethod loop.method loop.proxyCfg.retries.idempotentOnly
    loop.proxyCfg.retries.retryUnsafeMethods = false → (events.map LoopEvent.requests).sum ≤ 1
  inTime : LoopEvent.SentInTime (fromMillis loop.proxyCfg.requestTimeoutMs) events
  oneVerdictEach : LoopEvent.OneVerdictEach none events
  returnInside : LoopEvent.ReturnInside events

end KongGateway.GatewayCore

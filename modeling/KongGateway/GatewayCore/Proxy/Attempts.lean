import KongGateway.GatewayCore.Proxy.PickTarget

/-!
# Proxy — the attempt loop and the verdicts it records

The model of the retry loop of `proxy_handler`: one round of the loop
picks a target, sends the request and records a success or a failure for
that target. Everything the loop waits for comes from an `AttemptEnv`:
the clock readings, the counter value, what the target answers, and what
other requests and the health checks do to the registry meanwhile.

The verdict is decided in two places. A retried answer is a failure
because `should_retry_status` holds of it; the last answer is a failure
if it is a server error. The two predicates differ at `429` and from
`600` on.
-/

namespace KongGateway.GatewayCore

open RustStd

/-! ## Methods and statuses -/

/-- `http::Method`; `extension` is any other token. -/
inductive Method where
  | get
  | head
  | options
  | trace
  | put
  | delete
  | post
  | patch
  | connect
  | extension (name : String)
deriving DecidableEq, Repr

/-- `http::StatusCode`: the three-digit numbers. -/
structure StatusCode where
  asU16 : Nat
  three_digits : 100 ≤ asU16 ∧ asU16 ≤ 999
deriving DecidableEq, Repr

/-- `StatusCode::is_server_error`. -/
def StatusCode.isServerError (status : StatusCode) : Bool :=
  500 ≤ status.asU16 && status.asU16 < 600

def shouldRetryMethod (method : Method) (idempotentOnly retryUnsafeMethods : Bool) : Bool :=
  if !idempotentOnly then true
  else
    match method with
    | .get | .head | .options | .trace => true
    | .put | .delete => retryUnsafeMethods
    | _ => false

def shouldRetryStatus (status : StatusCode) : Bool :=
  status.asU16 == 429 || 500 ≤ status.asU16

/-- `max_attempts` of `proxy_handler`. -/
def RetryConfig.attemptsFor (cfg : RetryConfig) (method : Method) : Nat :=
  if shouldRetryMethod method cfg.idempotentOnly cfg.retryUnsafeMethods then
    max cfg.maxAttempts.toNat 1
  else 1

/-! ## One attempt -/

inductive SendResult where
  | response (status : StatusCode)
  | failed
deriving DecidableEq, Repr

inductive TargetVerdict where
  | success
  | failure
deriving DecidableEq, Repr

def noRedirects : Fin 11 := 0

/-- What the rest of the world supplies to one round of the loop. The
two functions are the work of other requests and of the health checks on
the registry: before the target is picked, and while the request is
out. The client is built without a redirect policy, so that behind one
`send` it follows up to ten redirects, each with a request of its own, and
what is sent back is the result of the last one. -/
structure AttemptEnv where
  elapsed : Duration := 0
  beforePick : RuntimeRegistry → RuntimeRegistry := id
  pickedAt : Instant := 0
  requestCount : Nat := 0
  duringSend : RuntimeRegistry → RuntimeRegistry := id
  redirects : Fin 11 := noRedirects
  sent : SendResult
  recordedAt : Instant := 0

/-- A verdict as the loop records it, with the answer it is about. -/
structure AttemptRecord where
  attempt : Nat
  key : String
  sent : SendResult
  verdict : TargetVerdict
deriving DecidableEq, Repr

/-- The reply of the handler: a text of its own, or the upstream's
response, which the response phases of the plugins may still block. -/
inductive ProxyReply where
  | text (status : Nat) (body : String)
  | forwarded (status : StatusCode)
deriving DecidableEq, Repr

def RuntimeRegistry.record (registry : RuntimeRegistry) (now : Instant) (key : String) :
    TargetVerdict → RuntimeRegistry
  | .success => registry.recordSuccess key
  | .failure => registry.recordFailure now key

/-- The verdict on an answer, and whether the loop goes round again. -/
def judgeAnswer (attempt maxAttempts : Nat) (status : StatusCode) : TargetVerdict × Bool :=
  if shouldRetryStatus status && attempt < maxAttempts then (.failure, true)
  else if status.isServerError then (.failure, false)
  else (.success, false)

/-! ## The loop -/

structure AttemptLoop where
  hasher : String → Nat
  upstream : UpstreamConfig
  proxyCfg : ProxyRuntimeConfig
  method : Method
  clientKey : String
  env : Nat → AttemptEnv

structure LoopResult where
  reply : ProxyReply
  registry : RuntimeRegistry
  records : List AttemptRecord

namespace AttemptLoop

def maxAttempts (loop : AttemptLoop) : Nat :=
  loop.proxyCfg.retries.attemptsFor loop.method

def exhausted (lastStatus : Option StatusCode) : ProxyReply :=
  match lastStatus with
  | some status => .text status.asU16 "upstream retries exhausted"
  | none => .text 502 "upstream retries exhausted"

/-- The rounds from `attempt` on, of which `left` remain. -/
def rounds (loop : AttemptLoop) : (left attempt : Nat) → Option StatusCode →
    RuntimeRegistry → LoopResult
  | 0, _, lastStatus, registry => ⟨exhausted lastStatus, registry, []⟩
  | left + 1, attempt, lastStatus, registry =>
    let env := loop.env attempt
    if fromMillis loop.proxyCfg.requestTimeoutMs ≤ env.elapsed then
      ⟨.text 504 "upstream request timed out", env.beforePick registry, []⟩
    else
      match pickTarget loop.hasher loop.upstream (env.beforePick registry) env.pickedAt
          loop.clientKey env.requestCount with
      | (none, registry) =>
        ⟨.text 502 "no healthy upstream target available", registry, []⟩
      | (some target, registry) =>
        let key := targetKey loop.upstream.name target.id
        let registry := env.duringSend registry
        match env.sent with
        | .failed =>
          let registry := registry.record env.recordedAt key .failure
          let record : AttemptRecord := ⟨attempt, key, .failed, .failure⟩
          if attempt < loop.maxAttempts then
            let later := loop.rounds left (attempt + 1) lastStatus registry
            { later with records := record :: later.records }
          else ⟨.text 502 "upstream request failed", registry, [record]⟩
        | .response status =>
          let (verdict, retry) := judgeAnswer attempt loop.maxAttempts status
          let registry := registry.record env.recordedAt key verdict
          let record : AttemptRecord := ⟨attempt, key, .response status, verdict⟩
          if retry then
            let later := loop.rounds left (attempt + 1) (some status) registry
            { later with records := record :: later.records }
          else ⟨.forwarded status, registry, [record]⟩

def run (loop : AttemptLoop) (registry : RuntimeRegistry) : LoopResult :=
  loop.rounds loop.maxAttempts 1 none registry

/-! ## What is recorded -/

/-- Every verdict on an answer is `judgeAnswer`'s. -/
theorem verdict_of_mem_rounds {loop : AttemptLoop} {left attempt : Nat}
    {lastStatus : Option StatusCode} {registry : RuntimeRegistry} {record : AttemptRecord}
    {status : StatusCode}
    (h : record ∈ (loop.rounds left attempt lastStatus registry).records)
    (hsent : record.sent = .response status) :
    record.verdict = (judgeAnswer record.attempt loop.maxAttempts status).1 := by
  induction left generalizing attempt lastStatus registry with
  | zero => cases h
  | succ left ih =>
    simp only [rounds] at h
    split at h
    · cases h
    · split at h
      · cases h
      · split at h
        · split at h
          · rcases List.mem_cons.mp h with rfl | hlater
            · cases hsent
            · exact ih hlater
          · rw [List.mem_singleton.mp h] at hsent
            cases hsent
        · split at h
          · rcases List.mem_cons.mp h with rfl | hlater
            · cases hsent
              rfl
            · exact ih hlater
          · rw [List.mem_singleton.mp h] at hsent ⊢
            cases hsent
            rfl

end AttemptLoop

/-- Retried and final answers are judged alike unless the status is one
the two predicates differ on. -/
theorem judgeAnswer_eq_iff (status : StatusCode) (attempt maxAttempts attempt' maxAttempts' : Nat) :
    (judgeAnswer attempt maxAttempts status).1 = (judgeAnswer attempt' maxAttempts' status).1
      ↔ (status.asU16 ≠ 429 ∧ status.asU16 < 600)
        ∨ (attempt < maxAttempts ↔ attempt' < maxAttempts') := by
  by_cases hretry : shouldRetryStatus status = true
  · by_cases hserver : status.isServerError = true
    · -- a server error is a failure on both paths
      have hlt : status.asU16 ≠ 429 ∧ status.asU16 < 600 := by
        simp only [StatusCode.isServerError, Bool.and_eq_true, decide_eq_true_eq] at hserver
        omega
      simp only [judgeAnswer, hretry, hserver, Bool.true_and, if_true]
      split <;> split <;> simp [hlt]
    · have hodd : ¬ (status.asU16 ≠ 429 ∧ status.asU16 < 600) := by
        simp only [shouldRetryStatus, Bool.or_eq_true, beq_iff_eq, decide_eq_true_eq] at hretry
        simp only [StatusCode.isServerError, Bool.and_eq_true, decide_eq_true_eq] at hserver
        omega
      simp only [judgeAnswer, hretry, hserver, Bool.true_and, decide_eq_true_eq]
      by_cases hl : attempt < maxAttempts <;> by_cases hl' : attempt' < maxAttempts' <;>
        simp [hl, hl', hodd]
  · -- an answer that is not retried is below 500 and a success
    have hlt : status.asU16 ≠ 429 ∧ status.asU16 < 600 := by
      simp only [shouldRetryStatus, Bool.or_eq_true, beq_iff_eq, decide_eq_true_eq] at hretry
      omega
    simp [judgeAnswer, hretry, hlt]

/-- **The verdict on an answer, exactly.** Two attempts of any two
requests record the same verdict for the same status if and only if the
status is not `429` and below `600`, or both attempts may be retried, or
neither. -/
theorem recorded_verdict_eq_iff (loop loop' : AttemptLoop) (registry registry' : RuntimeRegistry)
    {record record' : AttemptRecord} {status : StatusCode}
    (h : record ∈ (loop.run registry).records)
    (h' : record' ∈ (loop'.run registry').records)
    (hsent : record.sent = .response status) (hsent' : record'.sent = .response status) :
    record.verdict = record'.verdict
      ↔ (status.asU16 ≠ 429 ∧ status.asU16 < 600)
        ∨ (record.attempt < loop.maxAttempts ↔ record'.attempt < loop'.maxAttempts) := by
  rw [AttemptLoop.verdict_of_mem_rounds h hsent, AttemptLoop.verdict_of_mem_rounds h' hsent']
  exact judgeAnswer_eq_iff status _ _ _ _

/-! ### A target that asks for a pause -/

/-- A `GET` to one target that gives the same answer every time. -/
def answering (status : StatusCode) : AttemptLoop where
  hasher := fun _ => 0
  upstream := {
    name := "svc"
    strategy := .roundRobin
    targets := [{ id := "a", address := "10.0.0.1:8080" }] }
  proxyCfg := {}
  method := .get
  clientKey := "orders:10.0.0.9"
  env := fun _ => { sent := .response status }

/-- A `503` is a failure on the first attempt and on the last. -/
theorem unavailable_recorded_alike :
    let status : StatusCode := ⟨503, by decide⟩
    let records := ((answering status).run (.new {} {})).records
    let record : AttemptRecord := ⟨1, "svc:a", .response status, .failure⟩
    let record' : AttemptRecord := ⟨3, "svc:a", .response status, .failure⟩
    (record ∈ records ∧ record' ∈ records) ∧ record.verdict = record'.verdict := by
  intro status records record record'
  have hmem : record ∈ records ∧ record' ∈ records := by decide +kernel
  exact ⟨hmem, (recorded_verdict_eq_iff (answering status) (answering status) (.new {} {})
    (.new {} {}) hmem.1 hmem.2 rfl rfl).mpr (.inl (by decide))⟩

/-- A `429` counts against the target when it is retried, and in favour
of it on the last attempt. -/
theorem too_many_requests_recorded_both_ways :
    let status : StatusCode := ⟨429, by decide⟩
    ((answering status).run (.new {} {})).records
      = [⟨1, "svc:a", .response status, .failure⟩, ⟨2, "svc:a", .response status, .failure⟩,
        ⟨3, "svc:a", .response status, .success⟩] := by
  decide +kernel

end KongGateway.GatewayCore

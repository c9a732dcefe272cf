import KongGateway.Kong.Tools.Timestamp
import KongGateway.Lib.Numerals

/-!
# RateLimiting — counters of calendar windows

The plugin rate-limiting counts the requests of an identifier in the
calendar windows of time that are limited. The counters of the local
policy lie in a shared dictionary, under keys with the start of the window,
and disappear a fixed time after they have been created.
-/

namespace KongGateway.Kong.Plugins.RateLimiting

open Bytes Numerals Tools.Timestamp

abbrev Text := List Byte

/-- `EXPIRATION`, in seconds. -/
def expiration : Period → Nat
  | .second => 1
  | .minute => 60
  | .hour => 3600
  | .day => 86400
  | .month => 2592000
  | .year => 31536000

def periodName : Period → Text
  | .second => ofText "second"
  | .minute => ofText "minute"
  | .hour => ofText "hour"
  | .day => ofText "day"
  | .month => ofText "month"
  | .year => ofText "year"

/-- The limits of a configuration: any positive numbers. -/
abbrev Limits := Period → Option ℚ

/-- A limit for one period. -/
def limitOf (period : Period) (limit : ℚ) : Limits := fun other =>
  if other = period then some limit else none

/-- What the keys take from a configuration. -/
structure Conf where
  serviceId : Option Text := none
  routeId : Option Text := none

def emptyUuid : Text := ofText "00000000-0000-0000-0000-000000000000"

/-- `get_service_and_route_ids` -/
def getServiceAndRouteIds (conf : Conf) : Text × Text :=
  (conf.serviceId.getD emptyUuid, conf.routeId.getD emptyUuid)

/-- `get_local_key` -/
def getLocalKey (conf : Conf) (identifier : Text) (period : Period) (periodDate : Nat) : Text :=
  let ids := getServiceAndRouteIds conf
  ofText "ratelimit:" ++ (ids.2 ++ 58 :: (ids.1 ++ 58 :: ((identifier ++ 58 :: decimal periodDate)
    ++ 58 :: periodName period)))

/-! ## The shared dictionary -/

/-- A counter with the time in milliseconds at which it disappears. -/
structure Counter where
  value : Nat
  expires : Nat
  deriving DecidableEq

abbrev Shm := Text → Option Counter

namespace Shm

/-- `shm:get` -/
def get (shm : Shm) (now : Nat) (key : Text) : Option Nat :=
  match shm key with
  | some counter => if now < counter.expires then some counter.value else none
  | none => none

/-- A counter after `incr`: it is created anew when it has disappeared. -/
def bump (now value init initTtl : Nat) : Option Counter → Counter
  | some counter =>
    if now < counter.expires then { counter with value := counter.value + value }
    else ⟨init + value, now + initTtl * 1000⟩
  | none => ⟨init + value, now + initTtl * 1000⟩

/-- `shm:incr` -/
def incr (shm : Shm) (now : Nat) (key : Text) (value init initTtl : Nat) : Shm := fun other =>
  if other = key then some (bump now value init initTtl (shm key)) else shm other

end Shm

/-! ## The local policy -/

variable (luatz : Luatz) (conf : Conf)

/-- `increment`, at a time `now` of the dictionary. -/
def localIncrement (limits : Limits) (identifier : Text) (currentTimestamp value now : Nat)
    (shm : Shm) : Shm :=
  let periods := getTimestamps luatz currentTimestamp
  Period.all.foldl (fun shm period =>
    if (limits period).isSome then
      shm.incr now (getLocalKey conf identifier period (periods period)) value 0
        (expiration period)
    else shm) shm

/-- `usage`, at a time `now` of the dictionary. -/
def localUsage (identifier : Text) (period : Period) (currentTimestamp now : Nat) (shm : Shm) :
    Nat :=
  let periods := getTimestamps luatz currentTimestamp
  (shm.get now (getLocalKey conf identifier period (periods period))).getD 0

/-! ## The handler -/

/-- The usage of a period: its limit and what remains of it. -/
structure Usage where
  period : Period
  limit : ℚ
  remaining : ℚ

/-- `get_usage` with the period that stops the request, if there is one. The
order of the periods changes nothing but the choice among such periods. -/
def getUsage (currentUsage : Period → Nat) (limits : Limits) : List Usage × Option Period :=
  Period.all.foldl (fun acc period =>
    match limits period with
    | none => acc
    | some limit =>
      let remaining := limit - currentUsage period
      (acc.1 ++ [⟨period, limit, remaining⟩], if remaining ≤ 0 then some period else acc.2))
    ([], none)

/-- A request of an identifier: the clock in milliseconds when it arrives and
when the timer that counts it runs. -/
structure Request where
  identifier : Text
  now : Nat
  counted : Nat
  deriving DecidableEq

/-- `time() * 1000` -/
def Request.currentTimestamp (request : Request) : Nat := request.now / 1000 * 1000

/-- `access` with the local policy: whether the request is let through. -/
def access (limits : Limits) (shm : Shm) (request : Request) : Bool × Shm :=
  let usage := getUsage
    (fun period => localUsage luatz conf request.identifier period request.currentTimestamp
      request.now shm) limits
  match usage.2 with
  | some _ => (false, shm)
  | none =>
    (true, localIncrement luatz conf limits request.identifier request.currentTimestamp 1
      request.counted shm)

/-! ## Facts about keys and counters -/

theorem periodName_injective : Function.Injective periodName := by
  intro p q h
  revert h
  cases p <;> cases q <;> decide +kernel

theorem colon_notMem_periodName (period : Period) : 58 ∉ periodName period := by
  cases period <;> decide +kernel

theorem colon_notMem_decimal (n : Nat) : 58 ∉ decimal n := by
  intro h
  have hdigit := isDigit_of_mem_decimal h
  revert hdigit
  decide

variable {luatz conf}

theorem getLocalKey_eq_iff {identifier identifier' : Text} {period period' : Period}
    {date date' : Nat} :
    getLocalKey conf identifier period date = getLocalKey conf identifier' period' date'
      ↔ identifier = identifier' ∧ period = period' ∧ date = date' := by
  constructor
  · intro h
    unfold getLocalKey at h
    simp only [List.append_cancel_left_eq, List.cons.injEq, true_and] at h
    obtain ⟨hleft, hname⟩ := append_sep_inj_right (colon_notMem_periodName _)
      (colon_notMem_periodName _) h
    obtain ⟨hidentifier, hdate⟩ := append_sep_inj_right (colon_notMem_decimal _)
      (colon_notMem_decimal _) hleft
    exact ⟨hidentifier, periodName_injective hname, decimal_injective hdate⟩
  · rintro ⟨rfl, rfl, rfl⟩
    rfl

theorem getUsage_stop_eq_none_iff {currentUsage : Period → Nat} {limits : Limits} :
    (getUsage currentUsage limits).2 = none
      ↔ ∀ period limit, limits period = some limit → (currentUsage period : ℚ) < limit := by
  have hfold : ∀ (periods : List Period) (acc : List Usage × Option Period),
      (periods.foldl (fun acc period =>
        match limits period with
        | none => acc
        | some limit =>
          let remaining := limit - currentUsage period
          (acc.1 ++ [⟨period, limit, remaining⟩],
            if remaining ≤ 0 then some period else acc.2)) acc).2 = none
        ↔ acc.2 = none ∧ ∀ period ∈ periods, ∀ limit, limits period = some limit →
          (currentUsage period : ℚ) < limit := by
    intro periods
    induction periods with
    | nil => simp
    | cons period rest ih =>
      intro acc
      rw [List.foldl_cons, ih]
      cases hlimit : limits period with
      | none => simp [hlimit]
      | some limit =>
        simp only [List.mem_cons, forall_eq_or_imp, hlimit, Option.some.injEq, forall_eq']
        rw [← and_assoc]
        refine and_congr_left fun _ => ?_
        split
        · rename_i hle
          rw [sub_nonpos] at hle
          simp [not_lt.mpr hle]
        · rename_i hlt
          rw [sub_nonpos, not_le] at hlt
          simp [hlt]
  unfold getUsage
  rw [hfold]
  simp [Period.mem_all]

theorem localIncrement_key {limits : Limits} {identifier : Text}
    {currentTimestamp value now : Nat} {shm : Shm} {identifier' : Text} {period : Period}
    {date : Nat} :
    localIncrement luatz conf limits identifier currentTimestamp value now shm
        (getLocalKey conf identifier' period date)
      = if (limits period).isSome ∧ identifier' = identifier
          ∧ date = getTimestamps luatz currentTimestamp period
        then some (Shm.bump now value 0 (expiration period)
          (shm (getLocalKey conf identifier' period date)))
        else shm (getLocalKey conf identifier' period date) := by
  have hfold : ∀ (periods : List Period) (shm : Shm), periods.Nodup →
      periods.foldl (fun shm period =>
        if (limits period).isSome then
          shm.incr now (getLocalKey conf identifier period
            (getTimestamps luatz currentTimestamp period)) value 0 (expiration period)
        else shm) shm (getLocalKey conf identifier' period date)
      = if period ∈ periods ∧ (limits period).isSome ∧ identifier' = identifier
          ∧ date = getTimestamps luatz currentTimestamp period
        then some (Shm.bump now value 0 (expiration period)
          (shm (getLocalKey conf identifier' period date)))
        else shm (getLocalKey conf identifier' period date) := by
    intro periods
    induction periods with
    | nil => simp
    | cons head rest ih =>
      intro shm hnodup
      obtain ⟨hhead, hrest⟩ := List.nodup_cons.mp hnodup
      rw [List.foldl_cons, ih _ hrest]
      by_cases hlimited : (limits head).isSome
      · by_cases hperiod : period = head
        · subst hperiod
          simp only [hlimited, if_true, hhead, false_and, if_false, List.mem_cons, true_or,
            true_and, Shm.incr, getLocalKey_eq_iff]
          split
          · rename_i hsame
            rw [hsame.1, hsame.2]
          · rfl
        · simp [hlimited, Shm.incr, getLocalKey_eq_iff, hperiod]
      · rw [if_neg hlimited]
        by_cases hperiod : period = head
        · subst hperiod
          simp [hlimited]
        · simp [hperiod]
  unfold localIncrement
  rw [hfold _ _ (by decide)]
  simp [Period.mem_all]

end KongGateway.Kong.Plugins.RateLimiting

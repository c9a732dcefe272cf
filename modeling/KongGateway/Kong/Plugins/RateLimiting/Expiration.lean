import KongGateway.Kong.Plugins.RateLimiting.RedisSync

/-!
# Expiration — when synced counters expire

`usage` records for a key the start of its window in milliseconds plus the
lifetime of a counter in seconds. The sum is what `sync_to_redis` gives to
EXPIREAT, and what the usage in the tables is good until; both are read as
seconds. EXPIREAT is called for a counter that is not in Redis only: one
that `usage` has made there has its lifetime in seconds, until it is over.
-/

namespace KongGateway.Kong.Plugins.RateLimiting.RedisSync

open Bytes Numerals Calendar Tools.Timestamp

/-! ## Windows in seconds -/

section Window

variable (luatz : Luatz) (period : Period) (currentTimestamp : Nat)

/-- The window of a period that a request lies in. -/
def requestWindow : DateTime := Tools.Timestamp.floor period (getTimetable luatz currentTimestamp)

def windowStart : Nat := (requestWindow luatz period currentTimestamp).toSeconds

def windowEnd : Nat :=
  windowStart luatz period currentTimestamp
    + windowLength period (requestWindow luatz period currentTimestamp)

theorem getTimetable_valid : (getTimetable luatz currentTimestamp).Valid := by
  unfold getTimetable
  split
  · rw [luatz.newFromTimestamp_eq]
    exact (DateTime.ofSeconds_spec _).1
  · rw [luatz.newFromTimestamp_eq]
    exact (DateTime.ofSeconds_spec _).1

theorem requestWindow_valid : (requestWindow luatz period currentTimestamp).Valid :=
  floor_valid (getTimetable_valid luatz currentTimestamp) period

theorem getTimestamps_eq_windowStart :
    getTimestamps luatz currentTimestamp period
      = windowStart luatz period currentTimestamp * 1000 := by
  unfold windowStart
  rw [← luatz.timestamp_eq _ (requestWindow_valid luatz period currentTimestamp)]
  unfold requestWindow getTimestamps
  cases period <;> rfl

/-- A window that does not start in 1970 starts late enough for the factor
between milliseconds and seconds to exceed its length. -/
theorem windowLength_lt (h : windowStart luatz period currentTimestamp ≠ 0) :
    windowLength period (requestWindow luatz period currentTimestamp) + 1
      < 999 * windowStart luatz period currentTimestamp := by
  have hmonth : ∀ year month, monthLength year month ≤ 31 := by
    intro year month
    unfold monthLength
    split <;> first | omega | (split <;> omega)
  have hyear : ∀ year, yearLength year ≤ 366 := by
    intro year
    unfold yearLength
    split <;> omega
  unfold windowStart requestWindow at *
  cases period with
  | second =>
    simp only [windowLength] at *
    omega
  | minute =>
    simp only [Tools.Timestamp.floor, windowLength, DateTime.toSeconds] at *
    omega
  | hour =>
    simp only [Tools.Timestamp.floor, windowLength, DateTime.toSeconds] at *
    omega
  | day =>
    simp only [Tools.Timestamp.floor, windowLength, DateTime.toSeconds] at *
    omega
  | month =>
    simp only [Tools.Timestamp.floor, windowLength, DateTime.toSeconds] at *
    have := hmonth (getTimetable luatz currentTimestamp).year
      ((getTimetable luatz currentTimestamp).month - 1)
    omega
  | year =>
    simp only [Tools.Timestamp.floor, windowLength, DateTime.toSeconds] at *
    have := hyear (getTimetable luatz currentTimestamp).year
    omega

theorem requestWindow_first (h : windowStart luatz period currentTimestamp = 0) :
    requestWindow luatz period currentTimestamp = ⟨1970, 1, 1, 0, 0, 0⟩ :=
  DateTime.toSeconds_injective (requestWindow_valid luatz period currentTimestamp)
    ⟨by decide, by decide, by decide, by decide, by decide, by decide, by decide, by decide⟩ h

/-- A first window is as long as the lifetime of a counter, but for months. -/
theorem windowLength_eq_iff (h : windowStart luatz period currentTimestamp = 0) :
    windowLength period (requestWindow luatz period currentTimestamp) ≤ expiration period
      ↔ period ≠ .month := by
  rw [requestWindow_first luatz period currentTimestamp h]
  cases period <;> decide

end Window

/-! ## What is recorded for a key -/

theorem key_window {conf conf' : Conf} {identifier identifier' : Text} {period period' : Period}
    {date date' : Nat}
    (h : getLocalKey conf identifier period date = getLocalKey conf' identifier' period' date') :
    period = period' ∧ date = date' := by
  unfold getLocalKey at h
  simp only [List.append_cancel_left_eq] at h
  have hassoc : ∀ (a b c d : Text), a ++ 58 :: (b ++ 58 :: (c ++ 58 :: d))
      = (a ++ 58 :: (b ++ 58 :: c)) ++ 58 :: d := by simp
  rw [hassoc _ _ (identifier ++ 58 :: decimal date),
    hassoc _ _ (identifier' ++ 58 :: decimal date')] at h
  obtain ⟨hleft, hname⟩ := append_sep_inj_right (colon_notMem_periodName _)
    (colon_notMem_periodName _) h
  rw [hassoc _ _ identifier, hassoc _ _ identifier'] at hleft
  obtain ⟨-, hdate⟩ := append_sep_inj_right (colon_notMem_decimal _) (colon_notMem_decimal _) hleft
  exact ⟨periodName_injective hname, decimal_injective hdate⟩

/-- An expiration that a pipeline holds for a key. -/
def Phase.Sends (key : Text) (e : Nat) : Phase → Prop
  | .connecting => False
  | .committing pipeline | .committed pipeline => pipeline.expirations key = some e

/-- An expiration of a key, in the table or on its way to Redis. -/
def Recorded (w : Worker) (key : Text) (e : Nat) : Prop :=
  w.curUsageExpireAt key = some e ∨ ∃ sync ∈ w.running, sync.phase.Sends key e

variable (luatz : Luatz)

/-- Expirations are those of `usage` for the key. -/
def OfUsage (key : Text) (e : Nat) : Prop :=
  ∃ conf identifier period currentTimestamp,
    key = getLocalKey conf identifier period (getTimestamps luatz currentTimestamp period)
      ∧ e = getTimestamps luatz currentTimestamp period + expiration period

structure FromUsage (w : Worker) : Prop where
  recorded : ∀ key e, Recorded w key e → OfUsage luatz key e
  calls : ∀ call ∈ w.calls, OfUsage luatz call.key call.expireAt

variable {luatz}

theorem fromUsage_record {w : Worker} (h : FromUsage luatz w) {key : Text} {expireAt : Nat}
    (hkey : OfUsage luatz key expireAt) (current delta : Int) :
    FromUsage luatz (w.record key current expireAt delta) := by
  refine ⟨fun key' e hrecorded => ?_, h.calls⟩
  rcases hrecorded with htable | hsent
  · by_cases heq : key' = key
    · subst heq
      simp only [Worker.record, Function.update_self, Option.some.injEq] at htable
      rwa [← htable]
    · simp only [Worker.record, Function.update_of_ne heq] at htable
      exact h.recorded key' e (.inl htable)
  · exact h.recorded key' e (.inr hsent)

theorem fromUsage_running {w w' : Worker} (h : FromUsage luatz w)
    (htable : w'.curUsageExpireAt = w.curUsageExpireAt ∨ w'.curUsageExpireAt = fun _ => none)
    (hcalls : w'.calls = w.calls)
    (hrunning : ∀ sync ∈ w'.running, ∀ key e, sync.phase.Sends key e → Recorded w key e) :
    FromUsage luatz w' := by
  refine ⟨fun key e hrecorded => ?_, hcalls ▸ h.calls⟩
  rcases hrecorded with hrecorded | ⟨sync, hsync, hsends⟩
  · rcases htable with heq | heq
    · rw [heq] at hrecorded
      exact h.recorded key e (.inl hrecorded)
    · rw [heq] at hrecorded
      cases hrecorded
  · exact h.recorded key e (hrunning sync hsync key e hsends)

theorem fromUsage_step {w : Worker} (h : FromUsage luatz w) (event : Event) :
    FromUsage luatz (step luatz w event) := by
  have hothers : ∀ {plugin : Text} {sync : Sync}, sync ∈ w.others plugin →
      ∀ key e, sync.phase.Sends key e → Recorded w key e :=
    fun hsync key e hsends => .inr ⟨_, mem_running_of_mem_others hsync, hsends⟩
  cases event with
  | usage conf identifier period currentTimestamp now =>
    have hkey : OfUsage luatz
        (getLocalKey conf identifier period (getTimestamps luatz currentTimestamp period))
        (getTimestamps luatz currentTimestamp period + expiration period) :=
      ⟨conf, identifier, period, currentTimestamp, rfl, rfl⟩
    simp only [step, Worker.usage]
    split
    · split
      · split
        · exact h
        · exact fromUsage_record h hkey 0 0
      · exact h
    · refine ⟨h.recorded, fun call hcall => ?_⟩
      rcases List.mem_cons.mp hcall with rfl | hcall
      · exact hkey
      · exact h.calls call hcall
  | evaluate call =>
    simp only [step, Worker.evaluate]
    split
    · rename_i hcall
      refine ⟨h.recorded, fun other hother => ?_⟩
      rcases List.mem_cons.mp hother with rfl | hother
      · exact h.calls call hcall.1
      · exact h.calls other (List.mem_of_mem_erase hother)
    · exact h
  | finish call =>
    simp only [step, Worker.finish]
    split
    · rename_i hcall
      split
      · rename_i metric hmetric
        have herased : FromUsage luatz { w with calls := w.calls.erase call } :=
          ⟨h.recorded, fun other hother => h.calls other (List.mem_of_mem_erase hother)⟩
        exact fromUsage_record herased (h.calls call hcall) metric (-1)
      · exact h
    · exact h
  | increment plugin conf limits identifier currentTimestamp =>
    have hsync : ∀ w' : Worker, FromUsage luatz w' → FromUsage luatz (w'.rateLimitedSync plugin) := by
      intro w' h'
      unfold Worker.rateLimitedSync
      split
      · exact h'
      · exact ⟨h'.recorded, h'.calls⟩
    exact hsync _ ⟨h.recorded, h.calls⟩
  | fire plugin =>
    simp only [step, Worker.fire]
    split
    · refine fromUsage_running h (.inl rfl) rfl fun sync hsync key e hsends => ?_
      rcases List.mem_cons.mp hsync with rfl | hsync
      · exact hsends.elim
      · exact .inr ⟨sync, hsync, hsends⟩
    · exact h
  | build plugin =>
    simp only [step, Worker.build]
    split
    · refine fromUsage_running h (.inl rfl) rfl fun sync hsync key e hsends => ?_
      rcases List.mem_cons.mp hsync with rfl | hsync
      · exact .inl hsends
      · exact hothers hsync key e hsends
    · exact h
  | commit plugin =>
    simp only [step, Worker.commit]
    split
    · rename_i name pipeline hfound
      refine fromUsage_running h (.inl rfl) rfl fun sync hsync key e hsends => ?_
      rcases List.mem_cons.mp hsync with rfl | hsync
      · exact .inr ⟨_, mem_running_of_sync hfound, hsends⟩
      · exact hothers hsync key e hsends
    · exact h
  | clear plugin =>
    simp only [step, Worker.clear]
    split
    · exact fromUsage_running h (.inr rfl) rfl fun sync hsync => hothers hsync
    · exact h
  | expire key => exact ⟨h.recorded, h.calls⟩

/-! ## Counters in Redis and the clock -/

/-- A worker, the time in milliseconds, and the counters that are in Redis
with the millisecond at which each expires, if it does. `expireAts` are the
expirations that `sync_to_redis` has set for a counter, `uses` the seconds
in which its usage in the tables was used. -/
structure Store where
  worker : Worker := {}
  clock : Nat := 0
  expiries : Text → Option (Option Nat) := fun _ => none
  expireAts : Text → List Nat := fun _ => []
  uses : Text → List Nat := fun _ => []

namespace Store

variable (s : Store)

/-- `ngx_time()` -/
def now : Nat := s.clock / 1000

/-- EXISTS of a counter. -/
def keyExists (key : Text) : Bool :=
  match s.expiries key with
  | none => false
  | some none => true
  | some (some expiry) => s.clock < expiry

/-- The worker, with the counters of which the time is not over. -/
def live : Worker :=
  { s.worker with redis := fun key => if s.keyExists key then s.worker.redis key else 0 }

/-- The usage in the tables is used for a key. -/
def usesTables (key : Text) : Bool :=
  match s.worker.curUsage key, s.worker.curUsageExpireAt key with
  | some _, some recorded => recorded > s.now
  | _, _ => false

/-- What the script of `sync_to_redis` calls EXPIREAT with, for a counter
that is not in Redis; `nil`, for which it fails, if nothing is recorded. -/
def expireAt? (plugin key : Text) : Option (Option Nat) :=
  match s.worker.sync? plugin with
  | some ⟨_, .committing pipeline⟩ =>
    if (pipeline.deltas key).isSome ∧ ¬ s.keyExists key then some (pipeline.expirations key)
    else none
  | _ => none

end Store

/-- Time goes on, or something happens at the time that it is. -/
inductive Action where
  | tick (milliseconds : Nat)
  | run (event : Event)

variable (luatz : Luatz)

def Store.step (s : Store) : Action → Store
  | .tick milliseconds => { s with clock := s.clock + milliseconds }
  | .run (.usage conf identifier period currentTimestamp _) =>
    let key := getLocalKey conf identifier period (getTimestamps luatz currentTimestamp period)
    { s with
      worker := RedisSync.step luatz s.live (.usage conf identifier period currentTimestamp s.now)
      uses := if s.usesTables key then Function.update s.uses key (s.now :: s.uses key)
        else s.uses }
  | .run (.evaluate call) =>
    { s with
      worker := RedisSync.step luatz s.live (.evaluate call)
      expiries := if (call ∈ s.worker.calls ∧ call.metric = none) ∧ s.live.redis call.key = 0
        then Function.update s.expiries call.key (some (some (s.clock + call.lifetime * 1000)))
        else s.expiries }
  | .run (.commit plugin) =>
    { s with
      worker := RedisSync.step luatz s.live (.commit plugin)
      expiries := fun key =>
        match s.expireAt? plugin key with
        | some expireAt => some (expireAt.map (· * 1000))
        | none => s.expiries key
      expireAts := fun key => (s.expireAt? plugin key).join.toList ++ s.expireAts key }
  | .run (.expire key) =>
    { s with
      worker := RedisSync.step luatz s.live (.expire key)
      expiries := Function.update s.expiries key none }
  | .run event => { s with worker := RedisSync.step luatz s.live event }

/-- Counters expire with their windows: what `sync_to_redis` sets is the
end of the window or at most one lifetime after it, and no later the usage
in the tables was used. -/
structure ExpiresWithWindow (s : Store) : Prop where
  expireAts : ∀ conf identifier period currentTimestamp,
    ∀ e ∈ s.expireAts
      (getLocalKey conf identifier period (getTimestamps luatz currentTimestamp period)),
    windowEnd luatz period currentTimestamp ≤ e
      ∧ e ≤ windowEnd luatz period currentTimestamp + expiration period
  uses : ∀ conf identifier period currentTimestamp,
    ∀ now ∈ s.uses
      (getLocalKey conf identifier period (getTimestamps luatz currentTimestamp period)),
    now ≤ windowEnd luatz period currentTimestamp + expiration period

/-- A sync has no counter to add whose expiration is recorded and that is
not in Redis any more, unless its window is the first of its kind and no
month; and no request takes so long that it looks at its usage a lifetime
after its window, unless what is recorded for it is over. -/
def InTime (s : Store) : Action → Prop
  | .run (.commit plugin) => ∀ conf identifier period currentTimestamp pipeline,
    let key := getLocalKey conf identifier period (getTimestamps luatz currentTimestamp period)
    (s.worker.sync? plugin).map Sync.phase = some (.committing pipeline) →
    (pipeline.deltas key).isSome → (pipeline.expirations key).isSome →
    s.keyExists key = true ∨ windowStart luatz period currentTimestamp = 0 ∧ period ≠ .month
  | .run (.usage conf identifier period currentTimestamp _) =>
    let key := getLocalKey conf identifier period (getTimestamps luatz currentTimestamp period)
    (s.worker.curUsage key).isSome → ∀ recorded, s.worker.curUsageExpireAt key = some recorded →
    recorded ≤ s.now ∨ s.now ≤ windowEnd luatz period currentTimestamp + expiration period
  | _ => True

variable {luatz}

theorem fromUsage_live {s : Store} (h : FromUsage luatz s.worker) : FromUsage luatz s.live :=
  ⟨h.recorded, h.calls⟩

theorem fromUsage_storeStep {s : Store} (h : FromUsage luatz s.worker) (action : Action) :
    FromUsage luatz (s.step luatz action).worker := by
  cases action with
  | tick milliseconds => exact h
  | run event =>
    obtain ⟨event', hworker⟩ : ∃ event', (s.step luatz (.run event)).worker
        = RedisSync.step luatz s.live event' := by
      cases event <;> simp only [Store.step] <;> exact ⟨_, rfl⟩
    rw [hworker]
    exact fromUsage_step (fromUsage_live h) event'

theorem recorded_eq {w : Worker} (h : FromUsage luatz w) {conf : Conf} {identifier : Text}
    {period : Period} {currentTimestamp e : Nat}
    (he : Recorded w
      (getLocalKey conf identifier period (getTimestamps luatz currentTimestamp period)) e) :
    e = windowStart luatz period currentTimestamp * 1000 + expiration period := by
  obtain ⟨conf', identifier', period', currentTimestamp', hkey, rfl⟩ := h.recorded _ e he
  obtain ⟨rfl, hdate⟩ := key_window hkey
  rw [← hdate, getTimestamps_eq_windowStart]

/-- What is recorded for a key expires with its window only where the
window is the first of its kind, and no month. -/
theorem recorded_inWindow_iff (period : Period) (currentTimestamp : Nat) :
    (windowEnd luatz period currentTimestamp
          ≤ windowStart luatz period currentTimestamp * 1000 + expiration period
        ∧ windowStart luatz period currentTimestamp * 1000 + expiration period
          ≤ windowEnd luatz period currentTimestamp + expiration period)
      ↔ windowStart luatz period currentTimestamp = 0 ∧ period ≠ .month := by
  unfold windowEnd
  constructor
  · rintro ⟨hended, hwithin⟩
    by_cases hstart : windowStart luatz period currentTimestamp = 0
    · refine ⟨hstart, (windowLength_eq_iff luatz period currentTimestamp hstart).mp ?_⟩
      rw [hstart] at hended
      omega
    · have hlength := windowLength_lt luatz period currentTimestamp hstart
      omega
  · rintro ⟨hstart, hperiod⟩
    have hlength := (windowLength_eq_iff luatz period currentTimestamp hstart).mpr hperiod
    rw [hstart]
    omega

theorem windowEnd_congr {period : Period} {currentTimestamp currentTimestamp' : Nat}
    (h : getTimestamps luatz currentTimestamp period = getTimestamps luatz currentTimestamp' period) :
    windowEnd luatz period currentTimestamp = windowEnd luatz period currentTimestamp' := by
  rw [getTimestamps_eq_windowStart, getTimestamps_eq_windowStart] at h
  have hstart : windowStart luatz period currentTimestamp
      = windowStart luatz period currentTimestamp' := by omega
  have hwindow := DateTime.toSeconds_injective (requestWindow_valid luatz period currentTimestamp)
    (requestWindow_valid luatz period currentTimestamp') hstart
  unfold windowEnd
  rw [hstart, hwindow]

theorem mem_expireAt? {s : Store} {plugin key : Text} {e : Nat} :
    e ∈ (s.expireAt? plugin key).join.toList
      ↔ ∃ pipeline, (s.worker.sync? plugin).map Sync.phase = some (.committing pipeline)
        ∧ (pipeline.deltas key).isSome ∧ s.keyExists key = false
        ∧ pipeline.expirations key = some e := by
  unfold Store.expireAt?
  split
  · rename_i name pipeline hsync
    by_cases hscript : (pipeline.deltas key).isSome ∧ ¬ s.keyExists key
    · have hnot : s.keyExists key = false := by simpa using hscript.2
      simp [hsync, hscript.1, hnot]
    · have hnot : (pipeline.deltas key).isSome = true → s.keyExists key = true := by
        simpa using hscript
      simp only [if_neg hscript, Option.join_none, Option.toList_none, List.not_mem_nil, hsync,
        Option.map_some, Option.some.injEq, Phase.committing.injEq, exists_eq_left', false_iff]
      rintro ⟨hdelta, hexists, -⟩
      rw [hnot hdelta] at hexists
      cases hexists
  · rename_i hphase
    simp only [Option.join_none, Option.toList_none, List.not_mem_nil, false_iff]
    rintro ⟨pipeline, hsync, -⟩
    obtain ⟨⟨name, phase⟩, hsync, rfl⟩ := Option.map_eq_some_iff.mp hsync
    exact hphase name pipeline hsync

theorem expiresWithWindow_commit_iff {s : Store} (h : FromUsage luatz s.worker) (plugin : Text) :
    ExpiresWithWindow luatz (s.step luatz (.run (.commit plugin)))
      ↔ ExpiresWithWindow luatz s ∧ InTime luatz s (.run (.commit plugin)) := by
  have hvalue : ∀ {conf : Conf} {identifier : Text} {period : Period} {currentTimestamp e : Nat}
      {pipeline : Pipeline},
      (s.worker.sync? plugin).map Sync.phase = some (.committing pipeline) →
      pipeline.expirations
        (getLocalKey conf identifier period (getTimestamps luatz currentTimestamp period)) = some e →
      e = windowStart luatz period currentTimestamp * 1000 + expiration period := by
    intro conf identifier period currentTimestamp e pipeline hphase he
    obtain ⟨sync, hsync, hphase⟩ := Option.map_eq_some_iff.mp hphase
    have hrecorded : Recorded s.worker
        (getLocalKey conf identifier period (getTimestamps luatz currentTimestamp period)) e := by
      refine .inr ⟨sync, mem_running_of_sync hsync, ?_⟩
      rw [hphase]
      exact he
    exact recorded_eq h hrecorded
  constructor
  · intro hafter
    refine ⟨⟨fun conf identifier period currentTimestamp e he => ?_, hafter.uses⟩,
      fun conf identifier period currentTimestamp pipeline hphase hdelta hrecorded => ?_⟩
    · exact hafter.expireAts conf identifier period currentTimestamp e
        (List.mem_append_right _ he)
    · obtain ⟨e, he⟩ := Option.isSome_iff_exists.mp hrecorded
      refine or_iff_not_imp_left.mpr fun hexists =>
        (recorded_inWindow_iff period currentTimestamp).mp ?_
      rw [← hvalue hphase he]
      exact hafter.expireAts conf identifier period currentTimestamp e
        (List.mem_append_left _ (mem_expireAt?.mpr
          ⟨pipeline, hphase, hdelta, by simpa using hexists, he⟩))
  · rintro ⟨hbefore, hguard⟩
    refine ⟨fun conf identifier period currentTimestamp e he => ?_, hbefore.uses⟩
    rcases List.mem_append.mp he with he | he
    · obtain ⟨pipeline, hphase, hdelta, hexists, he⟩ := mem_expireAt?.mp he
      rcases hguard conf identifier period currentTimestamp pipeline hphase hdelta
        (Option.isSome_iff_exists.mpr ⟨e, he⟩) with hkey | hfirst
      · rw [hkey] at hexists
        cases hexists
      · rw [hvalue hphase he]
        exact (recorded_inWindow_iff period currentTimestamp).mpr hfirst
    · exact hbefore.expireAts conf identifier period currentTimestamp e he

theorem usesTables_iff {s : Store} {key : Text} : s.usesTables key = true
    ↔ (s.worker.curUsage key).isSome
      ∧ ∃ recorded, s.worker.curUsageExpireAt key = some recorded ∧ recorded > s.now := by
  unfold Store.usesTables
  cases s.worker.curUsage key with
  | none => simp
  | some usage =>
    cases s.worker.curUsageExpireAt key with
    | none => simp
    | some recorded => simp

theorem expiresWithWindow_usage_iff {s : Store} (conf : Conf) (identifier : Text)
    (period : Period) (currentTimestamp now : Nat) :
    ExpiresWithWindow luatz
        (s.step luatz (.run (.usage conf identifier period currentTimestamp now)))
      ↔ ExpiresWithWindow luatz s
        ∧ InTime luatz s (.run (.usage conf identifier period currentTimestamp now)) := by
  have hinTime : InTime luatz s (.run (.usage conf identifier period currentTimestamp now))
      ↔ (s.usesTables (getLocalKey conf identifier period
            (getTimestamps luatz currentTimestamp period)) = true →
          s.now ≤ windowEnd luatz period currentTimestamp + expiration period) := by
    rw [usesTables_iff]
    constructor
    · rintro hguard ⟨hsome, recorded, hrecorded, hlater⟩
      exact (hguard hsome recorded hrecorded).resolve_left (by omega)
    · intro hguard hsome recorded hrecorded
      by_cases hlater : recorded > s.now
      · exact .inr (hguard ⟨hsome, recorded, hrecorded, hlater⟩)
      · exact .inl (by omega)
  rw [hinTime]
  simp only [Store.step]
  generalize hkey : getLocalKey conf identifier period (getTimestamps luatz currentTimestamp period)
    = key
  by_cases huses : s.usesTables key = true
  · simp only [huses, if_true, true_implies]
    constructor
    · intro hafter
      refine ⟨⟨hafter.expireAts, fun conf' identifier' period' currentTimestamp' now' hmem => ?_⟩, ?_⟩
      · refine hafter.uses conf' identifier' period' currentTimestamp' now' ?_
        by_cases heq : getLocalKey conf' identifier' period'
            (getTimestamps luatz currentTimestamp' period') = key
        · rw [heq] at hmem ⊢
          simp [hmem]
        · simpa [Function.update_of_ne heq] using hmem
      · exact hafter.uses conf identifier period currentTimestamp s.now (by simp [hkey])
    · rintro ⟨hbefore, hnow⟩
      refine ⟨hbefore.expireAts, fun conf' identifier' period' currentTimestamp' now' hmem => ?_⟩
      by_cases heq : getLocalKey conf' identifier' period'
          (getTimestamps luatz currentTimestamp' period') = key
      · obtain ⟨rfl, hdate⟩ := key_window (heq.trans hkey.symm)
        simp only [heq, Function.update_self, List.mem_cons] at hmem
        rcases hmem with rfl | hmem
        · rwa [windowEnd_congr hdate]
        · exact hbefore.uses conf' identifier' _ currentTimestamp' now' (by rwa [heq])
      · simp only [Function.update_of_ne heq] at hmem
        exact hbefore.uses conf' identifier' period' currentTimestamp' now' hmem
  · simp only [huses, Bool.false_eq_true, if_false, false_implies, and_true]
    exact ⟨fun h => ⟨h.expireAts, h.uses⟩, fun h => ⟨h.expireAts, h.uses⟩⟩

/-- A step keeps the counters expiring with their windows exactly if it is
in time. -/
theorem expiresWithWindow_step_iff {s : Store} (h : FromUsage luatz s.worker) (action : Action) :
    ExpiresWithWindow luatz (s.step luatz action)
      ↔ ExpiresWithWindow luatz s ∧ InTime luatz s action := by
  have hsame : ∀ {s' : Store}, s'.expireAts = s.expireAts → s'.uses = s.uses →
      (ExpiresWithWindow luatz s' ↔ ExpiresWithWindow luatz s ∧ True) := by
    intro s' hexpireAts huses
    rw [and_true]
    exact ⟨fun h => ⟨hexpireAts ▸ h.expireAts, huses ▸ h.uses⟩,
      fun h => ⟨hexpireAts ▸ h.expireAts, huses ▸ h.uses⟩⟩
  cases action with
  | tick milliseconds => exact hsame rfl rfl
  | run event =>
    cases event with
    | commit plugin => exact expiresWithWindow_commit_iff h plugin
    | usage conf identifier period currentTimestamp now =>
      exact expiresWithWindow_usage_iff conf identifier period currentTimestamp now
    | _ => exact hsame rfl rfl

/-- **Synced counters expire with their window** exactly in the runs whose
steps are in time: no sync finds a counter gone from Redis. -/
theorem expires_with_window_iff (actions : List Action) :
    ExpiresWithWindow luatz (Run.exec (Store.step luatz) {} actions)
      ↔ Run.Guarded (Store.step luatz) (InTime luatz) {} actions := by
  suffices hall : ∀ s : Store, FromUsage luatz s.worker →
      (ExpiresWithWindow luatz (Run.exec (Store.step luatz) s actions)
        ↔ ExpiresWithWindow luatz s ∧ Run.Guarded (Store.step luatz) (InTime luatz) s actions) by
    have hinit : FromUsage luatz ({} : Store).worker := by
      refine ⟨fun key e h => ?_, fun call hcall => by cases hcall⟩
      rcases h with h | ⟨sync, hsync, -⟩
      · cases h
      · cases hsync
    refine (hall {} hinit).trans (and_iff_right ⟨?_, ?_⟩)
    · intro conf identifier period currentTimestamp e he
      cases he
    · intro conf identifier period currentTimestamp now hnow
      cases hnow
  induction actions with
  | nil => simp
  | cons action actions ih =>
    intro s h
    rw [Run.exec_cons, ih _ (fromUsage_storeStep h action), expiresWithWindow_step_iff h action,
      and_assoc, Run.guarded_cons]

/-- The first request of a client under a limit a minute, and a sync 61
seconds later. The counter that `usage` has made in Redis is gone by then,
and the new one is kept for tens of thousands of years. -/
theorem counter_outlives_window :
    let actions : List Action := .tick 1735689600000 :: firstRequest.map .run
      ++ [.tick 61000, .run (.fire (Bytes.ofText "a")), .run (.build (Bytes.ofText "a")),
        .run (.commit (Bytes.ofText "a"))]
    (Run.exec (Store.step Luatz.calendar) {} actions).expireAts sampleKey = [1735689600060]
    ∧ windowEnd Luatz.calendar .minute 1735689600000 + expiration .minute = 1735689720
    ∧ ¬ ExpiresWithWindow Luatz.calendar (Run.exec (Store.step Luatz.calendar) {} actions) := by
  intro actions
  have hset : (Run.exec (Store.step Luatz.calendar) {} actions).expireAts sampleKey
      = [1735689600060] := by decide +kernel
  have hend : windowEnd Luatz.calendar .minute 1735689600000 + expiration .minute
      = 1735689720 := by decide +kernel
  refine ⟨hset, hend, fun h => ?_⟩
  have hmem : 1735689600060
      ∈ (Run.exec (Store.step Luatz.calendar) {} actions).expireAts sampleKey := by simp [hset]
  have hwithin := (h.expireAts {} (Bytes.ofText "10.0.0.1") .minute 1735689600000 _ hmem).2
  omega

end KongGateway.Kong.Plugins.RateLimiting.RedisSync

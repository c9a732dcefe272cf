import KongGateway.Kong.Plugins.RateLimiting
import KongGateway.Lib.Run

/-!
# RedisSync — counters that are synced with Redis

Requests count in tables of the worker; a timer adds the pending deltas to
Redis and clears the tables. `usage` and `sync_to_redis` yield while they
wait for Redis. All instances of the plugin here use one Redis database,
and every operation of Redis succeeds.
-/

namespace KongGateway.Kong.Plugins.RateLimiting.RedisSync

open Tools.Timestamp

/-- A `usage` call that is at Redis with the lifetime of a counter, and what
it has read there. -/
structure Call where
  key : Text
  expireAt : Nat
  lifetime : Nat
  metric : Option Int := none
  deriving DecidableEq

/-- The scripts of a pipeline: for every key its delta, and what is recorded
of its expiration. -/
structure Pipeline where
  deltas : Text → Option Int
  expirations : Text → Option Nat

/-- Where a running `sync_to_redis` waits: for the connection, for Redis to
run the pipeline, or for its results and the keepalive. -/
inductive Phase where
  | connecting
  | committing (pipeline : Pipeline)
  | committed (pipeline : Pipeline)

structure Sync where
  plugin : Text
  phase : Phase

/-- A worker and the counters in Redis. `counted` is the number of requests
that have been counted under a key. -/
structure Worker where
  redis : Text → Int := fun _ => 0
  curUsage : Text → Option Int := fun _ => none
  curUsageExpireAt : Text → Option Nat := fun _ => none
  curDelta : Text → Option Int := fun _ => none
  calls : List Call := []
  pending : List Text := []
  running : List Sync := []
  counted : Text → Int := fun _ => 0

namespace Worker

variable (luatz : Luatz) (w : Worker)

/-- The running sync of an instance of the plugin. -/
def sync? (plugin : Text) : Option Sync := w.running.find? fun sync => sync.plugin = plugin

/-- The running syncs without that of an instance. -/
def others (plugin : Text) : List Sync := w.running.eraseP fun sync => sync.plugin = plugin

/-- What `usage` writes into the tables for a key. -/
def record (key : Text) (current : Int) (expireAt : Nat) (delta : Int) : Worker :=
  { w with
    curUsage := Function.update w.curUsage key (some current)
    curUsageExpireAt := Function.update w.curUsageExpireAt key (some expireAt)
    curDelta := Function.update w.curDelta key (some delta) }

/-- `usage` up to its first yield, with the result if it does not yield. -/
def usage (conf : Conf) (identifier : Text) (period : Period) (currentTimestamp now : Nat) :
    Option Int × Worker :=
  let periods := getTimestamps luatz currentTimestamp
  let key := getLocalKey conf identifier period (periods period)
  let expireAt := periods period + expiration period
  match w.curUsage key with
  | some current =>
    match w.curUsageExpireAt key with
    | some recorded =>
      if recorded > now then (some (current + (w.curDelta key).getD 0), w)
      else (some 0, w.record key 0 expireAt 0)
    -- nil is compared with a number, which raises an error
    | none => (none, w)
  | none => (none, { w with calls := ⟨key, expireAt, expiration period, none⟩ :: w.calls })

/-- Redis runs the script of a call. -/
def evaluate (call : Call) : Worker :=
  if call ∈ w.calls ∧ call.metric = none then
    { w with
      redis := Function.update w.redis call.key (w.redis call.key + 1)
      calls := { call with metric := some (w.redis call.key) } :: w.calls.erase call }
  else w

/-- `usage` after its last yield. -/
def finish (call : Call) : Worker :=
  if call ∈ w.calls then
    match call.metric with
    | some metric =>
      { w with calls := w.calls.erase call }.record call.key metric call.expireAt (-1)
    | none => w
  else w

/-- The keys under which a request is counted. -/
def keys (conf : Conf) (limits : Limits) (identifier : Text) (currentTimestamp : Nat) :
    List Text :=
  (Period.all.filter fun period => (limits period).isSome).map fun period =>
    getLocalKey conf identifier period (getTimestamps luatz currentTimestamp period)

/-- `update_local_counters` -/
def updateLocalCounters (conf : Conf) (limits : Limits) (identifier : Text)
    (currentTimestamp : Nat) (value : Int) : Worker :=
  { w with
    curDelta := (keys luatz conf limits identifier currentTimestamp).foldl (fun delta key =>
      Function.update delta key (some ((delta key).getD 0 + value))) w.curDelta }

/-- `rate_limited_sync`: a timer is started if none is pending. -/
def rateLimitedSync (plugin : Text) : Worker :=
  if plugin ∈ w.pending then w else { w with pending := plugin :: w.pending }

/-- `increment`; the request is counted. -/
def increment (plugin : Text) (conf : Conf) (limits : Limits) (identifier : Text)
    (currentTimestamp : Nat) : Worker :=
  { w with
    counted := fun key =>
      w.counted key + ((keys luatz conf limits identifier currentTimestamp).count key : Int)
    : Worker }
    |>.updateLocalCounters luatz conf limits identifier currentTimestamp 1
    |>.rateLimitedSync plugin

/-- A pending timer starts `sync_to_redis`, if none of its instance is
running. -/
def fire (plugin : Text) : Worker :=
  if plugin ∈ w.pending ∧ (w.sync? plugin).isNone then
    { w with pending := w.pending.erase plugin, running := ⟨plugin, .connecting⟩ :: w.running }
  else w

/-- `sync_to_redis` is connected and builds its pipeline. -/
def build (plugin : Text) : Worker :=
  match w.sync? plugin with
  | some ⟨_, .connecting⟩ =>
    { w with
      running := ⟨plugin, .committing ⟨w.curDelta, w.curUsageExpireAt⟩⟩ :: w.others plugin }
  | _ => w

/-- Redis runs the scripts of a pipeline. -/
def commit (plugin : Text) : Worker :=
  match w.sync? plugin with
  | some ⟨_, .committing pipeline⟩ =>
    { w with
      redis := fun key => w.redis key + (pipeline.deltas key).getD 0
      running := ⟨plugin, .committed pipeline⟩ :: w.others plugin }
  | _ => w

/-- `clear_local_counter` -/
def clearLocalCounter : Worker :=
  { w with
    curUsage := fun _ => none
    curUsageExpireAt := fun _ => none
    curDelta := fun _ => none }

/-- `sync_to_redis` ends. -/
def clear (plugin : Text) : Worker :=
  match w.sync? plugin with
  | some ⟨_, .committed _⟩ => { w.clearLocalCounter with running := w.others plugin }
  | _ => w

end Worker

/-! ## Runs -/

inductive Event where
  | usage (conf : Conf) (identifier : Text) (period : Period) (currentTimestamp now : Nat)
  | evaluate (call : Call)
  | finish (call : Call)
  | increment (plugin : Text) (conf : Conf) (limits : Limits) (identifier : Text)
      (currentTimestamp : Nat)
  | fire (plugin : Text)
  | build (plugin : Text)
  | commit (plugin : Text)
  | clear (plugin : Text)
  /-- A counter expires in Redis. -/
  | expire (key : Text)

variable (luatz : Luatz)

def step (w : Worker) : Event → Worker
  | .usage conf identifier period currentTimestamp now =>
    (w.usage luatz conf identifier period currentTimestamp now).2
  | .evaluate call => w.evaluate call
  | .finish call => w.finish call
  | .increment plugin conf limits identifier currentTimestamp =>
    w.increment luatz plugin conf limits identifier currentTimestamp
  | .fire plugin => w.fire plugin
  | .build plugin => w.build plugin
  | .commit plugin => w.commit plugin
  | .clear plugin => w.clear plugin
  | .expire key => { w with redis := Function.update w.redis key 0 }

/-- Nothing is pending for a key whose delta is overwritten; a key that is
counted has its expiration recorded; the deltas that are cleared are those
of the pipeline; no counter expires in Redis that has a value. -/
def Guard (w : Worker) : Event → Prop
  | .usage conf identifier period currentTimestamp now =>
    let key := getLocalKey conf identifier period (getTimestamps luatz currentTimestamp period)
    (w.curUsage key).isSome → ∀ recorded, w.curUsageExpireAt key = some recorded →
      recorded ≤ now → (w.curDelta key).getD 0 = 0
  | .finish call => call ∈ w.calls → call.metric.isSome → (w.curDelta call.key).getD 0 = 0
  | .increment _ conf limits identifier currentTimestamp =>
    ∀ key ∈ Worker.keys luatz conf limits identifier currentTimestamp,
      (w.curUsageExpireAt key).isSome
  | .clear plugin =>
    ∀ pipeline, (w.sync? plugin).map Sync.phase = some (.committed pipeline) →
      ∀ key, (w.curDelta key).getD 0 = (pipeline.deltas key).getD 0
  | .expire key => w.redis key = 0
  | _ => True

/-! ## The balance of a key -/

/-- The calls that have incremented a counter in Redis and not yet
compensated for it. -/
def inFlight (w : Worker) (key : Text) : Int :=
  (w.calls.countP fun call => call.key = key ∧ call.metric.isSome : Nat)

/-- What a running sync has added to a counter and not yet cleared. -/
def Sync.added (key : Text) (sync : Sync) : Int :=
  match sync.phase with
  | .committed pipeline => (pipeline.deltas key).getD 0
  | _ => 0

def added (w : Worker) (key : Text) : Int := (w.running.map (Sync.added key)).sum

/-- Every delta of a pipeline comes with its expiration. -/
def Pipeline.Complete (pipeline : Pipeline) : Prop :=
  ∀ key, (pipeline.deltas key).isSome → (pipeline.expirations key).isSome

def Phase.Complete : Phase → Prop
  | .connecting => True
  | .committing pipeline => pipeline.Complete
  | .committed pipeline => pipeline.Complete

/-- What is in Redis and what is pending make up the requests that have been
counted, up to what the calls and syncs that are under way have done. -/
structure Inv (w : Worker) : Prop where
  balance : ∀ key, w.redis key + (w.curDelta key).getD 0
    = w.counted key + inFlight w key + added w key
  recorded : ∀ key, (w.curDelta key).isSome → (w.curUsageExpireAt key).isSome
  complete : ∀ sync ∈ w.running, sync.phase.Complete

theorem running_perm {w : Worker} {plugin : Text} {sync : Sync} (h : w.sync? plugin = some sync) :
    w.running.Perm (sync :: w.others plugin) := by
  obtain ⟨hplugin, before, after, hrunning, hbefore⟩ := List.find?_eq_some_iff_append.mp h
  have hothers : w.others plugin = before ++ after := by
    unfold Worker.others
    rw [hrunning, List.eraseP_append_right _ (by simpa using hbefore),
      List.eraseP_cons_of_pos (by simpa using hplugin)]
  rw [hrunning, hothers]
  exact List.perm_middle

theorem added_of_sync {w : Worker} {plugin : Text} {sync : Sync}
    (h : w.sync? plugin = some sync) (key : Text) :
    added w key = sync.added key + ((w.others plugin).map (Sync.added key)).sum := by
  unfold added
  rw [((running_perm h).map _).sum_eq, List.map_cons, List.sum_cons]

theorem mem_running_of_sync {w : Worker} {plugin : Text} {sync : Sync}
    (h : w.sync? plugin = some sync) : sync ∈ w.running :=
  (running_perm h).mem_iff.mpr List.mem_cons_self

theorem mem_running_of_mem_others {w : Worker} {plugin : Text} {sync : Sync}
    (h : sync ∈ w.others plugin) : sync ∈ w.running :=
  List.eraseP_subset h

theorem inFlight_of_mem {w : Worker} {call : Call} (h : call ∈ w.calls) (key : Text) :
    inFlight w key = (if call.key = key ∧ call.metric.isSome then 1 else 0)
      + ((w.calls.erase call).countP fun other => other.key = key ∧ other.metric.isSome : Nat) := by
  unfold inFlight
  rw [(List.perm_cons_erase h).countP_eq, List.countP_cons]
  simp only [decide_eq_true_eq]
  split <;> push_cast <;> ring

theorem keys_foldl (keys : List Text) (delta : Text → Option Int) (key : Text) :
    (keys.foldl (fun delta key =>
        Function.update delta key (some ((delta key).getD 0 + 1))) delta key).getD 0
      = (delta key).getD 0 + (keys.count key : Int)
    ∧ ((keys.foldl (fun delta key =>
        Function.update delta key (some ((delta key).getD 0 + 1))) delta key).isSome
      ↔ (delta key).isSome ∨ key ∈ keys) := by
  induction keys generalizing delta with
  | nil => simp
  | cons head rest ih =>
    obtain ⟨hvalue, hsome⟩ := ih (Function.update delta head (some ((delta head).getD 0 + 1)))
    rw [List.foldl_cons]
    refine ⟨hvalue.trans ?_, hsome.trans ?_⟩
    · by_cases hkey : key = head
      · subst hkey
        simp only [Function.update_self, Option.getD_some, List.count_cons_self]
        push_cast
        ring
      · rw [Function.update_of_ne hkey, List.count_cons_of_ne (fun h => hkey h.symm)]
    · by_cases hkey : key = head
      · subst hkey
        simp
      · simp [hkey]

/-! ## What a step does to the balance -/

section Step

variable {luatz : Luatz} {w : Worker}

/-- The invariant after a delta has been overwritten, where `b` is what
was missing in the balance of the key. -/
theorem inv_record_iff {key : Text} {current delta b : Int} {expireAt : Nat}
    (hkey : w.redis key + (w.curDelta key).getD 0
      = w.counted key + inFlight w key + added w key + b)
    (hbalance : ∀ other ≠ key, w.redis other + (w.curDelta other).getD 0
      = w.counted other + inFlight w other + added w other)
    (hrecorded : ∀ key, (w.curDelta key).isSome → (w.curUsageExpireAt key).isSome)
    (hcomplete : ∀ sync ∈ w.running, sync.phase.Complete) :
    Inv (w.record key current expireAt delta) ↔ (w.curDelta key).getD 0 = delta + b := by
  have hflight : ∀ other, inFlight (w.record key current expireAt delta) other
      = inFlight w other := fun _ => rfl
  have hadded : ∀ other, added (w.record key current expireAt delta) other = added w other :=
    fun _ => rfl
  constructor
  · intro h
    have hnew := h.balance key
    rw [hflight, hadded] at hnew
    simp only [Worker.record, Function.update_self, Option.getD_some] at hnew
    omega
  · intro h
    refine ⟨fun other => ?_, fun other hother => ?_, hcomplete⟩
    · rw [hflight, hadded]
      by_cases heq : other = key
      · subst heq
        simp only [Worker.record, Function.update_self, Option.getD_some]
        omega
      · simp only [Worker.record, Function.update_of_ne heq]
        exact hbalance other heq
    · by_cases heq : other = key
      · simp [Worker.record, heq]
      · simp only [Worker.record, Function.update_of_ne heq] at hother ⊢
        exact hrecorded other hother

theorem inv_usage_iff (h : Inv w) (conf : Conf) (identifier : Text) (period : Period)
    (currentTimestamp now : Nat) :
    Inv (w.usage luatz conf identifier period currentTimestamp now).2
      ↔ Guard luatz w (.usage conf identifier period currentTimestamp now) := by
  unfold Worker.usage Guard
  simp only
  generalize getLocalKey conf identifier period (getTimestamps luatz currentTimestamp period) = key
  split
  · rename_i current hcurrent
    split
    · rename_i recorded hrecorded
      split
      · rename_i hlater
        refine iff_of_true h fun _ recorded' heq hle => ?_
        rw [hrecorded] at heq
        cases heq
        omega
      · rename_i hover
        refine (inv_record_iff (b := 0) (by rw [add_zero]; exact h.balance key)
          (fun other _ => h.balance other) h.recorded h.complete).trans ?_
        simp only [hcurrent, Option.isSome_some, hrecorded, Option.some.injEq, forall_eq',
          true_implies, add_zero]
        exact ⟨fun heq _ => heq, fun heq => heq (by omega)⟩
    · rename_i hrecorded
      refine iff_of_true h fun _ recorded heq => ?_
      rw [hrecorded] at heq
      cases heq
  · rename_i hcurrent
    refine iff_of_true ⟨fun other => ?_, h.recorded, h.complete⟩ fun hsome => ?_
    · have hflight : inFlight { w with calls := ⟨key, getTimestamps luatz currentTimestamp period
          + expiration period, expiration period, none⟩ :: w.calls } other = inFlight w other := by
        simp [inFlight]
      rw [hflight]
      exact h.balance other
    · rw [hcurrent] at hsome
      cases hsome

theorem inv_evaluate (h : Inv w) (call : Call) : Inv (w.evaluate call) := by
  unfold Worker.evaluate
  split
  · rename_i hcall
    refine ⟨fun key => ?_, h.recorded, h.complete⟩
    have hbalance := h.balance key
    have hflight : inFlight
        { w with
          redis := Function.update w.redis call.key (w.redis call.key + 1)
          calls := { call with metric := some (w.redis call.key) } :: w.calls.erase call } key
        = inFlight w key + if call.key = key then 1 else 0 := by
      rw [inFlight_of_mem hcall.1, inFlight, List.countP_cons]
      simp only [hcall.2, Option.isSome_none, Option.isSome_some, Bool.false_eq_true, and_false,
        and_true, if_false, decide_eq_true_eq]
      split <;> push_cast <;> ring
    rw [hflight]
    by_cases hkey : key = call.key
    · subst hkey
      simp only [Function.update_self, if_true]
      unfold added at *
      simp only at *
      omega
    · simp only [Function.update_of_ne hkey, if_neg (fun heq => hkey (Eq.symm heq))]
      unfold added at *
      simp only at *
      omega
  · exact h

theorem inv_finish_iff (h : Inv w) (call : Call) :
    Inv (w.finish call) ↔ Guard luatz w (.finish call) := by
  unfold Worker.finish Guard
  split
  · rename_i hmem
    split
    · rename_i metric hmetric
      have hflight : ∀ key, inFlight w key
          = inFlight { w with calls := w.calls.erase call } key
            + if call.key = key then 1 else 0 := by
        intro key
        rw [inFlight_of_mem hmem key, inFlight]
        simp only [hmetric, Option.isSome_some, and_true]
        ring
      refine (inv_record_iff (w := { w with calls := w.calls.erase call }) (b := 1) ?_ ?_ h.recorded
        h.complete).trans ?_
      · have hbalance := h.balance call.key
        rw [hflight, if_pos rfl] at hbalance
        unfold added at *
        simp only at *
        omega
      · intro other hother
        have hbalance := h.balance other
        rw [hflight, if_neg (fun heq => hother (Eq.symm heq)), add_zero] at hbalance
        exact hbalance
      · simp [hmem, hmetric]
    · rename_i hmetric
      simp [hmetric, h]
  · rename_i hmem
    simp [hmem, h]

theorem inv_rateLimitedSync_iff (plugin : Text) : Inv (w.rateLimitedSync plugin) ↔ Inv w := by
  unfold Worker.rateLimitedSync
  split
  · rfl
  · exact ⟨fun h => ⟨h.balance, h.recorded, h.complete⟩,
      fun h => ⟨h.balance, h.recorded, h.complete⟩⟩

theorem inv_increment_iff (h : Inv w) (plugin : Text) (conf : Conf) (limits : Limits)
    (identifier : Text) (currentTimestamp : Nat) :
    Inv (w.increment luatz plugin conf limits identifier currentTimestamp)
      ↔ Guard luatz w (.increment plugin conf limits identifier currentTimestamp) := by
  unfold Worker.increment Worker.updateLocalCounters
  rw [inv_rateLimitedSync_iff]
  simp only [Guard]
  generalize Worker.keys luatz conf limits identifier currentTimestamp = keys
  have hfold := keys_foldl keys w.curDelta
  constructor
  · intro hnew key hkey
    exact hnew.recorded key ((hfold key).2.mpr (.inr hkey))
  · intro hkeys
    refine ⟨fun key => ?_, fun key hkey => ?_, h.complete⟩
    · have hbalance := h.balance key
      simp only [(hfold key).1]
      unfold inFlight added at *
      simp only at *
      omega
    · rcases (hfold key).2.mp hkey with hsome | hmem
      · exact h.recorded key hsome
      · exact hkeys key hmem

theorem inv_fire (h : Inv w) (plugin : Text) : Inv (w.fire plugin) := by
  unfold Worker.fire
  split
  · refine ⟨fun key => ?_, h.recorded, fun sync hsync => ?_⟩
    · have hbalance := h.balance key
      unfold inFlight added at *
      simpa [Sync.added] using hbalance
    · rcases List.mem_cons.mp hsync with rfl | hsync
      · trivial
      · exact h.complete sync hsync
  · exact h

theorem inv_build (h : Inv w) (plugin : Text) : Inv (w.build plugin) := by
  unfold Worker.build
  split
  · rename_i name hsync
    refine ⟨fun key => ?_, h.recorded, fun sync hmem => ?_⟩
    · have hbalance := h.balance key
      rw [added_of_sync hsync] at hbalance
      unfold inFlight added at *
      simpa [Sync.added] using hbalance
    · rcases List.mem_cons.mp hmem with rfl | hmem
      · exact h.recorded
      · exact h.complete sync (mem_running_of_mem_others hmem)
  · exact h

theorem inv_commit (h : Inv w) (plugin : Text) : Inv (w.commit plugin) := by
  unfold Worker.commit
  split
  · rename_i name pipeline hsync
    refine ⟨fun key => ?_, h.recorded, fun sync hmem => ?_⟩
    · have hbalance := h.balance key
      rw [added_of_sync hsync] at hbalance
      unfold inFlight added at *
      simp only [Sync.added, List.map_cons, List.sum_cons] at *
      omega
    · rcases List.mem_cons.mp hmem with rfl | hmem
      · have hcomplete := h.complete _ (mem_running_of_sync hsync)
        exact hcomplete
      · exact h.complete sync (mem_running_of_mem_others hmem)
  · exact h

theorem inv_clear_iff (h : Inv w) (plugin : Text) :
    Inv (w.clear plugin) ↔ Guard luatz w (.clear plugin) := by
  unfold Worker.clear
  simp only [Guard]
  split
  · rename_i name pipeline hsync
    rw [hsync, Option.map_some]
    simp only [Option.some.injEq, Phase.committed.injEq, forall_eq']
    have hadded : ∀ key, added w key = (pipeline.deltas key).getD 0
        + added { w.clearLocalCounter with running := w.others plugin } key :=
      fun key => added_of_sync hsync key
    have hflight : ∀ key, inFlight { w.clearLocalCounter with running := w.others plugin } key
        = inFlight w key := fun _ => rfl
    constructor
    · intro hnew key
      have hbalance := h.balance key
      have hbalance' := hnew.balance key
      rw [hadded] at hbalance
      rw [hflight] at hbalance'
      simp only [Worker.clearLocalCounter, Option.getD_none] at hbalance hbalance'
      omega
    · intro hdeltas
      refine ⟨fun key => ?_, fun key hkey => ?_, fun sync hmem =>
        h.complete sync (mem_running_of_mem_others hmem)⟩
      · have hbalance := h.balance key
        rw [hadded, hdeltas key] at hbalance
        rw [hflight]
        simp only [Worker.clearLocalCounter, Option.getD_none] at hbalance ⊢
        omega
      · cases hkey
  · rename_i hnone
    refine iff_of_true h fun pipeline heq => ?_
    obtain ⟨⟨name, phase⟩, hsync, hphase⟩ := Option.map_eq_some_iff.mp heq
    cases hphase
    exact absurd hsync (hnone name pipeline)

theorem inv_expire_iff (h : Inv w) (key : Text) :
    Inv (step luatz w (.expire key)) ↔ Guard luatz w (.expire key) := by
  simp only [step, Guard]
  constructor
  · intro hnew
    have hbalance := h.balance key
    have hbalance' := hnew.balance key
    unfold inFlight added at *
    simp only [Function.update_self] at hbalance'
    omega
  · intro hzero
    rw [show Function.update w.redis key 0 = w.redis by rw [← hzero, Function.update_eq_self]]
    exact h

theorem inv_step_iff (h : Inv w) (event : Event) :
    Inv (step luatz w event) ↔ Guard luatz w event := by
  cases event with
  | usage conf identifier period currentTimestamp now =>
    exact inv_usage_iff h conf identifier period currentTimestamp now
  | evaluate call => exact iff_of_true (inv_evaluate h call) trivial
  | finish call => exact inv_finish_iff h call
  | increment plugin conf limits identifier currentTimestamp =>
    exact inv_increment_iff h plugin conf limits identifier currentTimestamp
  | fire plugin => exact iff_of_true (inv_fire h plugin) trivial
  | build plugin => exact iff_of_true (inv_build h plugin) trivial
  | commit plugin => exact iff_of_true (inv_commit h plugin) trivial
  | clear plugin => exact inv_clear_iff h plugin
  | expire key => exact inv_expire_iff h key

end Step

theorem inv_init : Inv {} :=
  ⟨fun _ => rfl, fun _ hsome => (nomatch hsome), fun _ hsync => (nomatch hsync)⟩

/-- What is in Redis and what is pending make up the requests that have been
counted, when no sync is running and no call of the key is between its
increment in Redis and its end. Every pending delta has its expiration
recorded, also in the pipelines. -/
structure Settled (w : Worker) : Prop where
  balance : ∀ key, w.running = [] → (∀ call ∈ w.calls, call.key = key → call.metric = none) →
    w.redis key + (w.curDelta key).getD 0 = w.counted key
  recorded : ∀ key, (w.curDelta key).isSome → (w.curUsageExpireAt key).isSome
  complete : ∀ sync ∈ w.running, sync.phase.Complete

theorem Inv.settled {w : Worker} (h : Inv w) : Settled w := by
  refine ⟨fun key hrunning hcalls => ?_, h.recorded, h.complete⟩
  have hflight : inFlight w key = 0 := by
    unfold inFlight
    rw [Int.natCast_eq_zero, List.countP_eq_zero]
    intro call hcall
    simp only [decide_eq_true_eq, not_and, Bool.not_eq_true, Option.isSome_eq_false_iff,
      Option.isNone_iff_eq_none]
    exact hcalls call hcall
  have hadded : added w key = 0 := by
    unfold added
    rw [hrunning]
    rfl
  have hbalance := h.balance key
  omega

/-- In a run whose steps meet the guard no request is lost; such runs are
exactly those that keep the balance at every step. -/
theorem no_request_lost (events : List Event) :
    (Run.Guarded (step luatz) (Guard luatz) {} events →
      Settled (Run.exec (step luatz) {} events))
    ∧ (Run.Guarded (step luatz) (Guard luatz) {} events
      ↔ ∀ pre, pre <+: events → Inv (Run.exec (step luatz) {} pre)) := by
  have hstep : ∀ w event, Inv w → Guard luatz w event → Inv (step luatz w event) :=
    fun _ event hinv hguard => (inv_step_iff hinv event).mpr hguard
  have hrun : ∀ events, Run.Guarded (step luatz) (Guard luatz) {} events →
      Inv (Run.exec (step luatz) {} events) := fun _ h => h.invariant hstep inv_init
  refine ⟨fun h => (hrun events h).settled, ?_, fun h => ?_⟩
  · rintro h pre ⟨post, rfl⟩
    exact hrun pre (Run.guarded_append.mp h).1
  · refine Run.Guarded.of_prefix fun pre event hpre => ?_
    have hbefore := h pre ((List.prefix_append pre [event]).trans hpre)
    have hafter := h (pre ++ [event]) hpre
    rw [Run.exec_append] at hafter
    exact (inv_step_iff hbefore event).mp hafter

/-- The steps of a sync. -/
def syncSteps (plugin : Text) : List Event :=
  [.fire plugin, .build plugin, .commit plugin, .clear plugin]

theorem guarded_syncSteps {w : Worker} {plugin : Text} (hidle : w.sync? plugin = none) :
    Run.Guarded (step luatz) (Guard luatz) w (syncSteps plugin) := by
  refine ⟨trivial, trivial, trivial, fun pipeline hphase key => ?_, trivial⟩
  by_cases hpending : plugin ∈ w.pending
  · have hfire : w.fire plugin
        = { w with
            pending := w.pending.erase plugin
            running := ⟨plugin, .connecting⟩ :: w.running } := by
      rw [Worker.fire, hidle]
      exact if_pos ⟨hpending, rfl⟩
    simp only [step, hfire, Worker.build, Worker.commit, Worker.sync?, List.find?_cons,
      decide_true, Option.map_some, Option.some.injEq, Phase.committed.injEq] at hphase ⊢
    rw [← hphase]
  · have hfire : w.fire plugin = w := if_neg fun h => hpending h.1
    simp only [step, hfire, Worker.build, Worker.commit, hidle, Option.map_none] at hphase
    cases hphase

/-! ## Requests of a client -/

/-- The minute of a client, on 1 January 2025 at midnight. -/
def sampleKey : Text :=
  getLocalKey {} (Bytes.ofText "10.0.0.1") .minute
    (getTimestamps Luatz.calendar 1735689600000 .minute)

/-- What the first request of the client does. -/
def firstRequest : List Event :=
  [.usage {} (Bytes.ofText "10.0.0.1") .minute 1735689600000 1735689600,
    .evaluate ⟨sampleKey, 1735689600060, 60, none⟩,
    .finish ⟨sampleKey, 1735689600060, 60, some 0⟩,
    .increment (Bytes.ofText "a") {} (limitOf .minute 5) (Bytes.ofText "10.0.0.1") 1735689600000]

/-- What a further request does, with the usage in the tables. -/
def nextRequest : List Event :=
  [.usage {} (Bytes.ofText "10.0.0.1") .minute 1735689600000 1735689600,
    .increment (Bytes.ofText "a") {} (limitOf .minute 5) (Bytes.ofText "10.0.0.1") 1735689600000]

/-- A request with a sync after it. -/
theorem request_synced :
    Settled (Run.exec (step Luatz.calendar) {} (firstRequest ++ syncSteps (Bytes.ofText "a")))
      ∧ (Run.exec (step Luatz.calendar) {} (firstRequest ++ syncSteps (Bytes.ofText "a"))).redis
        sampleKey = 1 := by
  have hguarded : Run.Guarded (step Luatz.calendar) (Guard Luatz.calendar) {}
      (firstRequest ++ syncSteps (Bytes.ofText "a")) := by
    refine Run.guarded_append.mpr ⟨⟨fun hsome => (nomatch hsome), trivial, fun _ _ => ?_, ?_,
      trivial⟩, guarded_syncSteps _ ?_⟩
    · decide +kernel
    · change ∀ key ∈ Worker.keys Luatz.calendar {} (limitOf .minute 5) (Bytes.ofText "10.0.0.1")
        1735689600000, (Option.isSome _ = true)
      decide +kernel
    · exact Option.isNone_iff_eq_none.mp (by decide +kernel)
  exact ⟨(no_request_lost _ _).1 hguarded, by decide +kernel⟩

/-- A request that comes while the pipeline is under way is cleared with the
tables. -/
theorem request_lost :
    ¬ Settled (Run.exec (step Luatz.calendar) {} (firstRequest
      ++ [.fire (Bytes.ofText "a"), .build (Bytes.ofText "a")] ++ nextRequest
      ++ [.commit (Bytes.ofText "a"), .clear (Bytes.ofText "a")])) := by
  intro h
  have hbalance := h.balance sampleKey (List.eq_nil_of_length_eq_zero (by decide +kernel))
    (by decide +kernel)
  revert hbalance
  decide +kernel

end KongGateway.Kong.Plugins.RateLimiting.RedisSync

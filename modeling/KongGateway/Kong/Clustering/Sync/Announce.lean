import Mathlib.Data.String.Basic
import KongGateway.Lib.Run

/-!
# Announce — announced versions on a data plane

The control plane announces new versions with `notify_new_version`. A
data plane records the version it was told last and schedules
`sync_once_impl` on a named timer, unless one is there already; a run
that does not reach the recorded version tries again on an unnamed
timer, a limited number of times. Versions are compared as strings.
-/

namespace KongGateway.Kong.Clustering.Announce

/-- `MAX_RETRY`. -/
def maxRetry : Nat := 5

/-- Where a `sync_once_impl` is: on its timer, in `do_sync` with the
mutex, or behind it, perhaps because the mutex was taken. -/
inductive RunPhase where
  | scheduled
  | syncing
  | synced (timedOut : Bool)
  deriving DecidableEq, Repr

structure Task where
  named : Bool
  retryCount : Nat
  phase : RunPhase
  deriving DecidableEq, Repr

/-- A data plane: the version in LMDB, the one recorded in shared memory,
the mutex and the runs of `sync_once_impl`. For the record it has the
versions announced so far, and whether a run has used up its retries
since the last one. -/
structure DataPlane where
  lmdb : String
  latest : Option String := none
  mutex : Bool := false
  tasks : List Task := []
  announced : List String := []
  exhausted : Bool := false
  deriving DecidableEq, Repr

/-- A version is announced; `sync_once` is called for another reason; a
timer fires; `do_sync` returns, with the version it has stored if it has
stored one; a run comes to its end. `timer` tells whether a timer can be
created. -/
inductive Input where
  | announce (version : String) (timer : Bool)
  | syncOnce (timer : Bool)
  | start (k : Nat)
  | store (k : Nat) (version : Option String)
  | finish (k : Nat) (timer : Bool)
  deriving DecidableEq, Repr

namespace DataPlane

/-- `kong.timer:is_managed("rpc_sync_v2_once")`. -/
def isManaged (dp : DataPlane) : Bool := dp.tasks.any Task.named

/-- `sync_once`. -/
def syncOnce (dp : DataPlane) (timer : Bool) : DataPlane :=
  if dp.isManaged then dp
  else if timer then { dp with tasks := dp.tasks ++ [⟨true, 0, .scheduled⟩] }
  else dp

/-- The handler of `kong.sync.v2.notify_new_version`. -/
def notifyNewVersion (dp : DataPlane) (version : String) (timer : Bool) : DataPlane :=
  let dp := { dp with announced := version :: dp.announced, exhausted := false }
  if dp.lmdb < version then ({ dp with latest := some version } : DataPlane).syncOnce timer
  else dp

/-- The end of `sync_once_impl`, after `sync_handler`. -/
def finish (dp : DataPlane) (k : Nat) (task : Task) (timedOut timer : Bool) : DataPlane :=
  let ended := { dp with tasks := dp.tasks.eraseIdx k }
  match dp.latest with
  | none => ended
  | some latest =>
    if latest ≤ dp.lmdb then ended
    else if task.retryCount ≥ maxRetry then { ended with exhausted := true }
    else
      -- a timed out sync is not counted
      let retryCount := if timedOut then task.retryCount else task.retryCount + 1
      if timer then { dp with tasks := dp.tasks.set k ⟨false, retryCount, .scheduled⟩ }
      else ended

def step (dp : DataPlane) : Input → DataPlane
  | .announce version timer => dp.notifyNewVersion version timer
  | .syncOnce timer => dp.syncOnce timer
  | .start k =>
    match dp.tasks[k]? with
    | some ⟨named, retryCount, .scheduled⟩ =>
      if dp.mutex then
        { dp with tasks := dp.tasks.set k ⟨named, retryCount, .synced true⟩ }
      else
        { dp with mutex := true, tasks := dp.tasks.set k ⟨named, retryCount, .syncing⟩ }
    | _ => dp
  | .store k version =>
    match dp.tasks[k]? with
    | some ⟨named, retryCount, .syncing⟩ =>
      { dp with
        lmdb := version.getD dp.lmdb
        mutex := false
        tasks := dp.tasks.set k ⟨named, retryCount, .synced false⟩ }
    | _ => dp
  | .finish k timer =>
    match dp.tasks[k]? with
    | some ⟨named, retryCount, .synced timedOut⟩ =>
      dp.finish k ⟨named, retryCount, .synced timedOut⟩ timedOut timer
    | _ => dp

/-- **Nothing is forgotten**: with no sync running or scheduled, every
announced version is reached or the retries are used up. -/
def Remembered (dp : DataPlane) : Prop :=
  dp.tasks = [] → (∀ version ∈ dp.announced, version ≤ dp.lmdb) ∨ dp.exhausted

/-- The recorded version is not below the one recorded before. -/
def Advances (before after : DataPlane) : Prop :=
  ∀ version, before.latest = some version → ∃ version', after.latest = some version'
    ∧ version ≤ version'

/-- Announcements come in order; a sync stores a version below the one
there only where the highest announced version is recorded; timers can be
created. -/
def InOrder (dp : DataPlane) : Input → Prop
  | .announce version timer => (∀ latest, dp.latest = some latest → latest ≤ version)
      ∧ (dp.lmdb < version → dp.isManaged = false → timer)
  | .syncOnce _ => True
  | .start _ => True
  | .store _ version => ∀ stored, version = some stored → dp.lmdb ≤ stored
      ∨ ∀ announced ∈ dp.announced, ∃ latest, dp.latest = some latest ∧ announced ≤ latest
  | .finish _ timer => timer

/-! ## The invariant -/

/-- An announced version is reached or recorded, and a recorded version is
reached, pursued or given up. -/
structure Inv (dp : DataPlane) : Prop where
  known : ∀ version ∈ dp.announced, version ≤ dp.lmdb
    ∨ ∃ latest, dp.latest = some latest ∧ version ≤ latest
  pursued : dp.tasks = [] → dp.exhausted ∨ ∀ latest, dp.latest = some latest → latest ≤ dp.lmdb

theorem Inv.init (lmdb : String) : Inv { lmdb := lmdb } := by
  constructor
  · intro version hmem
    cases hmem
  · exact fun _ => .inr fun latest hlatest => by cases hlatest

theorem Inv.remembered {dp : DataPlane} (h : Inv dp) : dp.Remembered := by
  intro hidle
  rcases h.pursued hidle with hexhausted | hreached
  · exact .inr hexhausted
  · refine .inl fun version hmem => ?_
    rcases h.known version hmem with hle | ⟨latest, hlatest, hle⟩
    · exact hle
    · exact hle.trans (hreached latest hlatest)

theorem syncOnce_eq (dp : DataPlane) (timer : Bool) :
    ∃ tasks, dp.syncOnce timer = { dp with tasks := tasks } ∧ (tasks = [] → dp.tasks = [])
      ∧ ((dp.isManaged = false → timer) → tasks ≠ []) := by
  unfold syncOnce
  split
  · rename_i hmanaged
    refine ⟨dp.tasks, rfl, id, fun _ hnil => ?_⟩
    rw [isManaged, hnil] at hmanaged
    cases hmanaged
  · rename_i hmanaged
    split
    · exact ⟨_, rfl, fun hnil => by simp at hnil, fun _ => by simp⟩
    · rename_i htimer
      exact ⟨dp.tasks, rfl, id, fun hroom => absurd (hroom (by simpa using hmanaged)) htimer⟩

theorem Inv.announce {dp : DataPlane} (h : Inv dp) {version : String} {timer : Bool}
    (horder : dp.InOrder (.announce version timer)) : Inv (dp.notifyNewVersion version timer) := by
  obtain ⟨hlatest, htimer⟩ := horder
  unfold notifyNewVersion
  dsimp only
  split
  · rename_i hlt
    obtain ⟨tasks, heq, -, hne⟩ := syncOnce_eq
      { dp with announced := version :: dp.announced, exhausted := false, latest := some version }
      timer
    rw [heq]
    refine ⟨?_, fun hnil => absurd hnil (hne (htimer hlt))⟩
    intro announced hmem
    rcases List.mem_cons.mp hmem with rfl | hmem
    · exact .inr ⟨announced, rfl, le_rfl⟩
    · rcases h.known announced hmem with hle | ⟨latest, hsome, hle⟩
      · exact .inl hle
      · exact .inr ⟨version, rfl, hle.trans (hlatest latest hsome)⟩
  · rename_i hge
    have hreached : version ≤ dp.lmdb := not_lt.mp hge
    refine ⟨?_, fun _ => .inr fun latest hsome => (hlatest latest hsome).trans hreached⟩
    intro announced hmem
    rcases List.mem_cons.mp hmem with rfl | hmem
    · exact .inl hreached
    · exact h.known announced hmem

theorem Inv.finish {dp : DataPlane} (h : Inv dp) {k : Nat} {task : Task}
    (hk : dp.tasks[k]? = some task) (timedOut : Bool) :
    Inv (dp.finish k task timedOut true) := by
  have hset : ∀ task', dp.tasks.set k task' ≠ [] := by
    intro task' hnil
    rw [List.set_eq_nil_iff] at hnil
    rw [hnil] at hk
    cases hk
  unfold DataPlane.finish
  dsimp only
  split
  · rename_i hlatest
    refine ⟨h.known, fun _ => .inr fun latest hsome => ?_⟩
    cases hlatest.symm.trans hsome
  · rename_i latest hlatest
    split
    · rename_i hreached
      refine ⟨h.known, fun _ => .inr fun latest' hsome => ?_⟩
      obtain rfl := Option.some.inj (hlatest.symm.trans hsome)
      exact hreached
    · split
      · exact ⟨h.known, fun _ => .inl rfl⟩
      · exact ⟨h.known, fun hnil => absurd hnil (hset _)⟩

theorem Inv.step {dp : DataPlane} (h : Inv dp) (input : Input) (horder : dp.InOrder input) :
    Inv (dp.step input) := by
  have hset : ∀ {k : Nat} {task : Task} (task' : Task), dp.tasks[k]? = some task →
      dp.tasks.set k task' ≠ [] := by
    intro k task task' hk hnil
    rw [List.set_eq_nil_iff] at hnil
    rw [hnil] at hk
    cases hk
  cases input with
  | announce version timer => exact h.announce horder
  | syncOnce timer =>
    obtain ⟨tasks, heq, hnil, -⟩ := syncOnce_eq dp timer
    rw [DataPlane.step, heq]
    exact ⟨h.known, fun hempty => h.pursued (hnil hempty)⟩
  | start k =>
    dsimp only [DataPlane.step]
    split
    · rename_i hk
      split
      · exact ⟨h.known, fun hempty => absurd hempty (hset _ hk)⟩
      · exact ⟨h.known, fun hempty => absurd hempty (hset _ hk)⟩
    · exact h
  | store k version =>
    dsimp only [DataPlane.step]
    split
    · rename_i hk
      refine ⟨?_, fun hempty => absurd hempty (hset _ hk)⟩
      intro announced hmem
      cases version with
      | none => exact h.known announced hmem
      | some stored =>
        rcases horder stored rfl with hle | hrecorded
        · rcases h.known announced hmem with hknown | hlatest
          · exact .inl (hknown.trans hle)
          · exact .inr hlatest
        · exact .inr (hrecorded announced hmem)
    · exact h
  | finish k timer =>
    obtain rfl : timer = true := horder
    dsimp only [DataPlane.step]
    split
    · rename_i timedOut hk
      exact h.finish hk timedOut
    · exact h

/-! ## The recorded version -/

theorem advances_refl {before after : DataPlane} (h : after.latest = before.latest) :
    Advances before after :=
  fun version hsome => ⟨version, h.trans hsome, le_rfl⟩

theorem latest_finish (dp : DataPlane) (k : Nat) (task : Task) (timedOut timer : Bool) :
    (dp.finish k task timedOut timer).latest = dp.latest := by
  unfold DataPlane.finish
  dsimp only
  split
  · rfl
  · split
    · rfl
    · split
      · rfl
      · split <;> rfl

theorem advances_step (dp : DataPlane) (input : Input) (horder : dp.InOrder input) :
    Advances dp (dp.step input) := by
  cases input with
  | announce version timer =>
    dsimp only [DataPlane.step, notifyNewVersion]
    split
    · obtain ⟨tasks, heq, -, -⟩ := syncOnce_eq
        { dp with announced := version :: dp.announced, exhausted := false,
                  latest := some version } timer
      rw [heq]
      exact fun latest hsome => ⟨version, rfl, horder.1 latest hsome⟩
    · exact advances_refl rfl
  | syncOnce timer =>
    obtain ⟨tasks, heq, -, -⟩ := syncOnce_eq dp timer
    rw [DataPlane.step, heq]
    exact advances_refl rfl
  | start k =>
    dsimp only [DataPlane.step]
    split
    · split <;> exact advances_refl rfl
    · exact advances_refl rfl
  | store k version =>
    dsimp only [DataPlane.step]
    split <;> exact advances_refl rfl
  | finish k timer =>
    dsimp only [DataPlane.step]
    split
    · exact advances_refl (latest_finish dp k _ _ timer)
    · exact advances_refl rfl

end DataPlane

/-! ## Every run -/

open Announce.DataPlane

/-- In every run in which announcements come in order, the recorded
version never decreases and no announced version is forgotten. -/
theorem announced_versions_remembered (lmdb : String) (inputs : List Input)
    (h : Run.Guarded DataPlane.step InOrder { lmdb := lmdb } inputs) :
    (Run.exec DataPlane.step { lmdb := lmdb } inputs).Remembered
      ∧ ∀ before input, before ++ [input] <+: inputs →
        Advances (Run.exec DataPlane.step { lmdb := lmdb } before)
          (Run.exec DataPlane.step { lmdb := lmdb } (before ++ [input])) := by
  constructor
  · have hinv : (Run.exec DataPlane.step { lmdb := lmdb } inputs).Inv :=
      Run.Guarded.invariant (fun dp input (hdp : dp.Inv) horder => hdp.step input horder)
        (Inv.init lmdb) h
    exact hinv.remembered
  · rintro before input ⟨after, rfl⟩
    rw [Run.guarded_append, Run.guarded_append] at h
    obtain ⟨⟨-, horder, -⟩, -⟩ := h
    rw [Run.exec_append]
    exact advances_step _ input horder

/-- The versions 0, 1 and 2 of a control plane. -/
def version0 : String := "v02_0000000000000000000000000000"
def version1 : String := "v02_0000000000000000000000000001"
def version2 : String := "v02_0000000000000000000000000002"

/-- Two announcements in order, the second during the sync for the first,
and a retry. -/
theorem second_announcement_remembered :
    (Run.exec DataPlane.step { lmdb := version0 }
      [.announce version1 true, .start 0, .announce version2 true, .store 0 (some version1),
        .finish 0 true, .start 0, .store 0 (some version2), .finish 0 true]).tasks = []
      ∧ (Run.exec DataPlane.step { lmdb := version0 }
        [.announce version1 true, .start 0, .announce version2 true, .store 0 (some version1),
          .finish 0 true, .start 0, .store 0 (some version2), .finish 0 true]).Remembered := by
  refine ⟨by decide, (announced_versions_remembered version0 _ ?_).1⟩
  refine ⟨⟨?_, fun _ _ => rfl⟩, trivial, ⟨?_, fun _ _ => rfl⟩, ?_, rfl, trivial, ?_, rfl, trivial⟩
  · intro latest hsome
    cases hsome
  · intro latest hsome
    obtain rfl : version1 = latest := Option.some.inj (Eq.trans (by decide) hsome)
    decide
  · intro stored hstored
    obtain rfl := Option.some.inj hstored
    exact .inl (by decide)
  · intro stored hstored
    obtain rfl := Option.some.inj hstored
    exact .inl (by decide)

/-- The announcement of version 1 overtakes that of version 2: the
recorded version goes back, and a sync to version 1 is taken for
enough. -/
theorem late_announcement_is_recorded :
    ¬ (Advances (Run.exec DataPlane.step { lmdb := version0 } [.announce version2 true])
        (Run.exec DataPlane.step { lmdb := version0 }
          [.announce version2 true, .announce version1 true])
      ∨ (Run.exec DataPlane.step { lmdb := version0 }
          [.announce version2 true, .announce version1 true, .start 0,
            .store 0 (some version1), .finish 0 true]).Remembered) := by
  rintro (hadvances | hremembered)
  · obtain ⟨version, hsome, hle⟩ := hadvances version2 (by decide)
    obtain rfl : version1 = version := Option.some.inj (Eq.trans (by decide) hsome)
    exact absurd hle (by decide)
  · rcases hremembered (by decide) with hreached | hexhausted
    · exact absurd (hreached version2 (by decide)) (by decide)
    · exact absurd hexhausted (by decide)

end KongGateway.Kong.Clustering.Announce

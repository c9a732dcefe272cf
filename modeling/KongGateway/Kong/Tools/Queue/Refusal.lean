import KongGateway.Lib.MapM
import KongGateway.Kong.Tools.Queue

/-!
# Refusal — what a refused entry costs

`enqueue` takes any Lua value and refuses `nil`, an entry whose timer
cannot be made when concurrency is unlimited, and a string longer than
`max_bytes`. Room for one more entry is made before the length of the
entry is looked at, room for its bytes only after that.
-/

namespace KongGateway.Kong.Tools

/-! ## A queue of any values -/

/-- A Lua value; `other` has no length. -/
inductive LuaValue where
  | nil
  | text (content : String)
  | table (length : Nat)
  | other
  deriving DecidableEq, Repr

/-- `#value`. -/
def LuaValue.length : LuaValue → Except String Nat
  | .text content => .ok content.length
  | .table length => .ok length
  | .nil => .error "attempt to get length of a nil value"
  | .other => .error "attempt to get length of a value"

structure ValueQueue where
  table : TableQueue LuaValue
  bytesQueued : Int
  resources : Nat

namespace ValueQueue

def count (q : ValueQueue) : Nat := q.table.count

section Capacity

variable (conf : QueueConf) (q : ValueQueue)

/-- `_remaining_capacity`. -/
def remainingCapacity : Except String (Int × Option Int) :=
  let remainingEntries : Int := conf.maxEntries - q.count
  if remainingEntries < 0 then .error "queue should not be over capacity"
  else
    match conf.maxBytes with
    | none => .ok (remainingEntries, none)
    | some maxBytes =>
      let remainingBytes := maxBytes - q.bytesQueued
      if remainingBytes < 0 then .error "queue should not be over capacity"
      else .ok (remainingEntries, some remainingBytes)

/-- `_is_reaching_max_entries`. -/
def isReachingMaxEntries : Except String Bool := do
  let (remainingEntries, _) ← remainingCapacity conf q
  pure (decide (remainingEntries = 0))

/-- `_will_exceed_max_entries`. -/
def willExceedMaxEntries : Except String Bool := do
  let (remainingEntries, _) ← remainingCapacity conf q
  pure (decide (remainingEntries - 1 < 0))

/-- `_is_entry_too_large`. -/
def isEntryTooLarge : LuaValue → Bool
  | .text content =>
    match conf.maxBytes with
    | none => false
    | some maxBytes => decide (maxBytes < content.length)
  | _ => false

/-- `_is_reaching_max_bytes`. -/
def isReachingMaxBytes : Except String Bool :=
  if conf.maxBytes.isNone then .ok false
  else do
    let (_, remainingBytes) ← remainingCapacity conf q
    pure (decide (remainingBytes = some 0))

/-- `_will_exceed_max_bytes`. -/
def willExceedMaxBytes : LuaValue → Except String Bool
  | .text content =>
    if conf.maxBytes.isNone then .ok false
    else do
      let (_, remainingBytes) ← remainingCapacity conf q
      pure (decide (remainingBytes.getD 0 < content.length))
  | _ => .ok false

/-- `_is_full`. -/
def isFull : Except String Bool := do
  if ← isReachingMaxEntries conf q then pure true else isReachingMaxBytes conf q

/-- `_can_enqueue`. -/
def canEnqueue (entry : LuaValue) : Except String Bool := do
  if ← isFull conf q then pure false
  else if isEntryTooLarge conf entry then pure false
  else if ← willExceedMaxEntries conf q then pure false
  else
    let exceeds ← willExceedMaxBytes conf q entry
    pure !exceeds

end Capacity

section Producers

variable (conf : QueueConf) (waiters : Nat)

/-- `self.semaphore:count()`. -/
def semaphoreCount (q : ValueQueue) : Int := q.resources - waiters

/-- `delete_frontmost_entry`. -/
def deleteFrontmostEntry (q : ValueQueue) : Except String ValueQueue := do
  let bytesQueued ←
    if conf.maxBytes.isSome then do
      let length ← (q.table.head?.getD .nil).length
      pure (q.bytesQueued - length)
    else pure q.bytesQueued
  pure { q with bytesQueued, table := q.table.pop }

/-- `drop_oldest_entry`. -/
def dropOldestEntry (q : ValueQueue) : Except String ValueQueue :=
  if 0 < semaphoreCount waiters q then
    deleteFrontmostEntry conf { q with resources := q.resources - 1 }
  else .error "assertion failed!"

/-- The `repeat` loop that makes room for the bytes of the entry; it raises
at the latest when no entry is left. -/
def dropUntilFits (entry : LuaValue) : Nat → ValueQueue → Except String ValueQueue
  | 0, _ => .error "attempt to get length of a nil value"
  | fuel + 1, q => do
    let q ← dropOldestEntry conf waiters q
    if ← willExceedMaxBytes conf q entry then dropUntilFits entry fuel q else pure q

/-- The room that `enqueue` makes when the queue is at its entry limit. -/
def makeRoom (q : ValueQueue) : Except String ValueQueue := do
  if ← isReachingMaxEntries conf q then dropOldestEntry conf waiters q else pure q

/-- The room that it makes for the bytes of the entry. -/
def makeByteRoom (entry : LuaValue) (q : ValueQueue) : Except String ValueQueue := do
  if ← willExceedMaxBytes conf q entry then dropUntilFits conf waiters entry (q.count + 1) q
  else pure q

/-- The entry is put at the back and posted. -/
def appendEntry (entry : LuaValue) (q : ValueQueue) : Except String ValueQueue := do
  let bytesQueued ←
    if conf.maxBytes.isSome then do
      let length ← entry.length
      pure (q.bytesQueued + length)
    else pure q.bytesQueued
  pure { table := q.table.push entry, bytesQueued, resources := q.resources + 1 }

def tooLargeMessage : LuaValue → String
  | .text content =>
    "string to be queued is longer (" ++ toString content.length
      ++ " bytes) than the queue's max_bytes (" ++ toString (conf.maxBytes.getD 0) ++ " bytes)"
  | _ => ""

/-- `enqueue` once concurrency is limited: the queue it leaves, and what it
returns. -/
def enqueueLimited (q : ValueQueue) (entry : LuaValue) :
    Except String (ValueQueue × Except String Unit) := do
  let q ← makeRoom conf waiters q
  if isEntryTooLarge conf entry then pure (q, .error (tooLargeMessage conf entry))
  else
    let q ← makeByteRoom conf waiters entry q
    if ← canEnqueue conf q entry then
      let q ← appendEntry conf entry q
      pure (q, .ok ())
    else .error "queue should not be full after dropping entries"

/-- `enqueue`. `timerAt` is what `kong.timer:at` returns. -/
def enqueue (concurrencyLimit : Int) (timerAt : Except String Unit) (q : ValueQueue)
    (entry : LuaValue) : Except String (ValueQueue × Except String Unit) :=
  if entry = .nil then .ok (q, .error "entry must be a non-nil Lua value")
  else if concurrencyLimit = -1 then
    match timerAt with
    | .ok () => .ok (q, .ok ())
    | .error err => .ok (q, .error ("failed to crete timer: " ++ err))
  else enqueueLimited conf waiters q entry

end Producers

/-! ## The drop at the entry limit -/

/-- The byte count is within the limit, which `_remaining_capacity` asserts. -/
def BytesWithin (conf : QueueConf) (q : ValueQueue) : Prop :=
  ∀ maxBytes, conf.maxBytes = some maxBytes → q.bytesQueued ≤ maxBytes

/-- The oldest entry can be dropped: nobody waits for the last resource, and
where bytes are counted the entry has a length. -/
structure CanDrop (conf : QueueConf) (waiters : Nat) (q : ValueQueue) : Prop where
  resource : 0 < semaphoreCount waiters q
  length : conf.maxBytes.isSome = true → ∃ n, (q.table.head?.getD .nil).length = .ok n

section

variable {conf : QueueConf} {waiters : Nat} {q q' : ValueQueue}

theorem remainingCapacity_ok_iff {capacity : Int × Option Int} :
    remainingCapacity conf q = .ok capacity
      ↔ q.count ≤ conf.maxEntries ∧ BytesWithin conf q
        ∧ capacity = ((conf.maxEntries : Int) - q.count, conf.maxBytes.map (· - q.bytesQueued)) := by
  unfold remainingCapacity BytesWithin
  simp only
  by_cases hentries : (conf.maxEntries : Int) - q.count < 0
  · rw [if_pos hentries]
    constructor
    · intro h
      cases h
    · rintro ⟨hle, -⟩
      omega
  · rw [if_neg hentries]
    have hle : q.count ≤ conf.maxEntries := by omega
    cases hmax : conf.maxBytes with
    | none => simp [hle, eq_comm]
    | some maxBytes =>
      by_cases hbytes : maxBytes - q.bytesQueued < 0
      · simp only [if_pos hbytes]
        constructor
        · intro h
          cases h
        · rintro ⟨-, hwithin, -⟩
          have := hwithin maxBytes rfl
          omega
      · have hwithin : q.bytesQueued ≤ maxBytes := by omega
        simp [hbytes, hle, hwithin, eq_comm]

theorem isReachingMaxEntries_ok_iff {reached : Bool} :
    isReachingMaxEntries conf q = .ok reached
      ↔ q.count ≤ conf.maxEntries ∧ BytesWithin conf q
        ∧ reached = decide (q.count = conf.maxEntries) := by
  have hzero : decide ((conf.maxEntries : Int) - q.count = 0) = decide (q.count = conf.maxEntries) :=
    decide_eq_decide.mpr (by omega)
  constructor
  · intro h
    obtain ⟨capacity, hcapacity, hreached⟩ := MapM.bind_ok h
    obtain ⟨hentries, hbytes, rfl⟩ := remainingCapacity_ok_iff.mp hcapacity
    exact ⟨hentries, hbytes, (Except.ok.inj hreached).symm.trans hzero⟩
  · rintro ⟨hentries, hbytes, rfl⟩
    rw [isReachingMaxEntries, remainingCapacity_ok_iff.mpr ⟨hentries, hbytes, rfl⟩, ← hzero]
    rfl

theorem dropOldestEntry_ok (h : CanDrop conf waiters q) :
    ∃ q', dropOldestEntry conf waiters q = .ok q' ∧ q'.table = q.table.pop := by
  rw [dropOldestEntry, if_pos h.resource, deleteFrontmostEntry]
  by_cases hbytes : conf.maxBytes.isSome = true
  · obtain ⟨n, hn⟩ := h.length hbytes
    rw [if_pos hbytes, hn]
    exact ⟨_, rfl, rfl⟩
  · rw [if_neg hbytes]
    exact ⟨_, rfl, rfl⟩

theorem canDrop_of_dropOldestEntry (h : dropOldestEntry conf waiters q = .ok q') :
    CanDrop conf waiters q := by
  unfold dropOldestEntry at h
  split at h
  · rename_i hresource
    refine ⟨hresource, fun hbytes => ?_⟩
    rw [deleteFrontmostEntry, if_pos hbytes] at h
    obtain ⟨n, hn, -⟩ := MapM.bind_ok h
    exact ⟨n, hn⟩
  · cases h

theorem makeRoom_ok (h : makeRoom conf waiters q = .ok q') :
    q' = q ∨ (q.count = conf.maxEntries ∧ BytesWithin conf q ∧ CanDrop conf waiters q) := by
  obtain ⟨reached, hreached, h⟩ := MapM.bind_ok h
  obtain ⟨-, hbytes, rfl⟩ := isReachingMaxEntries_ok_iff.mp hreached
  by_cases hcount : q.count = conf.maxEntries
  · simp only [hcount, decide_true, if_true] at h
    exact .inr ⟨hcount, hbytes, canDrop_of_dropOldestEntry h⟩
  · simp only [hcount, decide_false, Bool.false_eq_true, if_false] at h
    exact .inl (Except.ok.inj h).symm

theorem makeRoom_drops (hcount : q.count = conf.maxEntries) (hbytes : BytesWithin conf q)
    (hdrop : CanDrop conf waiters q) :
    ∃ q', makeRoom conf waiters q = .ok q' ∧ q' ≠ q := by
  obtain ⟨q', hq', htable⟩ := dropOldestEntry_ok hdrop
  have hreached : isReachingMaxEntries conf q = .ok true :=
    isReachingMaxEntries_ok_iff.mpr ⟨Nat.le_of_eq hcount, hbytes, (decide_eq_true hcount).symm⟩
  refine ⟨q', ?_, ?_⟩
  · rw [makeRoom, hreached]
    exact hq'
  · rintro rfl
    have hpos : 0 < q'.table.count := by
      have := conf.maxEntries_pos
      have : q'.table.count = conf.maxEntries := hcount
      omega
    have hpop := q'.table.count_pop hpos
    rw [← htable] at hpop
    omega

/-! ## Refused entries -/

theorem enqueueLimited_of_tooLarge {entry : LuaValue} (htoo : isEntryTooLarge conf entry = true)
    (hroom : makeRoom conf waiters q = .ok q') :
    enqueueLimited conf waiters q entry = .ok (q', .error (tooLargeMessage conf entry)) := by
  rw [enqueueLimited, hroom]
  show (if isEntryTooLarge conf entry = true then _ else _) = _
  rw [if_pos htoo]
  rfl

theorem enqueueLimited_refused {entry : LuaValue} {err : String}
    (h : enqueueLimited conf waiters q entry = .ok (q', .error err)) :
    isEntryTooLarge conf entry = true ∧ makeRoom conf waiters q = .ok q' := by
  obtain ⟨room, hroom, h⟩ := MapM.bind_ok h
  split at h
  · rename_i htoo
    cases h
    exact ⟨htoo, hroom⟩
  · obtain ⟨byteRoom, -, h⟩ := MapM.bind_ok h
    obtain ⟨fits, -, h⟩ := MapM.bind_ok h
    split at h
    · obtain ⟨appended, -, h⟩ := MapM.bind_ok h
      cases h
    · cases h

end

/-- A refused entry leaves the queue as it was exactly when the queue is not
at its entry limit, or the entry not a string longer than the byte limit. -/
theorem enqueue_refusal_free_iff (conf : QueueConf) (waiters : Nat) (concurrencyLimit : Int)
    (timerAt : Except String Unit) (q : ValueQueue) (entry : LuaValue) :
    (∀ q' err, enqueue conf waiters concurrencyLimit timerAt q entry = .ok (q', .error err) → q' = q)
      ↔ ¬ (concurrencyLimit ≠ -1 ∧ isEntryTooLarge conf entry = true
        ∧ q.count = conf.maxEntries ∧ BytesWithin conf q ∧ CanDrop conf waiters q) := by
  constructor
  · rintro hfree ⟨hlimit, htoo, hcount, hbytes, hdrop⟩
    obtain ⟨q', hroom, hne⟩ := makeRoom_drops hcount hbytes hdrop
    have hentry : entry ≠ .nil := by
      rintro rfl
      cases htoo
    refine hne (hfree q' (tooLargeMessage conf entry) ?_)
    unfold enqueue
    rw [if_neg hentry, if_neg hlimit]
    exact enqueueLimited_of_tooLarge htoo hroom
  · intro hnot q' err h
    unfold enqueue at h
    split at h
    · cases h
      rfl
    · split at h
      · cases timerAt with
        | error err =>
          cases h
          rfl
        | ok _ => cases h
      · rename_i hlimit
        obtain ⟨htoo, hroom⟩ := enqueueLimited_refused h
        rcases makeRoom_ok hroom with hsame | ⟨hcount, hbytes, hdrop⟩
        · exact hsame
        · exact absurd ⟨hlimit, htoo, hcount, hbytes, hdrop⟩ hnot

/-- A queue for one entry of at most four bytes. -/
def smallQueueConf : QueueConf where
  maxBatchSize := 1
  maxEntries := 1
  maxBytes := some 4
  maxBatchSize_pos := Nat.one_pos
  maxEntries_pos := Nat.one_pos

/-- The queue that holds one entry, which the consumer has not taken. -/
def oneEntryQueue : ValueQueue where
  table := TableQueue.empty.push (.text "kept")
  bytesQueued := 4
  resources := 1

/-- A string that is too long for the queue costs the entry that is in it. -/
theorem refused_entry_costs_oldest :
    ¬ ∀ q' err, enqueue smallQueueConf 0 1 (.ok ()) oneEntryQueue (.text "longer")
      = .ok (q', .error err) → q' = oneEntryQueue := by
  have hrun : enqueue smallQueueConf 0 1 (.ok ()) oneEntryQueue (.text "longer")
      = .ok (⟨oneEntryQueue.table.pop, 0, 0⟩,
        .error (tooLargeMessage smallQueueConf (.text "longer"))) := by
    rfl
  intro h
  have hsame := congrArg count (h _ _ hrun)
  revert hsame
  decide

end ValueQueue

end KongGateway.Kong.Tools

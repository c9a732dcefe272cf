import KongGateway.Lib.Run
import KongGateway.Lib.TableQueue
import Mathlib.Algebra.Order.Ring.Int

/-!
# Queue — the batch queue of `kong.tools.queue`

Producers call `enqueue`, which runs without yielding; the timer of the
queue calls `process_once`, which yields while it waits on the
semaphore and while the handler runs. The semaphore is its number of
resources and the consumer, the only thread that ever waits on it; a
`post` adds a resource and a `wait` that succeeds removes one. An error
raised by an assertion is `Except.error`. The flags that only steer log
messages are left out.
-/

namespace KongGateway.Kong.Tools

/-- The limits of a queue. The schema asks for at least one entry in a
batch and in the queue, and for any integer as the byte limit. -/
structure QueueConf where
  maxBatchSize : Nat
  maxEntries : Nat
  maxBytes : Option Int
  maxBatchSize_pos : 1 ≤ maxBatchSize
  maxEntries_pos : 1 ≤ maxEntries

structure Queue where
  table : TableQueue String
  bytesQueued : Int
  resources : Nat

def Queue.new : Queue := ⟨.empty, 0, 0⟩

def Queue.count (q : Queue) : Nat := q.table.count

section Capacity

variable (conf : QueueConf) (q : Queue)

/-- `_remaining_capacity`. -/
def remainingCapacity : Except String (Int × Option Int) :=
  let remainingEntries : Int := conf.maxEntries - q.count
  if remainingEntries < 0 then .error "queue should not be over capacity"
  else
    match conf.maxBytes with
    | none => .ok (remainingEntries, none)
    | some maxBytes =>
      let remainingBytes := maxBytes - q.bytesQueued
      if remainingBytes < 0 then .error "queue should not be over capacity"
      else .ok (remainingEntries, some remainingBytes)

/-- `_is_reaching_max_entries`. -/
def isReachingMaxEntries : Except String Bool := do
  let (remainingEntries, _) ← remainingCapacity conf q
  pure (decide (remainingEntries = 0))

/-- `_will_exceed_max_entries`. -/
def willExceedMaxEntries : Except String Bool := do
  let (remainingEntries, _) ← remainingCapacity conf q
  pure (decide (remainingEntries - 1 < 0))

/-- `_is_entry_too_large`. -/
def isEntryTooLarge (entry : String) : Bool :=
  match conf.maxBytes with
  | none => false
  | some maxBytes => decide (maxBytes < entry.length)

/-- `_is_reaching_max_bytes`. -/
def isReachingMaxBytes : Except String Bool :=
  if conf.maxBytes.isNone then .ok false
  else do
    let (_, remainingBytes) ← remainingCapacity conf q
    pure (decide (remainingBytes = some 0))

/-- `_will_exceed_max_bytes`. -/
def willExceedMaxBytes (entry : String) : Except String Bool :=
  if conf.maxBytes.isNone then .ok false
  else do
    let (_, remainingBytes) ← remainingCapacity conf q
    pure (decide (remainingBytes.getD 0 < entry.length))

/-- `_is_full`. -/
def isFull : Except String Bool := do
  if ← isReachingMaxEntries conf q then pure true else isReachingMaxBytes conf q

/-- `_can_enqueue`. -/
def canEnqueue (entry : String) : Except String Bool := do
  if ← isFull conf q then pure false
  else if isEntryTooLarge conf entry then pure false
  else if ← willExceedMaxEntries conf q then pure false
  else
    let exceeds ← willExceedMaxBytes conf q entry
    pure !exceeds

end Capacity

/-! ## Producers -/

section Producers

variable (conf : QueueConf) (waiters : Nat)

/-- `self.semaphore:count()`. -/
def semaphoreCount (q : Queue) : Int := q.resources - waiters

/-- `delete_frontmost_entry`. -/
def deleteFrontmostEntry (q : Queue) : Queue :=
  { q with
    bytesQueued :=
      if conf.maxBytes.isSome then q.bytesQueued - ((q.table.head?.map String.length).getD 0 : Nat)
      else q.bytesQueued
    table := q.table.pop }

/-- `drop_oldest_entry`, with the entry dropped. -/
def dropOldestEntry (q : Queue) : Except String (Queue × String) :=
  if 0 < semaphoreCount waiters q then
    .ok (deleteFrontmostEntry conf { q with resources := q.resources - 1 }, q.table.head?.getD "")
  else .error "assertion failed!"

/-- The `repeat` loop that makes room for the bytes of the entry. -/
def dropUntilFits (entry : String) :
    Nat → Queue → List String → Except String (Queue × List String)
  | 0, _, _ => .error "assertion failed!"
  | fuel + 1, q, dropped => do
    let (q, oldest) ← dropOldestEntry conf waiters q
    let dropped := dropped ++ [oldest]
    if ← willExceedMaxBytes conf q entry then dropUntilFits entry fuel q dropped
    else pure (q, dropped)

/-- What an `enqueue` that does not raise leaves: the queue, the entries
it dropped, and whether it took the entry. -/
structure Enqueued where
  queue : Queue
  dropped : List String
  result : Except String Unit

def tooLargeMessage (entry : String) : String :=
  "string to be queued is longer (" ++ toString entry.length
    ++ " bytes) than the queue's max_bytes (" ++ toString (conf.maxBytes.getD 0) ++ " bytes)"

/-- The room that `enqueue` makes when the queue is at its entry limit. -/
def makeRoom (q : Queue) : Except String (Queue × List String) := do
  if ← isReachingMaxEntries conf q then
    let (q, oldest) ← dropOldestEntry conf waiters q
    pure (q, [oldest])
  else pure (q, [])

/-- The room that it makes for the bytes of the entry. -/
def makeByteRoom (entry : String) (q : Queue) (dropped : List String) :
    Except String (Queue × List String) := do
  if ← willExceedMaxBytes conf q entry then
    dropUntilFits conf waiters entry (q.count + 1) q dropped
  else pure (q, dropped)

/-- The entry is put at the back and posted. -/
def appendEntry (entry : String) (q : Queue) : Queue where
  table := q.table.push entry
  bytesQueued := if conf.maxBytes.isSome then q.bytesQueued + entry.length else q.bytesQueued
  resources := q.resources + 1

/-- `enqueue` of a string. -/
def enqueue (q : Queue) (entry : String) : Except String Enqueued := do
  let (q, dropped) ← makeRoom conf waiters q
  if isEntryTooLarge conf entry then pure ⟨q, dropped, .error (tooLargeMessage conf entry)⟩
  else
    let (q, dropped) ← makeByteRoom conf waiters entry q dropped
    if ← canEnqueue conf q entry then pure ⟨appendEntry conf entry q, dropped, .ok ()⟩
    else .error "queue should not be full after dropping entries"

end Producers

/-! ## The consumer and the whole system -/

/-- Where the timer of the queue is: before its loop condition, within
`process_once` with entries counted off the semaphore (about to go on,
or waiting), in the handler, or ended. -/
inductive Consumer where
  | looping
  | coalescing (entryCount : Nat)
  | waiting (entryCount : Nat)
  | handling
  | ended
  deriving DecidableEq, Repr

/-- How entries leave the queue. -/
inductive Departure where
  | dropped (entry : String)
  | batch (entries : List String)
  deriving DecidableEq, Repr

def Departure.entries : Departure → List String
  | .dropped entry => [entry]
  | .batch entries => entries

/-- The queue, its consumer, and what has happened: the entries taken,
in order, and how entries left. -/
structure System where
  queue : Queue
  consumer : Consumer
  accepted : List String
  departures : List Departure

def System.start : System := ⟨.new, .ended, [], []⟩

def Consumer.waiters : Consumer → Nat
  | .waiting _ => 1
  | _ => 0

/-- The entries counted off the semaphore by the running
`process_once`. -/
def Consumer.taken : Consumer → Nat
  | .coalescing entryCount => entryCount
  | .waiting entryCount => entryCount
  | _ => 0

/-- The places where other threads may run. -/
def Consumer.yields : Consumer → Bool
  | .coalescing _ => false
  | _ => true

inductive Input where
  /-- a producer calls `enqueue` -/
  | enqueue (entry : String)
  /-- the timer checks the count and calls `process_once` -/
  | loop
  /-- the coalescing loop waits on the semaphore -/
  | wait
  /-- a `post` wakes the consumer -/
  | wake
  /-- the wait times out -/
  | timeout
  /-- the wait fails for another reason, which ends the loop -/
  | waitError
  /-- the coalescing loop ends: the delay is over or the batch is full -/
  | flush
  /-- the handler is done with the batch, or gives up -/
  | handled

/-- `delete_frontmost_entry`, as often as there are entries in the
batch. -/
def deleteEntries (conf : QueueConf) : Nat → Queue → Queue
  | 0, q => q
  | n + 1, q => deleteEntries conf n (deleteFrontmostEntry conf q)

/-- The batch leaves the queue and goes to the handler. -/
def flushBatch (conf : QueueConf) (entryCount : Nat) (s : System) : System :=
  let batch := TableQueue.slice s.queue.table.entries s.queue.table.front entryCount
  { s with
    queue := deleteEntries conf entryCount s.queue
    consumer := .handling
    departures := s.departures ++ [.batch batch] }

/-- `get_or_create_queue`: a queue whose timer has ended is gone, and a
new one is made. -/
def System.getOrCreateQueue (s : System) : Queue :=
  if s.consumer = .ended then Queue.new else s.queue

/-- An `enqueue` at a yield point of the consumer; a new queue gets a
timer of its own. -/
def enqueueStep (conf : QueueConf) (s : System) (entry : String) : System :=
  match enqueue conf s.consumer.waiters s.getOrCreateQueue entry with
  | .error _ => s
  | .ok done =>
    { queue := done.queue
      consumer := if s.consumer = .ended then .looping else s.consumer
      accepted := if done.result.isOk then s.accepted ++ [entry] else s.accepted
      departures := s.departures ++ done.dropped.map .dropped }

/-- One step of the system. An input that is not possible leaves it as
it is. -/
def step (conf : QueueConf) (s : System) : Input → System
  | .enqueue entry => if s.consumer.yields then enqueueStep conf s entry else s
  | .loop =>
    if s.consumer = .looping then
      if s.queue.count = 0 then { s with consumer := .ended }
      -- the first `wait(0)`; without a resource `process_once` returns
      else if s.queue.resources = 0 then s
      else
        { s with
          queue := { s.queue with resources := s.queue.resources - 1 }
          consumer := .coalescing 1 }
    else s
  | .wait =>
    match s.consumer with
    | .coalescing entryCount =>
      if entryCount < conf.maxBatchSize then
        if s.queue.resources = 0 then { s with consumer := .waiting entryCount }
        else
          { s with
            queue := { s.queue with resources := s.queue.resources - 1 }
            consumer := .coalescing (entryCount + 1) }
      else s
    | _ => s
  | .wake =>
    match s.consumer with
    | .waiting entryCount =>
      if s.queue.resources = 0 then s
      else
        { s with
          queue := { s.queue with resources := s.queue.resources - 1 }
          consumer := .coalescing (entryCount + 1) }
    | _ => s
  | .timeout =>
    match s.consumer with
    | .waiting entryCount => { s with consumer := .coalescing entryCount }
    | _ => s
  | .waitError =>
    match s.consumer with
    | .waiting entryCount => flushBatch conf entryCount s
    | _ => s
  | .flush =>
    match s.consumer with
    | .coalescing entryCount => flushBatch conf entryCount s
    | _ => s
  | .handled => if s.consumer = .handling then { s with consumer := .looping } else s

/-- The assertions of `enqueue` hold. What a raised error leaves behind
is not modelled. -/
def AssertionsHold (conf : QueueConf) (s : System) : Input → Prop
  | .enqueue entry => s.consumer.yields = true →
      ∃ done, enqueue conf s.consumer.waiters s.getOrCreateQueue entry = .ok done
  | _ => True

end KongGateway.Kong.Tools

import Mathlib.Data.List.Perm.Basic
import KongGateway.Lib.Bytes
import KongGateway.Lib.Run

/-!
# ClusterEvents — events of other nodes

Nodes broadcast events by rows of a table of the database. A node polls the
rows since the time of its last poll, less an offset for rows that become
visible late, page by page, and hands each row to the callbacks of its
channel. The time of the last poll and marks for the rows that have been
handed out lie in shared dictionaries.

Times are in milliseconds, and the clocks of the node and of the database
agree. A poll can be interrupted by broadcasts wherever it waits for the
database or runs a callback; two polls do not overlap.
-/

namespace KongGateway.Kong.ClusterEvents

open Bytes

abbrev Text := List Byte

/-- A row of `cluster_events`. -/
structure Row where
  id : Nat
  nodeId : Text
  channel : Text
  data : Text
  /-- `at` -/
  eventAt : Nat
  nbf : Option Nat := none
  deriving DecidableEq

structure Config where
  nodeId : Text
  channels : List Text
  pollInterval : Nat
  pollOffset : Nat

def pageSize : Nat := 1000

/-- `event_ttl_shm` -/
def Config.eventTtlShm (config : Config) : Nat := config.pollInterval * 2 + config.pollOffset

/-- A poll under way: the mark it has found, the time of the last poll, the
database time of its first page, the pages so far, whether the last page was
the last one, and the rows of it that are still to be processed. -/
structure Poll where
  mark : Nat
  since : Nat
  time : Option Nat := none
  page : Nat := 0
  lastPage : Bool := false
  todo : List Row := []

/-- The table with the rows that are visible, and a node. -/
structure State where
  clock : Nat
  rows : List Row
  /-- The value under `CURRENT_AT_KEY`. -/
  currentAt : Nat
  /-- The time of the last query. -/
  queried : Nat
  /-- The time of the last poll that has had its first page and has stored
  its time, if there were rows. -/
  lastPoll : Nat
  /-- `events_shm`: when the mark of a row disappears. -/
  marks : Nat → Option Nat := fun _ => none
  /-- The rows that have been handed to all callbacks of their channel, with
  the delay of the timers. -/
  handed : List (Row × Nat) := []
  poll : Option Poll := none
  /-- The database times of the polls that have returned true. -/
  completed : List Nat := []

/-- The node has been created, with some rows in the table. -/
def init (now : Nat) (rows : List Row) : State :=
  { clock := now, rows := rows, currentAt := now, queried := now, lastPoll := now }

variable (config : Config)

/-- The rows that `select_interval` selects from a mark on, less the offset
and one millisecond. -/
def Config.selects (mark now : Nat) (row : Row) : Bool :=
  row.channel ∈ config.channels ∧ mark < row.eventAt + config.pollOffset + 1 ∧ row.eventAt ≤ now

/-- What the database may answer to the query without limit and offset. -/
def Listing (s : State) (poll : Poll) (order : List Row) : Prop :=
  order.Perm (s.rows.filter (config.selects poll.mark s.clock))
    ∧ order.Pairwise fun row next => row.eventAt ≤ next.eventAt

instance (s : State) (poll : Poll) (order : List Row) : Decidable (Listing config s poll order) :=
  inferInstanceAs (Decidable (_ ∧ _))

/-- The poll ends and returns true. -/
def finish (s : State) (time : Nat) : State :=
  { s with poll := none, completed := time :: s.completed }

/-- The poll ends with an error. -/
def giveUp (s : State) : State := { s with poll := none }

/-- The poll goes on, or ends after the rows of the last page. -/
def advance (s : State) (poll : Poll) : State :=
  match poll.todo, poll.lastPage, poll.time with
  | [], true, some time => finish s time
  | _, _, _ => { s with poll := some poll }

/-- A page is queried. The iterator returns nil when the query fails, which
ends the loop over the pages as an empty page does. -/
def query (s : State) (poll : Poll) (order : List Row) (queryOk setOk : Bool) : State :=
  let time := poll.time.getD s.clock
  let s := { s with queried := s.clock }
  if !queryOk then finish s time
  else
    let rows := (order.drop (poll.page * pageSize)).take pageSize
    let isFirst := poll.page = 0
    if rows = [] then
      finish (if isFirst then { s with lastPoll := s.clock } else s) time
    else if isFirst ∧ setOk = false then giveUp s
    else
      advance (if isFirst then { s with currentAt := s.clock, lastPoll := s.clock } else s)
        { poll with
          time := some time
          page := poll.page + 1
          lastPage := rows.length < pageSize
          todo := rows }

/-- `process_event` -/
def processEvent (s : State) (poll : Poll) (row : Row) (rest : List Row) (getOk setOk : Bool) :
    State :=
  let next := { poll with todo := rest }
  if row.nodeId = config.nodeId then advance s next
  else if !getOk then giveUp s
  else if (s.marks row.id).any fun expires => s.clock < expires then advance s next
  else if !setOk then giveUp s
  else
    advance
      { s with
        marks := fun id =>
          if id = row.id then some (s.clock + config.eventTtlShm) else s.marks id
        handed := s.handed ++ [(row, (row.nbf.getD 0) - s.clock)] }
      next

inductive Event where
  /-- A row becomes visible. -/
  | insert (row : Row)
  | tick (now : Nat)
  /-- A poll starts; it reads the mark. -/
  | poll (getOk : Bool)
  /-- A page is queried: the answer without limit and offset, and whether the
  query and the storing of the time succeed. -/
  | query (order : List Row) (queryOk setOk : Bool)
  /-- A row is processed, with the outcome of the dictionary operations. -/
  | process (getOk setOk : Bool)

/-- A row is not inserted before its time, and is seen by the queries that
are made its offset after it or later. -/
def Insertable (s : State) (row : Row) : Prop :=
  row.eventAt ≤ s.clock ∧ s.queried < row.eventAt + config.pollOffset ∧ ∀ other ∈ s.rows, other.id ≠ row.id

instance (s : State) (row : Row) : Decidable (Insertable config s row) :=
  inferInstanceAs (Decidable (_ ∧ _ ∧ _))

/-- A step; what is not possible changes nothing. -/
def step (s : State) : Event → State
  | .insert row => if Insertable config s row then { s with rows := s.rows ++ [row] } else s
  | .tick now => if s.clock ≤ now then { s with clock := now } else s
  | .poll getOk =>
    match s.poll with
    | none =>
      if getOk then { s with poll := some { mark := s.currentAt, since := s.lastPoll } } else s
    | some _ => s
  | .query order queryOk setOk =>
    match s.poll with
    | some poll =>
      if poll.todo = [] ∧ Listing config s poll order then query s poll order queryOk setOk
      else s
    | none => s
  | .process getOk setOk =>
    match s.poll with
    | some poll =>
      match poll.todo with
      | row :: rest => processEvent config s poll row rest getOk setOk
      | [] => s
    | none => s

/-! ## Delivery -/

/-- A row is of this node, or has been handed to the callbacks. -/
def Done (s : State) (row : Row) : Prop :=
  row.nodeId = config.nodeId ∨ row.id ∈ s.handed.map fun entry => entry.1.id

/-- After the polls that have returned true, every row of a subscribed
channel with a time not later than the database time of the poll less the
offset, and seen after the node was created, is done. -/
def Delivered (start : Nat) (s : State) : Prop :=
  ∀ time ∈ s.completed, ∀ row ∈ s.rows, row.channel ∈ config.channels →
    start ≤ row.eventAt + config.pollOffset → row.eventAt + config.pollOffset ≤ time → Done config s row

/-- No row is handed to the callbacks twice. -/
def NotRepeated (s : State) : Prop := (s.handed.map fun entry => entry.1.id).Nodup

/-- Rows by their time, those of one time by a rank. -/
def Before (rank : Nat → Nat) (row next : Row) : Prop :=
  row.eventAt < next.eventAt ∨ row.eventAt = next.eventAt ∧ rank row.id < rank next.id

instance (rank : Nat → Nat) (row next : Row) : Decidable (Before rank row next) :=
  inferInstanceAs (Decidable (_ ∨ _ ∧ _))

/-- No query fails, rows of one time are listed in the same order by all
queries, and the dictionary operations for a row do not fail. -/
def Reliable (rank : Nat → Nat) (s : State) : Event → Prop
  | .query order queryOk _ => s.poll.isSome → queryOk = true ∧ order.Pairwise (Before rank)
  | .process getOk setOk => s.poll.isSome → getOk = true ∧ setOk = true
  | _ => True

/-- Rows are processed less than two intervals after the last poll before. -/
def Prompt (s : State) : Event → Prop
  | .process _ _ => ∀ poll, s.poll = some poll → s.clock < poll.since + config.pollInterval * 2
  | _ => True

end KongGateway.Kong.ClusterEvents

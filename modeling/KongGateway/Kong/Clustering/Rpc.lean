import KongGateway.Lib.Run
import KongGateway.Lib.Keyed

/-!
# Rpc — JSON-RPC 2.0 messages and the queues they travel in

Peers exchange requests, notifications and responses as decoded JSON.
An item that is a table is read through the fields the code looks at; a
nested array has none of them.
-/

namespace KongGateway.Kong.Clustering.Rpc

/-! ## Queues -/

/-- A bounded queue. The semaphore counts the elements, so waiting on it
succeeds exactly when there is one. -/
structure Queue (α : Type) where
  max : Nat
  elts : List α
  deriving DecidableEq, Repr

namespace Queue

variable {α : Type}

def new (max : Nat) : Queue α := ⟨max, []⟩

/-- `queue:push`; `none` is "queue overflow". -/
def push (q : Queue α) (item : α) : Option (Queue α) :=
  if q.elts.length ≥ q.max then none else some { q with elts := q.elts ++ [item] }

/-- `queue:pop(0)`. -/
def pop (q : Queue α) : Option α × Queue α := (q.elts.head?, { q with elts := q.elts.tail })

theorem push_eq_some {q q' : Queue α} {item : α} (h : q.push item = some q') :
    q.elts.length < q.max ∧ q' = { q with elts := q.elts ++ [item] } := by
  unfold push at h
  split at h
  · cases h
  · rename_i hfits
    exact ⟨Nat.lt_of_not_ge hfits, (Option.some.inj h).symm⟩

end Queue

/-! ## Messages -/

/-- The identifier of a request: a number, a string or `null`. -/
inductive Id where
  | number (n : Int)
  | string (s : String)
  | null
  deriving DecidableEq, Repr

def version : String := "2.0"

inductive ErrorCode where
  | parseError
  | invalidRequest
  | methodNotFound
  | invalidParams
  | internalError
  | serverError
  deriving DecidableEq, Repr

def ErrorCode.code : ErrorCode → Int
  | parseError => -32700
  | invalidRequest => -32600
  | methodNotFound => -32601
  | invalidParams => -32602
  | internalError => -32603
  | serverError => -32000

/-- `ERROR_MSG`. -/
def ErrorCode.message : ErrorCode → String
  | parseError => "Parse error"
  | invalidRequest => "Invalid Request"
  | methodNotFound => "Method not found"
  | invalidParams => "Invalid params"
  | internalError => "Internal error"
  | serverError => "Server error"

structure RpcError where
  code : Int
  message : String
  deriving DecidableEq, Repr

/-- A response; `result` is `nil` in an error answer and `error` in a
success. The results are of any type `V` of decoded JSON that is not
`false`. -/
structure Response (V : Type) where
  jsonrpc : String := version
  id : Option Id
  result : Option V := none
  error : Option RpcError := none
  deriving DecidableEq, Repr

/-- What a callback may return as its error: nothing, a string, an object
with a `__tostring` metamethod, or any other value. -/
inductive CallbackError where
  | missing
  | text (s : String)
  | object (tostring : String)
  | other
  deriving DecidableEq, Repr

/-- How a callback ends: with a result, with a false result and an error,
or by raising. -/
inductive Outcome (V : Type) where
  | returned (result : V)
  | failed (err : CallbackError)
  | raised
  deriving DecidableEq, Repr

variable {V : Type}

/-- `new_error`; `none` where it raises, on a value without `__tostring`. -/
def newError (id : Option Id) (code : ErrorCode) (msg : CallbackError := .missing) :
    Option (Response V) :=
  match msg with
  | .missing => some { id := id, error := some ⟨code.code, code.message⟩ }
  | .text s => some { id := id, error := some ⟨code.code, s⟩ }
  | .object tostring => some { id := id, error := some ⟨code.code, tostring⟩ }
  | .other => none

/-- The response to a call, as `_dispatch` builds it; `none` where a Lua
error leaves the call without one. -/
def answer (id : Id) : Outcome V → Option (Response V)
  | .returned result => some { id := some id, result := some result }
  | .failed err => newError (some id) .serverError err
  | .raised => none

theorem answer_id {id : Id} {outcome : Outcome V} {r : Response V}
    (h : answer id outcome = some r) : r.id = some id := by
  cases outcome with
  | returned result =>
    obtain rfl := Option.some.inj h
    rfl
  | failed err =>
    cases err with
    | other => cases h
    | _ =>
      obtain rfl := Option.some.inj h
      rfl
  | raised => cases h

/-!
## Future — calls and the responses they wait for

A call registers a callback under a fresh identifier, sends its request
and waits on a semaphore. Over a WebSocket nothing happens in between;
over the concentrator the request is a database query, and responses may
be handled before it returns. A response finds its callback by the
identifier and removes it.
-/

/-- A WebSocket connection, or the concentrator. Each has its own
identifiers. -/
inductive Transport where
  | socket (n : Nat)
  | concentrator
  deriving DecidableEq, Repr

/-- `STATE_*` once a future is started. -/
inductive FutureState where
  | inProgress
  | succeed
  | errored
  deriving DecidableEq, Repr

/-- Where the caller is: in the query that sends the request, in `wait`,
or at an end. A call ends with what it returns, or with a Lua error:
because the request could not be sent, because `wait` found the future in
a wrong state, or because the answer has no error to take a message
from. -/
inductive CallPhase (V : Type) where
  | enqueuing
  | waiting
  | returned (out : Except String V)
  | notSent
  | waitFailed
  | noMessage

/-- A future with its caller. For the record it has how often its
callback ran, and how many responses had arrived when the call started
and when it ended. -/
structure Future (V : Type) where
  transport : Transport
  id : Id
  state : FutureState := .inProgress
  result : Option V := none
  error : Option RpcError := none
  sema : Nat := 0
  phase : CallPhase V
  runs : Nat := 0
  started : Nat
  ended : Option Nat := none

/-- The calls of a worker, by number: the callbacks that wait for a
response, the next identifier of each transport, the futures, and the
responses that have arrived. -/
structure Calls (V : Type) where
  interest : LuaTable (Transport × Id) Nat := ∅
  sequence : Transport → Nat := fun _ => 0
  futures : LuaTable Nat (Future V) := ∅
  arrivals : List (Transport × Response V) := []

/-- What a peer answers, from `_dispatch` or `process_one_request`. -/
inductive Reply (V : Type) where
  | result (v : V)
  | error (code : ErrorCode) (msg : CallbackError)

def Reply.response (id : Id) : Reply V → Option (Response V)
  | .result v => some { id := some id, result := some v }
  | .error code msg => newError (some id) code msg

/-- A call is made (`sent` tells whether a socket could queue it); the
query of a call over the concentrator returns; a response arrives; a
caller is woken up, or has waited too long. -/
inductive CallInput (V : Type) where
  | call (c : Nat) (transport : Transport) (sent : Bool)
  | enqueued (c : Nat) (ok : Bool)
  | respond (transport : Transport) (id : Id) (reply : Reply V)
  | wake (c : Nat)
  | timeout (c : Nat)

namespace Future

/-- The callback that `start` registers. -/
def callback (f : Future V) (r : Response V) : Future V :=
  let answered := if r.result.isSome then { f with result := r.result, state := .succeed }
    else { f with error := r.error, state := .errored }
  { answered with sema := f.sema + 1, runs := f.runs + 1 }

/-- A call comes to its end. -/
def finish (f : Future V) (arrivals : Nat) (phase : CallPhase V) : Future V :=
  { f with phase := phase, ended := some arrivals }

/-- The beginning of `wait`. -/
def beginWait (f : Future V) (arrivals : Nat) : Future V :=
  if f.state = .inProgress then { f with phase := .waiting } else f.finish arrivals .waitFailed

/-- What the manager returns when `wait` does. -/
def outcome (f : Future V) : CallPhase V :=
  match f.state, f.result, f.error with
  | .succeed, some v, _ => .returned (.ok v)
  | .succeed, none, _ => .noMessage
  | _, _, some e => .returned (.error e.message)
  | _, _, none => .noMessage

end Future

namespace Calls

def set (s : Calls V) (c : Nat) (f : Future V) : Calls V :=
  { s with futures := s.futures.set c (some f) }

/-- `future.new`, `start` and, over a socket, the beginning of `wait`. -/
def start (s : Calls V) (c : Nat) (transport : Transport) (sent : Bool) : Calls V :=
  let id := Id.number (s.sequence transport)
  let f : Future V :=
    { transport := transport, id := id, phase := .enqueuing, started := s.arrivals.length }
  let f := match transport with
    | .concentrator => f
    | .socket _ => if sent then f.beginWait s.arrivals.length
        else f.finish s.arrivals.length .notSent
  { s with
    interest := s.interest.set (transport, id) (some c)
    sequence := Function.update s.sequence transport (s.sequence transport + 1)
    futures := s.futures.set c (some f) }

/-- `process_one_response`, and the same in `process_rpc_msg`: the
callback is removed before it runs. -/
def process (s : Calls V) (transport : Transport) (id : Id) (r : Response V) : Calls V :=
  match s.interest.get (transport, id) with
  | none => s
  | some c =>
    let s := { s with interest := s.interest.set (transport, id) none }
    match s.futures.get c with
    | none => s
    | some f => s.set c (f.callback r)

def step (s : Calls V) : CallInput V → Calls V
  | .call c transport sent =>
    if s.futures.get c = none then s.start c transport sent else s
  | .enqueued c ok =>
    match s.futures.get c with
    | some f =>
      match f.phase with
      | .enqueuing => s.set c (if ok then f.beginWait s.arrivals.length
          else f.finish s.arrivals.length .notSent)
      | _ => s
    | none => s
  | .respond transport id reply =>
    match reply.response id with
    | none => s
    | some r =>
      ({ s with arrivals := s.arrivals ++ [(transport, r)] } : Calls V).process transport id r
  | .wake c =>
    match s.futures.get c with
    | some f =>
      match f.phase, f.sema with
      | .waiting, sema + 1 =>
        s.set c (({ f with sema := sema } : Future V).finish s.arrivals.length f.outcome)
      | _, _ => s
    | none => s
  | .timeout c =>
    match s.futures.get c with
    | some f =>
      match f.phase, f.sema with
      | .waiting, 0 => s.set c (f.finish s.arrivals.length (.returned (.error "timeout")))
      | _, _ => s
    | none => s

end Calls

/-! ## Own answers -/

/-- The response to a call: the first with its identifier that arrived
over its transport after it was made and before it ended. -/
def Future.answer (f : Future V) (arrivals : List (Transport × Response V)) :
    Option (Response V) :=
  (((arrivals.take (f.ended.getD arrivals.length)).drop f.started).find? fun arrival =>
    arrival.1 = f.transport ∧ arrival.2.id = some f.id).map Prod.snd

/-- What the caller gets from a response. -/
def Response.outcome (r : Response V) : Except String V :=
  match r.result, r.error with
  | some v, _ => .ok v
  | none, some e => .error e.message
  | none, none => .error ""

/-- **Its own answer**: no assertion of `wait` fails and no message is
missing, the callback has run at most once, what a call has returned is
its response or a timeout without one, and a call that waits while its
response is there returns it when it goes on. -/
structure Future.Settled (s : Calls V) (c : Nat) (f : Future V) : Prop where
  noAssertion : f.phase ≠ .waitFailed
  message : f.phase ≠ .noMessage
  once : f.runs ≤ 1
  own : ∀ out, f.phase = .returned out →
    out = match f.answer s.arrivals with
      | some r => r.outcome
      | none => .error "timeout"
  wakes : f.phase = .waiting → ∀ r, f.answer s.arrivals = some r →
    ∃ f', (s.step (.wake c)).futures.get c = some f' ∧ f'.phase = .returned r.outcome

/-- The response to a call over the concentrator comes after the query
that sent the request has returned. -/
def Calls.Timely (s : Calls V) : CallInput V → Prop
  | .enqueued c ok => ∀ f, s.futures.get c = some f → ok →
      (f.answer s.arrivals).isNone
  | _ => True

end KongGateway.Kong.Clustering.Rpc

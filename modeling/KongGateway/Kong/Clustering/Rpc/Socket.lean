import KongGateway.Kong.Clustering.Rpc

/-!
# Socket — the read thread of an RPC connection

A frame is decoded and handled item by item: a request runs its callback
and is answered, a response is handed to whoever waits for it. The
callback of a single item runs later, on a timer; the callbacks of a
batch run at once and their answers are collected into one message. A Lua
error in the read thread ends it, as does an item it cannot dispatch.

The outgoing queue is taken to be never full.
-/

namespace KongGateway.Kong.Clustering.Rpc

/-- The parameters of a request: a table, whose array part is unpacked,
or anything else. -/
inductive Params (V : Type) where
  | table (args : List V)
  | other
  deriving DecidableEq, Repr

/-- A table as an item, by the fields that are read. Responses carry no
method. -/
structure Payload (V : Type) where
  jsonrpc : Option String := some version
  id : Option Id := none
  method : Option String := none
  params : Option (Params V) := none
  result : Option V := none
  error : Option RpcError := none
  deriving DecidableEq, Repr

/-- A decoded item: a value that is no table (`false` or one that counts
as true), an array, or an object. -/
inductive Item (V : Type) where
  | scalar (truthy : Bool)
  | array
  | object (payload : Payload V)
  deriving DecidableEq, Repr

variable {V : Type}

/-- The table behind an item. An array has no field of a payload. -/
def Item.table : Item V → Option (Payload V)
  | .scalar _ => none
  | .array => some { jsonrpc := none }
  | .object payload => some payload

/-- An item as it arrives, with what the read thread meets when it
handles it: how the callback of a batched item ends, and whether the
timer of a single one can be created. -/
structure Arrival (V : Type) where
  item : Item V
  outcome : Outcome V
  timer : Bool := true
  deriving DecidableEq, Repr

/-- A binary frame: a single item that is no array, or an array of
items. The object without fields decodes to an empty array. -/
inductive Frame (V : Type) where
  | single (arrival : Arrival V)
  | batch (arrivals : List (Arrival V))
  deriving DecidableEq, Repr

inductive Message (V : Type) where
  | response (r : Response V)
  | batch (rs : List (Response V))
  deriving DecidableEq, Repr

/-- The socket, with the dispatches that wait on a timer and whether the
read thread still runs. -/
structure Socket (V : Type) where
  interest : List Id := []
  outgoing : List (Message V) := []
  timers : List (Payload V) := []
  reading : Bool := true
  deriving DecidableEq, Repr

/-! ## Handling an item -/

namespace Socket

/-- `push_response`: into the collection of a batch, or on the queue. -/
def pushResponse (s : Socket V) (collection : Option (List (Response V))) (r : Response V) :
    Socket V × Option (List (Response V)) :=
  match collection with
  | some collected => (s, some (collected ++ [r]))
  | none => ({ s with outgoing := s.outgoing ++ [.response r] }, none)

/-- How handling an item ends: `return true`, `return nil, err`, or a Lua
error. -/
inductive Status where
  | handled
  | stopped
  | raised
  deriving DecidableEq, Repr

/-- What handling an item leaves behind. -/
abbrev Handled (V : Type) := Socket V × Option (List (Response V)) × Status

def handled (left : Socket V × Option (List (Response V))) (status : Status) : Handled V :=
  (left.1, left.2, status)

/-- `_dispatch`, given how the callback ends if it is called.
`unpack(payload.params)` raises unless the parameters are a table. -/
def dispatch (s : Socket V) (collection : Option (List (Response V))) (payload : Payload V)
    (outcome : Outcome V) : Handled V :=
  match payload.params with
  | some (.table _) =>
    match outcome, payload.id with
    | .raised, _ => (s, collection, .raised)
    -- a notification has no response
    | _, none => (s, collection, .handled)
    | outcome, some id =>
      match answer id outcome with
      | none => (s, collection, .raised)
      | some r => handled (s.pushResponse collection r) .handled
  | _ => (s, collection, .raised)

/-- The registered callbacks, and the strings `%d` can format. -/
structure Env where
  registered : String → Bool
  numeric : String → Bool

/-- Whether `%d` formats the identifier in the name of a timer. -/
def Env.formats (env : Env) : Option Id → Bool
  | none => true
  | some (.number _) => true
  | some (.string s) => env.numeric s
  | some .null => false

/-- The branch of `process_rpc_msg` for a table with a method. -/
def invoke (env : Env) (s : Socket V) (collection : Option (List (Response V)))
    (payload : Payload V) (method : String) (a : Arrival V) : Handled V :=
  if !env.registered method then
    match payload.id with
    | none => (s, collection, .handled)
    | some id =>
      match newError (some id) .methodNotFound with
      | none => (s, collection, .raised)
      | some r => handled (s.pushResponse collection r) .handled
  else
    match collection with
    | some _ => s.dispatch collection payload a.outcome
    | none =>
      if !env.formats payload.id then (s, none, .raised)
      else if a.timer then ({ s with timers := s.timers ++ [payload] }, none, .handled)
      else
        match payload.id with
        | none => (s, none, .stopped)
        | some id =>
          match newError (some id) .internalError with
          | none => (s, none, .raised)
          | some r => handled (s.pushResponse none r) .stopped

/-- `process_rpc_msg`. For an item that is no table the collection is
passed in the place of the error's beginning, so that the response goes
on the queue. -/
def processRpcMsg (env : Env) (s : Socket V) (collection : Option (List (Response V)))
    (a : Arrival V) : Handled V :=
  match a.item.table with
  | none =>
    match newError none .invalidRequest (.text "not a valid object") with
    | none => (s, collection, .raised)
    | some r => ((s.pushResponse none r).1, collection, .handled)
  | some payload =>
    if payload.jsonrpc ≠ some version then (s, collection, .raised)
    else
      match payload.method with
      | some method => invoke env s collection payload method a
      | none =>
        match payload.id with
        | none => (s, collection, .handled)
        | some id => ({ s with interest := s.interest.erase id }, collection, .handled)

/-! ## Handling a frame -/

/-- The loop over the items of a batch, up to the first that is not
handled. -/
def processBatch (env : Env) (s : Socket V) (collected : List (Response V)) :
    List (Arrival V) → Socket V × List (Response V) × Status
  | [] => (s, collected, .handled)
  | a :: rest =>
    match processRpcMsg env s (some collected) a with
    | (s', collection, .handled) => processBatch env s' (collection.getD collected) rest
    | (s', collection, status) => (s', collection.getD collected, status)

/-- What the read thread does with a frame. `false` is taken for a payload
that cannot be decompressed, and `isarray` raises on any other value that
is no table. -/
def receive (env : Env) (s : Socket V) : Frame V → Socket V × Status
  | .single a =>
    match a.item with
    | .scalar true => (s, .raised)
    | .scalar false =>
      match newError none .parseError with
      | none => (s, .raised)
      | some r => ((s.pushResponse none r).1, .handled)
    | _ =>
      let (s', _, status) := processRpcMsg env s none a
      (s', status)
  | .batch [] =>
    match newError none .invalidRequest (.text "empty batch array") with
    | none => (s, .raised)
    | some r => ((s.pushResponse none r).1, .handled)
  | .batch arrivals =>
    match processBatch env s [] arrivals with
    | (s', collected, .handled) =>
      -- may be responses or all notifications
      if collected.isEmpty then (s', .handled)
      else ({ s' with outgoing := s'.outgoing ++ [.batch collected] }, .handled)
    | (s', _, status) => (s', status)

end Socket

end KongGateway.Kong.Clustering.Rpc

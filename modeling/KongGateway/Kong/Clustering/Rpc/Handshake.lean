import KongGateway.Kong.Clustering.Rpc.Manager

/-!
# Handshake — how nodes enter and leave the registry

Each connection is handled by a thread of its own, which other threads
can overtake where it waits for a frame or for the database: a control
plane waits for the hello, for its answer to be sent and, unless sync v2
is on, for two queries about the status of the data plane. Capabilities
are registered before these queries and the socket after them.
-/

namespace KongGateway.Kong.Clustering.Rpc

/-! ## Connections -/

/-- What the hello of a data plane, and the connection it comes over, say
about the node. -/
structure Hello where
  nodeId : String
  version : String
  capabilities : List String
  labels : Option (List String)
  ip : String
  expiryTimestamp : Nat
  deriving DecidableEq, Repr

/-- Where a thread waits. -/
inductive Phase where
  /-- for the hello -/
  | receiving
  /-- for the answer to the hello to be sent -/
  | sending (hello : Hello)
  /-- in `_update_dp_status`, for the row of the node -/
  | selecting (nodeId : String)
  /-- in `_update_dp_status`, for the row to be written -/
  | upserting (nodeId : String)
  /-- in `join`, for the connection to break -/
  | joined (nodeId : String)
  deriving DecidableEq, Repr

/-- The node of a thread that has registered it and not yet added its
socket. -/
def Phase.registers : Phase → Option String
  | .selecting nodeId => some nodeId
  | .upserting nodeId => some nodeId
  | _ => none

/-- The registry and the threads that work on it, by the number of their
socket; whether sync v2 is on; and whether an entry that is not there was
indexed. -/
structure Registry where
  manager : Manager
  threads : LuaTable Nat Phase := ∅
  sync : Bool
  missing : Bool := false

/-- What may happen next: on a control plane a connection is accepted, its
hello arrives (`none` for a frame that is refused), the answer is sent,
the queries return; on a data plane the control plane has answered; a
connection breaks; a call is made. -/
inductive Event where
  | accept (k : Nat)
  | hello (k : Nat) (hello : Option Hello)
  | sent (k : Nat) (ok : Bool)
  | selected (k : Nat) (ok : Bool)
  | upserted (k : Nat)
  | connect (k : Nat) (nodeId : String) (capabilities : List String)
  | closed (k : Nat)
  | call (nodeId : String) (capability : String)
  deriving DecidableEq, Repr

/-- A label `name:value`; without a colon the code computes with `nil`. -/
def parseLabel (label : String) : Option (String × String) :=
  match label.toList.span (· ≠ ':') with
  | (_, []) => none
  | (name, _ :: value) => some (String.ofList name, String.ofList value)

/-- The labels of a hello; the outer `none` is a Lua error. -/
def parseLabels : Option (List String) → Option (Option (List (String × String)))
  | none => some none
  | some labels => (labels.mapM parseLabel).map some

namespace Registry

def init (controlPlane sync : Bool) : Registry :=
  { manager := Manager.new controlPlane, sync := sync }

def controlPlane (s : Registry) : Bool := s.manager.subUnsub.isSome

/-- A thread goes on to wait somewhere else, or ends. -/
def goto (s : Registry) (k : Nat) (phase : Option Phase) : Registry :=
  { s with threads := s.threads.set k phase }

/-- `_add_socket` and `join`. -/
def join (s : Registry) (k : Nat) (nodeId : String) : Registry :=
  let (m, ok) := s.manager.addSocket k nodeId
  ({ s with manager := m } : Registry).goto k (if ok then some (.joined nodeId) else none)

/-- The end of `_handle_meta_call`, up to where it waits. -/
def register (s : Registry) (k : Nat) (hello : Hello) : Registry :=
  if (s.manager.clientCapabilities.get hello.nodeId).isSome then s.join k hello.nodeId
  else
    let m := { s.manager with
      clientCapabilities :=
        s.manager.clientCapabilities.set hello.nodeId (some hello.capabilities) }
    match parseLabels hello.labels with
    | none => ({ s with manager := m } : Registry).goto k none
    | some labels =>
      let info := ⟨hello.ip, hello.version, labels, hello.expiryTimestamp⟩
      let s := { s with
        manager := { m with clientInfo := m.clientInfo.set hello.nodeId (some info) } }
      if s.sync then s.join k hello.nodeId else s.goto k (some (.selecting hello.nodeId))

/-- `_local_call`, up to the choice of a socket. -/
def localCall (s : Registry) (nodeId capability : String) : Registry :=
  match s.manager.clientCapabilities.get nodeId with
  | none => s
  | some capabilities =>
    if capability ∉ capabilities then s
    else
      match s.manager.clients.get nodeId with
      | none => { s with missing := true }
      | some _ => s

def step (s : Registry) : Event → Registry
  | .accept k =>
    if s.controlPlane ∧ s.threads.get k = none then s.goto k (some .receiving) else s
  | .hello k hello =>
    if s.threads.get k = some .receiving then s.goto k (hello.map .sending) else s
  | .sent k ok =>
    match s.threads.get k with
    | some (.sending hello) => if ok then s.register k hello else s.goto k none
    | _ => s
  | .selected k ok =>
    match s.threads.get k with
    | some (.selecting nodeId) =>
      if !ok then s.join k nodeId
      else
        match s.manager.clientInfo.get nodeId with
        | none => ({ s with missing := true } : Registry).goto k none
        | some _ => s.goto k (some (.upserting nodeId))
    | _ => s
  | .upserted k =>
    match s.threads.get k with
    | some (.upserting nodeId) => s.join k nodeId
    | _ => s
  | .connect k nodeId capabilities =>
    if !s.controlPlane ∧ s.threads.get k = none then
      ({ s with manager := { s.manager with
          clientCapabilities :=
            s.manager.clientCapabilities.set nodeId (some capabilities) } } : Registry).join
        k nodeId
    else s
  | .closed k =>
    match s.threads.get k with
    | some (.joined nodeId) =>
      ({ s with manager := (s.manager.removeSocket k nodeId).1 } : Registry).goto k none
    | _ => s
  | .call nodeId capability => s.localCall nodeId capability

/-! ## Consistency -/

/-- A handshake of the node is between its registration and its socket. -/
def Registering (s : Registry) (nodeId : String) : Prop :=
  ∃ k, (s.threads.get k).bind Phase.registers = some nodeId

/-- **Consistent**: a node has capabilities, and on a control plane an
address, exactly while it has a socket. -/
def Consistent (m : Manager) (nodeId : String) : Prop :=
  ((m.clientCapabilities.get nodeId).isSome ↔ m.Connected nodeId)
    ∧ (m.subUnsub.isSome → ((m.clientInfo.get nodeId).isSome ↔ m.Connected nodeId))

/-- There is room for the command that a first socket enqueues. -/
def Room (s : Registry) (nodeId : String) : Prop :=
  s.manager.clients.get nodeId = none →
    ∀ queue, s.manager.subUnsub = some queue → queue.elts.length < queue.max

/-- What a run must keep to: while a handshake is between registration and
socket, its node is not called unless another socket is there, and does
not lose its last socket; the labels of a new node have a colon; there is
room in the concentrator's queue for a new node. -/
def Orderly (s : Registry) : Event → Prop
  | .call nodeId _ => s.Registering nodeId → s.manager.Connected nodeId
  | .closed k => ∀ nodeId, s.threads.get k = some (.joined nodeId) →
      s.manager.IsLast k nodeId → ¬ s.Registering nodeId
  | .sent k ok => ∀ hello, s.threads.get k = some (.sending hello) → ok →
      s.manager.clientCapabilities.get hello.nodeId = none →
      parseLabels hello.labels ≠ none ∧ (s.sync → s.Room hello.nodeId)
  | .selected k ok => ∀ nodeId, s.threads.get k = some (.selecting nodeId) → ok = false →
      s.Room nodeId
  | .upserted k => ∀ nodeId, s.threads.get k = some (.upserting nodeId) → s.Room nodeId
  | _ => True

end Registry

end KongGateway.Kong.Clustering.Rpc

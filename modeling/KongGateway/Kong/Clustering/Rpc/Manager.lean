import KongGateway.Kong.Clustering.Rpc

/-!
# Manager — the registry of connected nodes

The manager keeps the sockets of each node, what the node can do and, on
a control plane, where it comes from. The first socket of a node makes
the concentrator listen for requests to it, the last one to go makes it
stop.
-/

namespace KongGateway.Kong.Clustering.Rpc

/-- What the concentrator is asked to run on its database connection:
`LISTEN` or `UNLISTEN` for the request channel of a node. -/
inductive Command where
  | listen (nodeId : String)
  | unlisten (nodeId : String)
  deriving DecidableEq, Repr

def Command.nodeId : Command → String
  | listen nodeId => nodeId
  | unlisten nodeId => nodeId

/-- What a control plane keeps about a node. -/
structure ClientInfo where
  ip : String
  version : String
  labels : Option (List (String × String))
  expiryTimestamp : Nat
  deriving DecidableEq, Repr

/-- The registry. Sockets are told apart by a number; the `set` of a
node's capabilities is the set of its `list`. On a control plane the
concentrator has a queue of commands. -/
structure Manager where
  clients : LuaTable String (List Nat) := ∅
  clientCapabilities : LuaTable String (List String) := ∅
  clientInfo : LuaTable String ClientInfo := ∅
  subUnsub : Option (Queue Command)

namespace Manager

/-- `manager.new` for a control plane and for a data plane. -/
def new (controlPlane : Bool) : Manager :=
  { subUnsub := if controlPlane then some (Queue.new 4096) else none }

/-- `_enqueue_subscribe` and `_enqueue_unsubscribe`; there is nothing to
do without a concentrator. -/
def enqueue (m : Manager) (command : Command) : Option Manager :=
  match m.subUnsub with
  | none => some m
  | some queue => (queue.push command).map fun queue => { m with subUnsub := some queue }

/-- `_add_socket`, and whether its assertions held. -/
def addSocket (m : Manager) (socket : Nat) (nodeId : String) : Manager × Bool :=
  match m.clients.get nodeId with
  | none =>
    match m.enqueue (.listen nodeId) with
    | none => (m, false)
    | some m => ({ m with clients := m.clients.set nodeId (some [socket]) }, true)
  | some sockets =>
    if socket ∈ sockets then (m, false)
    else ({ m with clients := m.clients.set nodeId (some (socket :: sockets)) }, true)

/-- The registry without a node. -/
def forget (m : Manager) (nodeId : String) : Manager :=
  { m with
    clients := m.clients.set nodeId none
    clientCapabilities := m.clientCapabilities.set nodeId none
    clientInfo := if m.subUnsub.isSome then m.clientInfo.set nodeId none else m.clientInfo }

/-- The sockets other than one. -/
def without (socket : Nat) (sockets : List Nat) : List Nat := sockets.filter (· ≠ socket)

theorem mem_without {socket other : Nat} {sockets : List Nat} :
    other ∈ without socket sockets ↔ other ∈ sockets ∧ other ≠ socket := by
  simp [without]

/-- `_remove_socket`, and whether its assertions held. The last one comes
after the node is forgotten. -/
def removeSocket (m : Manager) (socket : Nat) (nodeId : String) : Manager × Bool :=
  match m.clients.get nodeId with
  | none => (m, false)
  | some sockets =>
    if socket ∉ sockets then (m, false)
    else if (without socket sockets).isEmpty then
      match (m.forget nodeId).enqueue (.unlisten nodeId) with
      | none => (m.forget nodeId, false)
      | some m => (m, true)
    else ({ m with clients := m.clients.set nodeId (some (without socket sockets)) }, true)

/-- The sockets of a node. -/
def sockets (m : Manager) (nodeId : String) : List Nat := (m.clients.get nodeId).getD []

/-- A node with at least one socket. -/
def Connected (m : Manager) (nodeId : String) : Prop := m.sockets nodeId ≠ []

instance (m : Manager) (nodeId : String) : Decidable (m.Connected nodeId) :=
  inferInstanceAs (Decidable (m.sockets nodeId ≠ []))

/-- The only socket of a node. -/
def IsLast (m : Manager) (socket : Nat) (nodeId : String) : Prop :=
  socket ∈ m.sockets nodeId ∧ ∀ other ∈ m.sockets nodeId, other = socket

/-- The commands that wait for the concentrator. -/
def commands (m : Manager) : List Command := (m.subUnsub.map Queue.elts).getD []

/-! ## What the operations do -/

/-- `enqueue` touches the queue only. -/
theorem enqueue_eq_some {m m' : Manager} {command : Command} (h : m.enqueue command = some m') :
    m'.clients = m.clients ∧ m'.clientCapabilities = m.clientCapabilities
      ∧ m'.clientInfo = m.clientInfo ∧ m'.subUnsub.isSome = m.subUnsub.isSome
      ∧ (m.subUnsub.isSome → m'.commands = m.commands ++ [command]) := by
  unfold enqueue at h
  cases hqueue : m.subUnsub with
  | none =>
    rw [hqueue] at h
    obtain rfl := Option.some.inj h
    exact ⟨rfl, rfl, rfl, by rw [hqueue], fun hsome => absurd hsome (by simp)⟩
  | some queue =>
    rw [hqueue] at h
    obtain ⟨queue', hpush, rfl⟩ := Option.map_eq_some_iff.mp h
    obtain ⟨-, rfl⟩ := Queue.push_eq_some hpush
    exact ⟨rfl, rfl, rfl, rfl, fun _ => by simp [commands, hqueue]⟩

/-- Everything `_add_socket` can do: nothing; register a new node and ask
the concentrator to listen; add to the sockets of a known node. -/
theorem addSocket_cases (m : Manager) (socket : Nat) (nodeId : String) :
    (m.addSocket socket nodeId = (m, false)
        ∧ (m.clients.get nodeId = none ∧ m.enqueue (.listen nodeId) = none
          ∨ socket ∈ m.sockets nodeId))
      ∨ (∃ m', m.clients.get nodeId = none ∧ m.enqueue (.listen nodeId) = some m'
        ∧ m.addSocket socket nodeId
          = ({ m' with clients := m'.clients.set nodeId (some [socket]) }, true))
      ∨ (∃ sockets, m.clients.get nodeId = some sockets ∧ socket ∉ sockets
        ∧ m.addSocket socket nodeId
          = ({ m with clients := m.clients.set nodeId (some (socket :: sockets)) }, true)) := by
  unfold addSocket
  cases hget : m.clients.get nodeId with
  | none =>
    cases henqueue : m.enqueue (.listen nodeId) with
    | none => exact .inl ⟨rfl, .inl ⟨rfl, rfl⟩⟩
    | some m' => exact .inr (.inl ⟨m', rfl, rfl, rfl⟩)
  | some sockets =>
    by_cases hmem : socket ∈ sockets
    · exact .inl ⟨if_pos hmem, .inr (by simpa [Manager.sockets, hget] using hmem)⟩
    · exact .inr (.inr ⟨sockets, rfl, hmem, if_neg hmem⟩)

/-- Everything `_remove_socket` can do: nothing; forget the node, and ask
the concentrator to stop listening if there is room in its queue; take
one of several sockets away. -/
theorem removeSocket_cases (m : Manager) (socket : Nat) (nodeId : String) :
    (m.removeSocket socket nodeId = (m, false) ∧ socket ∉ m.sockets nodeId)
      ∨ (∃ sockets, m.clients.get nodeId = some sockets ∧ socket ∈ sockets
        ∧ without socket sockets = []
        ∧ ((∃ m', (m.forget nodeId).enqueue (.unlisten nodeId) = some m'
            ∧ m.removeSocket socket nodeId = (m', true))
          ∨ ((m.forget nodeId).enqueue (.unlisten nodeId) = none
            ∧ m.removeSocket socket nodeId = (m.forget nodeId, false))))
      ∨ (∃ sockets, m.clients.get nodeId = some sockets ∧ socket ∈ sockets
        ∧ without socket sockets ≠ []
        ∧ m.removeSocket socket nodeId
          = ({ m with clients := m.clients.set nodeId (some (without socket sockets)) }, true)) := by
  unfold removeSocket
  cases hget : m.clients.get nodeId with
  | none => exact .inl ⟨rfl, by simp [sockets, hget]⟩
  | some sockets =>
    by_cases hmem : socket ∈ sockets
    · cases hrest : without socket sockets with
      | nil =>
        refine .inr (.inl ⟨sockets, rfl, hmem, hrest, ?_⟩)
        cases henqueue : (m.forget nodeId).enqueue (.unlisten nodeId) with
        | none => exact .inr ⟨rfl, by simp [hmem, hrest]⟩
        | some m' => exact .inl ⟨m', rfl, by simp [hmem, hrest]⟩
      | cons first rest =>
        exact .inr (.inr ⟨sockets, rfl, hmem, by simp [hrest], by simp [hmem, hrest]⟩)
    · exact .inl ⟨by simp [hmem], by simpa [Manager.sockets, hget] using hmem⟩

/-! ## Nodes without sockets -/

/-- No node is kept without a socket. -/
def NoEmpty (m : Manager) : Prop := ∀ nodeId, m.clients.get nodeId ≠ some []

theorem noEmpty_set {m m' : Manager} (h : m.NoEmpty) (nodeId : String)
    (sockets : Option (List Nat)) (hsockets : sockets ≠ some [])
    (hclients : m'.clients = m.clients.set nodeId sockets) : m'.NoEmpty := by
  intro node
  rw [hclients, LuaTable.get_set]
  split
  · exact hsockets
  · exact h node

theorem NoEmpty.addSocket {m : Manager} (h : m.NoEmpty) (socket : Nat) (nodeId : String) :
    (m.addSocket socket nodeId).1.NoEmpty := by
  rcases addSocket_cases m socket nodeId with
    ⟨hadd, -⟩ | ⟨m', -, henqueue, hadd⟩ | ⟨sockets, -, -, hadd⟩
  · rw [hadd]
    exact h
  · rw [hadd]
    exact noEmpty_set h nodeId (some [socket]) (by simp) (by rw [(enqueue_eq_some henqueue).1])
  · rw [hadd]
    exact noEmpty_set h nodeId (some (socket :: sockets)) (by simp) rfl

theorem NoEmpty.removeSocket {m : Manager} (h : m.NoEmpty) (socket : Nat) (nodeId : String) :
    (m.removeSocket socket nodeId).1.NoEmpty := by
  have hforget : (m.forget nodeId).NoEmpty := noEmpty_set h nodeId none (by simp) rfl
  rcases removeSocket_cases m socket nodeId with
    ⟨hremove, -⟩ | ⟨sockets, -, -, -, ⟨m', henqueue, hremove⟩ | ⟨-, hremove⟩⟩
      | ⟨sockets, -, -, hrest, hremove⟩
  · rw [hremove]
    exact h
  · rw [hremove]
    intro node
    rw [(enqueue_eq_some henqueue).1]
    exact hforget node
  · rw [hremove]
    exact hforget
  · rw [hremove]
    exact noEmpty_set h nodeId (some (without socket sockets)) (by simpa using hrest) rfl

theorem NoEmpty.connected_iff {m : Manager} (h : m.NoEmpty) (nodeId : String) :
    m.Connected nodeId ↔ (m.clients.get nodeId).isSome := by
  cases hget : m.clients.get nodeId with
  | none => simp [Connected, sockets, hget]
  | some sockets =>
    have hne : sockets ≠ [] := by
      rintro rfl
      exact h nodeId hget
    simp [Connected, Manager.sockets, hget, hne]

end Manager

end KongGateway.Kong.Clustering.Rpc

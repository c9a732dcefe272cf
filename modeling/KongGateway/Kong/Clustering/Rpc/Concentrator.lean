import KongGateway.Kong.Clustering.Rpc.Manager

/-!
# Concentrator — listening for the nodes that are connected

The event loop runs the queued commands on its database connection. The
channels it listens to belong to that connection and are gone with it;
the loop that is started afterwards subscribes to the worker's own
response channel and goes on with the queue.
-/

namespace KongGateway.Kong.Clustering.Rpc

/-! ## The event loop -/

/-- `LISTEN` and `UNLISTEN` on a connection, by the node of the request
channel. -/
def Command.run (channels : List String) : Command → List String
  | listen nodeId => if nodeId ∈ channels then channels else nodeId :: channels
  | unlisten nodeId => channels.filter (· ≠ nodeId)

/-- The manager of a control plane, and the request channels its current
database connection listens to. -/
structure Listener where
  manager : Manager
  connection : Option (List String)

/-- A socket is added or removed; the event loop takes a command from the
queue (or keeps the connection alive) and goes on, or fails, perhaps with
the command it has just taken; the loop is started again. -/
inductive LoopInput where
  | add (socket : Nat) (nodeId : String)
  | remove (socket : Nat) (nodeId : String)
  | iterate
  | fail (taken : Bool)
  | start
  deriving DecidableEq, Repr

namespace Listener

def init : Listener := ⟨Manager.new true, none⟩

/-- The manager once the loop has taken a command from the queue. -/
def take (m : Manager) : Manager :=
  { m with subUnsub := m.subUnsub.map fun queue => queue.pop.2 }

def step (s : Listener) : LoopInput → Listener
  | .add socket nodeId => { s with manager := (s.manager.addSocket socket nodeId).1 }
  | .remove socket nodeId => { s with manager := (s.manager.removeSocket socket nodeId).1 }
  | .iterate =>
    match s.connection, s.manager.commands with
    | some channels, command :: _ => ⟨take s.manager, some (command.run channels)⟩
    | _, _ => s
  | .fail taken =>
    match s.connection with
    | none => s
    | some _ => ⟨if taken then take s.manager else s.manager, none⟩
  | .start =>
    match s.connection with
    | none => { s with connection := some [] }
    | some _ => s

/-- **Exactly the connected nodes**: with nothing left in the queue, the
connection listens for a node if and only if it has a socket. -/
def Exact (s : Listener) : Prop :=
  s.manager.commands = [] → ∀ channels, s.connection = some channels →
    ∀ nodeId, nodeId ∈ channels ↔ s.manager.Connected nodeId

/-- A failure finds a command for every connected node in the queue, not
counting one that fails with it; and there is room in the queue when a
node's last socket is removed. -/
def Kept (s : Listener) : LoopInput → Prop
  | .fail taken => s.connection ≠ none → ∀ nodeId, s.manager.Connected nodeId →
      ∃ command ∈ (if taken then s.manager.commands.tail else s.manager.commands),
        command.nodeId = nodeId
  | .remove socket nodeId => s.manager.IsLast socket nodeId →
      ∀ queue, s.manager.subUnsub = some queue → queue.elts.length < queue.max
  | _ => True

end Listener

/-! ## Commands -/

theorem mem_run {channels : List String} {command : Command} {nodeId : String} :
    nodeId ∈ command.run channels
      ↔ command = .listen nodeId ∨ (command.nodeId ≠ nodeId ∧ nodeId ∈ channels) := by
  cases command with
  | listen node =>
    dsimp only [Command.run, Command.nodeId]
    by_cases heq : node = nodeId
    · subst heq
      split <;> simp [*]
    · split
      · simp [heq]
      · simp [heq, Ne.symm heq]
  | unlisten node =>
    simp only [Command.run, Command.nodeId, List.mem_filter, reduceCtorEq, false_or,
      decide_eq_true_eq]
    exact ⟨fun h => ⟨Ne.symm h.2, h.1⟩, fun h => ⟨h.2, Ne.symm h.1⟩⟩

theorem mem_foldl_run_of_unnamed {commands : List Command} {nodeId : String}
    (h : ∀ command ∈ commands, command.nodeId ≠ nodeId) (channels : List String) :
    nodeId ∈ commands.foldl Command.run channels ↔ nodeId ∈ channels := by
  induction commands generalizing channels with
  | nil => exact Iff.rfl
  | cons command rest ih =>
    have hother := h command List.mem_cons_self
    have hlisten : command ≠ .listen nodeId := by
      rintro rfl
      exact hother rfl
    rw [List.foldl_cons, ih fun c hc => h c (List.mem_cons_of_mem command hc), mem_run]
    simp [hlisten, hother]

/-- For a node some command names, the commands decide, whatever the
connection listened to before. -/
theorem mem_foldl_run_of_named {commands : List Command} {nodeId : String}
    (h : ∃ command ∈ commands, command.nodeId = nodeId) (channels channels' : List String) :
    nodeId ∈ commands.foldl Command.run channels
      ↔ nodeId ∈ commands.foldl Command.run channels' := by
  induction commands generalizing channels channels' with
  | nil =>
    obtain ⟨command, hmem, -⟩ := h
    exact absurd hmem List.not_mem_nil
  | cons command rest ih =>
    by_cases hrest : ∃ c ∈ rest, c.nodeId = nodeId
    · exact ih hrest _ _
    · obtain ⟨c, hc, hnode⟩ := h
      have hunnamed : ∀ c ∈ rest, c.nodeId ≠ nodeId := fun c hc heq => hrest ⟨c, hc, heq⟩
      have hhead : command.nodeId = nodeId := by
        rcases List.mem_cons.mp hc with rfl | hc
        · exact hnode
        · exact absurd hnode (hunnamed c hc)
      rw [List.foldl_cons, List.foldl_cons, mem_foldl_run_of_unnamed hunnamed,
        mem_foldl_run_of_unnamed hunnamed, mem_run, mem_run]
      simp [hhead]

/-! ## The invariant -/

namespace Listener

/-- The channels the connection will listen to once the queue is empty. -/
def destined (s : Listener) : List String :=
  s.manager.commands.foldl Command.run (s.connection.getD [])

/-- What is queued leads to listening for exactly the connected nodes. -/
structure Inv (s : Listener) : Prop where
  controlPlane : s.manager.subUnsub.isSome
  noEmpty : s.manager.NoEmpty
  destined_iff : ∀ nodeId, nodeId ∈ s.destined ↔ s.manager.Connected nodeId

theorem Inv.init : Inv init where
  controlPlane := rfl
  noEmpty := fun nodeId => by simp [Listener.init, Manager.new]
  destined_iff := fun nodeId => by
    simp [destined, Listener.init, Manager.commands, Manager.new, Queue.new, Manager.Connected,
      Manager.sockets]

theorem Inv.exact {s : Listener} (h : Inv s) : s.Exact := by
  intro hempty channels hchannels nodeId
  rw [← h.destined_iff nodeId, destined, hempty, hchannels]
  rfl

theorem connected_set {m : Manager} {nodeId : String} {sockets : List Nat} {node : String} :
    ({ m with clients := m.clients.set nodeId (some sockets) } : Manager).Connected node
      ↔ if node = nodeId then sockets ≠ [] else m.Connected node := by
  dsimp only [Manager.Connected, Manager.sockets]
  rw [LuaTable.get_set]
  split <;> simp

theorem connected_forget {m : Manager} {nodeId node : String} :
    (m.forget nodeId).Connected node ↔ node ≠ nodeId ∧ m.Connected node := by
  dsimp only [Manager.forget, Manager.Connected, Manager.sockets]
  rw [LuaTable.get_set]
  split
  · rename_i heq
    simp [heq]
  · rename_i hne
    simp [hne]

theorem mem_destined_push {s : Listener} {m : Manager} {command : Command}
    (hcommands : m.commands = s.manager.commands ++ [command]) {nodeId : String} :
    nodeId ∈ ({ s with manager := m } : Listener).destined
      ↔ command = .listen nodeId ∨ (command.nodeId ≠ nodeId ∧ nodeId ∈ s.destined) := by
  rw [destined, hcommands, List.foldl_append, List.foldl_cons, List.foldl_nil, mem_run]
  rfl

theorem Inv.add {s : Listener} (h : Inv s) (socket : Nat) (nodeId : String) :
    Inv (s.step (.add socket nodeId)) := by
  have hcp := h.controlPlane
  have hnoEmpty := h.noEmpty.addSocket socket nodeId
  dsimp only [step]
  rcases Manager.addSocket_cases s.manager socket nodeId with
    ⟨hadd, -⟩ | ⟨m', -, henqueue, hadd⟩ | ⟨sockets, hget, -, hadd⟩
  · rw [hadd]
    exact h
  · rw [hadd] at hnoEmpty ⊢
    obtain ⟨hclients, -, -, hsome, hcommands⟩ := Manager.enqueue_eq_some henqueue
    refine ⟨hsome.trans hcp, hnoEmpty, fun node => ?_⟩
    have hpush : ({ m' with clients := m'.clients.set nodeId (some [socket]) } : Manager).commands
        = s.manager.commands ++ [Command.listen nodeId] := hcommands hcp
    have hconnected : m'.Connected node ↔ s.manager.Connected node := by
      rw [Manager.Connected, Manager.Connected, Manager.sockets, Manager.sockets, hclients]
    rw [mem_destined_push hpush, connected_set, h.destined_iff node]
    split
    · rename_i heq
      simp [heq]
    · rename_i hne
      simp [Ne.symm hne, hconnected, Command.nodeId]
  · rw [hadd] at hnoEmpty ⊢
    refine ⟨hcp, hnoEmpty, fun node => ?_⟩
    have hdestined : ({ s with manager := { s.manager with
        clients := s.manager.clients.set nodeId (some (socket :: sockets)) } } : Listener).destined
        = s.destined := rfl
    rw [hdestined, h.destined_iff node, connected_set]
    split
    · rename_i heq
      rw [heq, h.noEmpty.connected_iff, hget]
      simp
    · exact Iff.rfl

theorem Inv.remove {s : Listener} (h : Inv s) (socket : Nat) (nodeId : String)
    (hkept : s.Kept (.remove socket nodeId)) : Inv (s.step (.remove socket nodeId)) := by
  have hcp := h.controlPlane
  have hnoEmpty := h.noEmpty.removeSocket socket nodeId
  dsimp only [step]
  rcases Manager.removeSocket_cases s.manager socket nodeId with
    ⟨hremove, -⟩ | ⟨sockets, hget, hmem, hrest, ⟨m', henqueue, hremove⟩ | ⟨henqueue, hremove⟩⟩
      | ⟨sockets, hget, -, hrest, hremove⟩
  · rw [hremove]
    exact h
  · rw [hremove] at hnoEmpty ⊢
    obtain ⟨hclients, -, -, hsome, hcommands⟩ := Manager.enqueue_eq_some henqueue
    refine ⟨hsome.trans hcp, hnoEmpty, fun node => ?_⟩
    have hpush : m'.commands = s.manager.commands ++ [Command.unlisten nodeId] := hcommands hcp
    have hconnected : m'.Connected node ↔ (s.manager.forget nodeId).Connected node := by
      rw [Manager.Connected, Manager.Connected, Manager.sockets, Manager.sockets, hclients]
    rw [mem_destined_push hpush, hconnected, connected_forget, h.destined_iff node]
    simp only [reduceCtorEq, false_or, Command.nodeId]
    rw [ne_comm]
  · -- the queue has room for the command
    obtain ⟨queue, hqueue⟩ := Option.isSome_iff_exists.mp hcp
    have hlast : s.manager.IsLast socket nodeId := by
      have hsockets : s.manager.sockets nodeId = sockets := by simp [Manager.sockets, hget]
      rw [Manager.IsLast, hsockets]
      refine ⟨hmem, fun other hother => ?_⟩
      by_contra hne
      have hleft := Manager.mem_without.mpr ⟨hother, hne⟩
      rw [hrest] at hleft
      exact List.not_mem_nil hleft
    have hroom := hkept hlast queue hqueue
    have hfull : (queue.push (.unlisten nodeId)) = none := by
      unfold Manager.enqueue at henqueue
      have hsame : (s.manager.forget nodeId).subUnsub = some queue := hqueue
      rw [hsame] at henqueue
      exact Option.map_eq_none_iff.mp henqueue
    rw [Queue.push, if_neg (Nat.not_le.mpr hroom)] at hfull
    cases hfull
  · rw [hremove] at hnoEmpty ⊢
    refine ⟨hcp, hnoEmpty, fun node => ?_⟩
    have hdestined : ({ s with manager := { s.manager with
        clients := s.manager.clients.set nodeId (some (Manager.without socket sockets)) } } :
        Listener).destined = s.destined := rfl
    rw [hdestined, h.destined_iff node, connected_set]
    split
    · rename_i heq
      rw [heq, h.noEmpty.connected_iff, hget]
      simp [hrest]
    · exact Iff.rfl

theorem commands_take (m : Manager) : (take m).commands = m.commands.tail := by
  cases hqueue : m.subUnsub <;> simp [take, Manager.commands, hqueue, Queue.pop]

theorem Inv.iterate {s : Listener} (h : Inv s) : Inv (s.step .iterate) := by
  dsimp only [step]
  split
  · rename_i channels command rest hconnection hcommands
    refine ⟨by simpa [take] using h.controlPlane, h.noEmpty, fun node => ?_⟩
    have hdestined : (⟨take s.manager, some (command.run channels)⟩ : Listener).destined
        = s.destined := by
      rw [destined, destined, commands_take, hconnection, hcommands]
      rfl
    rw [hdestined]
    exact h.destined_iff node
  · exact h

/-- What a failure leaves in the queue decides about the nodes it names;
the others are not connected. -/
theorem Inv.fail {s : Listener} (h : Inv s) (taken : Bool) (hkept : s.Kept (.fail taken)) :
    Inv (s.step (.fail taken)) := by
  dsimp only [step]
  cases hconnection : s.connection with
  | none => exact h
  | some channels =>
    have hkept' := hkept (by simp [hconnection])
    have hcommands : (if taken then take s.manager else s.manager).commands
        = if taken then s.manager.commands.tail else s.manager.commands := by
      split <;> simp [commands_take]
    refine ⟨?_, ?_, fun node => ?_⟩
    · dsimp only
      split
      · simpa [take] using h.controlPlane
      · exact h.controlPlane
    · dsimp only
      split <;> exact h.noEmpty
    · have hconnected : (if taken then take s.manager else s.manager).Connected node
          ↔ s.manager.Connected node := by
        split <;> exact Iff.rfl
      -- the queue of before, as the part that is lost and the part that is left
      obtain ⟨lost, hlost⟩ : ∃ lost, s.manager.commands
          = lost ++ (if taken then s.manager.commands.tail else s.manager.commands) := by
        split
        · cases s.manager.commands with
          | nil => exact ⟨[], rfl⟩
          | cons command rest => exact ⟨[command], rfl⟩
        · exact ⟨[], rfl⟩
      have hdestined := h.destined_iff node
      rw [destined, hlost, List.foldl_append] at hdestined
      rw [hconnected, destined, hcommands, ← hdestined]
      by_cases hnamed : ∃ command ∈
          (if taken then s.manager.commands.tail else s.manager.commands), command.nodeId = node
      · exact mem_foldl_run_of_named hnamed _ _
      · have hunnamed : ∀ command ∈
            (if taken then s.manager.commands.tail else s.manager.commands),
            command.nodeId ≠ node := fun command hmem heq => hnamed ⟨command, hmem, heq⟩
        have hnot : ¬ s.manager.Connected node := fun hc => hnamed (hkept' node hc)
        rw [hdestined, mem_foldl_run_of_unnamed hunnamed]
        simp [hnot]

theorem Inv.start {s : Listener} (h : Inv s) : Inv (s.step .start) := by
  dsimp only [step]
  cases hconnection : s.connection with
  | some channels => exact h
  | none =>
    refine ⟨h.controlPlane, h.noEmpty, fun node => ?_⟩
    have hdestined : ({ s with connection := some [] } : Listener).destined = s.destined := by
      rw [destined, destined, hconnection]
      rfl
    rw [hdestined]
    exact h.destined_iff node

theorem Inv.step {s : Listener} (h : Inv s) (input : LoopInput) (hkept : s.Kept input) :
    Inv (s.step input) := by
  cases input with
  | add socket nodeId => exact h.add socket nodeId
  | remove socket nodeId => exact h.remove socket nodeId hkept
  | iterate => exact h.iterate
  | fail taken => exact h.fail taken hkept
  | start => exact h.start

end Listener

/-! ## Every run -/

/-- In every run in which no failure loses the subscription of a
connected node, the connection listens for exactly the connected nodes
whenever the queue is empty. -/
theorem listens_for_connected_nodes (inputs : List LoopInput)
    (h : Run.Guarded Listener.step Listener.Kept Listener.init inputs) :
    (Run.exec Listener.step Listener.init inputs).Exact := by
  refine Listener.Inv.exact (Run.Guarded.invariant ?_ Listener.Inv.init h)
  intro s input hs hkept
  exact hs.step input hkept

/-- The connection fails before it has run the command for a new node;
the next one runs it. -/
theorem listens_for_node_queued_over_failure :
    (Run.exec Listener.step Listener.init
      [.start, .add 1 "a", .fail false, .start, .iterate]).Exact := by
  refine listens_for_connected_nodes _ ⟨trivial, trivial, ?_, trivial, trivial, trivial⟩
  intro _ nodeId hconnected
  refine ⟨.listen "a", by decide, ?_⟩
  by_contra hne
  have hother : nodeId ≠ "a" := fun heq => hne heq.symm
  refine hconnected ?_
  rw [Manager.sockets]
  have hget : ((∅ : LuaTable String (List Nat)).set "a" (some [1])).get nodeId = none := by
    rw [LuaTable.get_set_ne _ hother, LuaTable.get_empty]
  exact congrArg (Option.getD · []) hget

/-- A node keeps its socket over a failure of the connection, and the
connection that follows does not listen for it. -/
theorem failure_loses_subscription :
    ¬ (Run.exec Listener.step Listener.init
      [.start, .add 1 "a", .iterate, .fail false, .start]).Exact := by
  intro h
  have hiff := h (by decide) [] (by decide) "a"
  exact absurd (hiff.mpr (by decide)) (by decide)

end KongGateway.Kong.Clustering.Rpc

import KongGateway.Kong.Clustering.Rpc.Handshake

/-!
# Registry — the registry under interleaved handshakes

A node has capabilities exactly while it has a socket or one of its
handshakes is between registration and socket. Every event of an orderly
run keeps this, and a call that comes when no handshake is in between
finds the registry consistent.
-/

namespace KongGateway.Kong.Clustering.Rpc.Registry

variable {s : Registry}

/-! ## Threads -/

theorem registering_goto {k : Nat} {phase : Option Phase} {nodeId : String} :
    (s.goto k phase).Registering nodeId
      ↔ phase.bind Phase.registers = some nodeId
        ∨ ∃ k', k' ≠ k ∧ (s.threads.get k').bind Phase.registers = some nodeId := by
  unfold Registering goto
  constructor
  · rintro ⟨k', hk'⟩
    dsimp only at hk'
    rw [LuaTable.get_set] at hk'
    split at hk'
    · exact .inl hk'
    · rename_i hne
      exact .inr ⟨k', hne, hk'⟩
  · rintro (hphase | ⟨k', hne, hk'⟩)
    · exact ⟨k, by rw [LuaTable.get_set_self]; exact hphase⟩
    · exact ⟨k', by rw [LuaTable.get_set_ne _ hne]; exact hk'⟩

theorem registering_goto_idle {k : Nat} {phase : Option Phase} {nodeId : String}
    (hbefore : (s.threads.get k).bind Phase.registers ≠ some nodeId)
    (hafter : phase.bind Phase.registers ≠ some nodeId) :
    (s.goto k phase).Registering nodeId ↔ s.Registering nodeId := by
  rw [registering_goto]
  constructor
  · rintro (hphase | ⟨k', -, hk'⟩)
    · exact absurd hphase hafter
    · exact ⟨k', hk'⟩
  · rintro ⟨k', hk'⟩
    refine .inr ⟨k', ?_, hk'⟩
    rintro rfl
    exact hbefore hk'

/-! ## The invariant -/

/-- A node that has a socket or is about to get one. -/
def Present (s : Registry) (nodeId : String) : Prop :=
  s.manager.Connected nodeId ∨ s.Registering nodeId

structure Inv (s : Registry) : Prop where
  noEmpty : s.manager.NoEmpty
  joined : ∀ k nodeId, k ∈ s.manager.sockets nodeId → s.threads.get k = some (.joined nodeId)
  capabilities : ∀ nodeId, (s.manager.clientCapabilities.get nodeId).isSome ↔ s.Present nodeId
  info : s.controlPlane →
    ∀ nodeId, (s.manager.clientInfo.get nodeId).isSome ↔ s.Present nodeId
  found : s.missing = false

theorem Inv.init (controlPlane sync : Bool) : Inv (init controlPlane sync) := by
  have hsockets : ∀ nodeId, (Registry.init controlPlane sync).manager.sockets nodeId = [] :=
    fun _ => rfl
  have hnone : ∀ nodeId, ¬ (Registry.init controlPlane sync).Present nodeId := by
    rintro nodeId (hconnected | ⟨k, hk⟩)
    · exact hconnected (hsockets nodeId)
    · simp [Registry.init] at hk
  refine ⟨?_, ?_, ?_, ?_, rfl⟩
  · intro nodeId
    simp [Registry.init, Manager.new]
  · intro k nodeId hk
    rw [hsockets] at hk
    exact absurd hk List.not_mem_nil
  · exact fun nodeId => ⟨fun h => absurd h Bool.false_ne_true,
      fun h => absurd h (hnone nodeId)⟩
  · exact fun _ nodeId => ⟨fun h => absurd h Bool.false_ne_true,
      fun h => absurd h (hnone nodeId)⟩

/-- A thread that is not in `join` goes on without touching the
registry, and registers what it registered before. -/
theorem Inv.goto (h : Inv s) {k : Nat} {phase : Option Phase}
    (hbefore : ∀ nodeId, s.threads.get k ≠ some (.joined nodeId))
    (hsame : phase.bind Phase.registers = (s.threads.get k).bind Phase.registers) :
    Inv (s.goto k phase) := by
  have hregistering : ∀ nodeId, (s.goto k phase).Registering nodeId ↔ s.Registering nodeId := by
    intro nodeId
    rw [registering_goto, hsame]
    constructor
    · rintro (hk | ⟨k', -, hk'⟩)
      · exact ⟨k, hk⟩
      · exact ⟨k', hk'⟩
    · rintro ⟨k', hk'⟩
      by_cases heq : k' = k
      · exact .inl (heq ▸ hk')
      · exact .inr ⟨k', heq, hk'⟩
  have hpresent : ∀ nodeId, (s.goto k phase).Present nodeId ↔ s.Present nodeId :=
    fun nodeId => or_congr_right (hregistering nodeId)
  refine ⟨h.noEmpty, ?_, ?_, ?_, h.found⟩
  · intro k' nodeId hk'
    have hjoined := h.joined k' nodeId hk'
    have hne : k' ≠ k := by
      rintro rfl
      exact hbefore nodeId hjoined
    rw [Registry.goto, LuaTable.get_set_ne _ hne]
    exact hjoined
  · intro nodeId
    rw [hpresent]
    exact h.capabilities nodeId
  · intro hcp nodeId
    rw [hpresent]
    exact h.info hcp nodeId

/-! ## Adding a socket -/

section Join

variable {k : Nat} {nodeId : String}

/-- What `_add_socket` changes in the registry when its assertions
hold. -/
structure Added (m m' : Manager) (k : Nat) (nodeId : String) : Prop where
  capabilities : m'.clientCapabilities = m.clientCapabilities
  info : m'.clientInfo = m.clientInfo
  controlPlane : m'.subUnsub.isSome = m.subUnsub.isSome
  sockets_self : m'.sockets nodeId = k :: m.sockets nodeId
  sockets_other : ∀ node, node ≠ nodeId → m'.sockets node = m.sockets node

theorem addSocket_succeeds {m : Manager} (hnew : k ∉ m.sockets nodeId)
    (hroom : m.clients.get nodeId = none →
      ∀ queue, m.subUnsub = some queue → queue.elts.length < queue.max) :
    ∃ m', m.addSocket k nodeId = (m', true) := by
  rcases Manager.addSocket_cases m k nodeId with
    ⟨-, ⟨hget, henqueue⟩ | hmem⟩ | ⟨m', -, -, hadd⟩ | ⟨sockets, -, -, hadd⟩
  · unfold Manager.enqueue at henqueue
    cases hqueue : m.subUnsub with
    | none =>
      rw [hqueue] at henqueue
      cases henqueue
    | some queue =>
      rw [hqueue] at henqueue
      have hfull := Option.map_eq_none_iff.mp henqueue
      rw [Queue.push, if_neg (Nat.not_le.mpr (hroom hget queue hqueue))] at hfull
      cases hfull
  · exact absurd hmem hnew
  · exact ⟨_, hadd⟩
  · exact ⟨_, hadd⟩

theorem added_of_addSocket {m m' : Manager} (h : m.addSocket k nodeId = (m', true)) :
    Added m m' k nodeId := by
  have hset : ∀ (t : LuaTable String (List Nat)) (sockets : List Nat) (node : String),
      node ≠ nodeId → ((t.set nodeId (some sockets)).get node).getD [] = (t.get node).getD [] := by
    intro t sockets node hne
    rw [LuaTable.get_set_ne _ hne]
  rcases Manager.addSocket_cases m k nodeId with
    ⟨hadd, -⟩ | ⟨m₁, hget, henqueue, hadd⟩ | ⟨sockets, hget, -, hadd⟩
  · rw [h] at hadd
    cases hadd
  · obtain ⟨hclients, hcaps, hinfo, hsome, -⟩ := Manager.enqueue_eq_some henqueue
    obtain rfl : m' = _ := (Prod.mk.inj (h.symm.trans hadd)).1
    refine ⟨hcaps, hinfo, hsome, ?_, ?_⟩
    · simp [Manager.sockets, hget]
    · intro node hne
      rw [Manager.sockets, hset _ _ node hne, hclients]
      rfl
  · obtain rfl : m' = _ := (Prod.mk.inj (h.symm.trans hadd)).1
    refine ⟨rfl, rfl, rfl, ?_, ?_⟩
    · simp [Manager.sockets, hget]
    · exact fun node hne => hset _ _ node hne

theorem Added.connected_iff {m m' : Manager} (h : Added m m' k nodeId) (node : String) :
    m'.Connected node ↔ node = nodeId ∨ m.Connected node := by
  by_cases heq : node = nodeId
  · subst heq
    simp [Manager.Connected, h.sockets_self]
  · simp [Manager.Connected, h.sockets_other node heq, heq]

theorem join_of_added {m' : Manager} (h : s.manager.addSocket k nodeId = (m', true)) :
    s.join k nodeId = ({ s with manager := m' } : Registry).goto k (some (.joined nodeId)) := by
  rw [Registry.join, h]
  rfl

theorem Inv.join_added (h : Inv s) (hpresent : s.Present nodeId)
    (hbefore : ∀ node, s.threads.get k ≠ some (.joined node))
    (honly : ∀ node, (s.threads.get k).bind Phase.registers = some node → node = nodeId)
    {m' : Manager} (hadd : s.manager.addSocket k nodeId = (m', true)) :
    Inv (s.join k nodeId) := by
  have hadded := added_of_addSocket hadd
  have hnoEmpty := h.noEmpty.addSocket k nodeId
  have hjoin := join_of_added hadd
  have hpresent' : ∀ node, (s.join k nodeId).Present node ↔ s.Present node := by
    intro node
    have hconnected : (s.join k nodeId).manager.Connected node
        ↔ node = nodeId ∨ s.manager.Connected node := by
      rw [hjoin]
      exact hadded.connected_iff node
    have hregistering : (s.join k nodeId).Registering node
        ↔ ∃ k', k' ≠ k ∧ (s.threads.get k').bind Phase.registers = some node := by
      rw [hjoin, registering_goto]
      exact or_iff_right (by simp [Phase.registers])
    rw [Present, hconnected, hregistering]
    by_cases heq : node = nodeId
    · subst heq
      exact ⟨fun _ => hpresent, fun _ => .inl (.inl rfl)⟩
    · rw [or_iff_right heq]
      refine or_congr_right ⟨fun ⟨k', _, hk'⟩ => ⟨k', hk'⟩, fun ⟨k', hk'⟩ => ⟨k', ?_, hk'⟩⟩
      rintro rfl
      exact heq (honly node hk')
  rw [hadd] at hnoEmpty
  refine ⟨?_, ?_, ?_, ?_, ?_⟩
  · rw [hjoin]
    exact hnoEmpty
  · intro k' node hk'
    rw [hjoin] at hk' ⊢
    change k' ∈ m'.sockets node at hk'
    rw [Registry.goto, LuaTable.get_set]
    split
    · rename_i heq
      subst heq
      by_cases hnode : node = nodeId
      · rw [hnode]
      · rw [hadded.sockets_other node hnode] at hk'
        exact absurd (h.joined k' node hk') (hbefore node)
    · rename_i hne
      by_cases hnode : node = nodeId
      · subst hnode
        rw [hadded.sockets_self] at hk'
        exact h.joined k' node ((List.mem_cons.mp hk').resolve_left hne)
      · rw [hadded.sockets_other node hnode] at hk'
        exact h.joined k' node hk'
  · intro node
    rw [hpresent', ← h.capabilities node, hjoin]
    change (m'.clientCapabilities.get node).isSome = true ↔ _
    rw [hadded.capabilities]
  · intro hcp node
    have hcp' : s.controlPlane := by
      rw [hjoin] at hcp
      exact hadded.controlPlane.symm.trans hcp
    rw [hpresent', ← h.info hcp' node, hjoin]
    change (m'.clientInfo.get node).isSome = true ↔ _
    rw [hadded.info]
  · rw [hjoin]
    exact h.found

/-- A socket is added for a node that is present already. Only the thread
that keeps it present needs the assertions of `_add_socket` to hold. -/
theorem Inv.join (h : Inv s) (hpresent : s.Present nodeId)
    (hbefore : ∀ node, s.threads.get k ≠ some (.joined node))
    (honly : ∀ node, (s.threads.get k).bind Phase.registers = some node → node = nodeId)
    (hroom : (s.threads.get k).bind Phase.registers = none ∨ s.Room nodeId) :
    Inv (s.join k nodeId) := by
  have hnew : k ∉ s.manager.sockets nodeId := fun hmem => hbefore nodeId (h.joined k nodeId hmem)
  obtain ⟨m', ok, hadd⟩ : ∃ m' ok, s.manager.addSocket k nodeId = (m', ok) := ⟨_, _, rfl⟩
  cases ok with
  | false =>
    have hsame : m' = s.manager := by
      rcases Manager.addSocket_cases s.manager k nodeId with
        ⟨hadd', -⟩ | ⟨m₁, -, -, hadd'⟩ | ⟨sockets, -, -, hadd'⟩
      · exact (Prod.mk.inj (hadd.symm.trans hadd')).1
      · cases hadd.symm.trans hadd'
      · cases hadd.symm.trans hadd'
    have hjoin : s.join k nodeId = s.goto k none := by
      rw [Registry.join, hadd, hsame]
      rfl
    rw [hjoin]
    rcases hroom with hidle | hroom
    · exact h.goto hbefore (by rw [hidle]; rfl)
    · obtain ⟨m₁, hadd'⟩ := addSocket_succeeds hnew hroom
      cases hadd.symm.trans hadd'
  | true => exact h.join_added hpresent hbefore honly hadd

end Join

/-! ## Registering a node -/

section Register

variable {k : Nat} {nodeId : String}

theorem Inv.registered (h : Inv s) {capabilities : List String}
    (hbefore : ∀ node, s.threads.get k ≠ some (.joined node))
    (hidle : (s.threads.get k).bind Phase.registers = none)
    {m : Manager} (hclients : m.clients = s.manager.clients)
    (hcaps : m.clientCapabilities
      = s.manager.clientCapabilities.set nodeId (some capabilities))
    (hinfo : s.controlPlane →
      ∃ info, m.clientInfo = s.manager.clientInfo.set nodeId (some info))
    (hcp : m.subUnsub = s.manager.subUnsub) :
    Inv (({ s with manager := m } : Registry).goto k (some (.selecting nodeId))) := by
  have hsockets : ∀ node, m.sockets node = s.manager.sockets node := by
    intro node
    rw [Manager.sockets, Manager.sockets, hclients]
  have hpresent : ∀ node, (({ s with manager := m } : Registry).goto k
      (some (.selecting nodeId))).Present node ↔ node = nodeId ∨ s.Present node := by
    intro node
    have hconnected : (({ s with manager := m } : Registry).goto k
        (some (.selecting nodeId))).manager.Connected node ↔ s.manager.Connected node := by
      change m.sockets node ≠ [] ↔ _
      rw [hsockets]
      rfl
    have hothers : (∃ k', k' ≠ k ∧ (s.threads.get k').bind Phase.registers = some node)
        ↔ s.Registering node := by
      constructor
      · rintro ⟨k', -, hk'⟩
        exact ⟨k', hk'⟩
      · rintro ⟨k', hk'⟩
        refine ⟨k', ?_, hk'⟩
        rintro rfl
        rw [hidle] at hk'
        cases hk'
    have hself : (some (Phase.selecting nodeId)).bind Phase.registers = some node
        ↔ node = nodeId := by
      simp [Phase.registers, eq_comm]
    rw [Present, hconnected, registering_goto, hself, hothers, Present, or_left_comm]
  have hget : ∀ {α : Type} (t : LuaTable String α) (v : α) (node : String),
      ((t.set nodeId (some v)).get node).isSome ↔ node = nodeId ∨ (t.get node).isSome := by
    intro α t v node
    rw [LuaTable.get_set]
    split
    · rename_i heq
      simp [heq]
    · rename_i hne
      simp [hne]
  refine ⟨?_, ?_, ?_, ?_, h.found⟩
  · intro node
    change m.clients.get node ≠ some []
    rw [hclients]
    exact h.noEmpty node
  · intro k' node hk'
    change k' ∈ m.sockets node at hk'
    rw [hsockets] at hk'
    have hjoined := h.joined k' node hk'
    have hne : k' ≠ k := by
      rintro rfl
      exact hbefore node hjoined
    rw [Registry.goto, LuaTable.get_set_ne _ hne]
    exact hjoined
  · intro node
    rw [hpresent, ← h.capabilities node]
    change (m.clientCapabilities.get node).isSome = true ↔ _
    rw [hcaps, hget]
  · intro hcp' node
    have hcp'' : s.controlPlane := by
      change m.subUnsub.isSome = true at hcp'
      rw [hcp] at hcp'
      exact hcp'
    obtain ⟨info, hinfo⟩ := hinfo hcp''
    rw [hpresent, ← h.info hcp'' node]
    change (m.clientInfo.get node).isSome = true ↔ _
    rw [hinfo, hget]

/-- A thread that adds its socket at once passes through the wait for the
database. -/
theorem join_of_goto (phase : Phase) (hnew : k ∉ s.manager.sockets nodeId)
    (hroom : s.Room nodeId) :
    (s.goto k (some phase)).join k nodeId = s.join k nodeId := by
  obtain ⟨m', hadd⟩ := addSocket_succeeds hnew hroom
  rw [join_of_added hadd, join_of_added (s := s.goto k (some phase)) hadd]
  simp only [Registry.goto, LuaTable.set_set_some]

theorem Inv.registered_join (h : Inv s) {capabilities : List String}
    (hbefore : ∀ node, s.threads.get k ≠ some (.joined node))
    (hidle : (s.threads.get k).bind Phase.registers = none)
    {m : Manager} (hclients : m.clients = s.manager.clients)
    (hcaps : m.clientCapabilities
      = s.manager.clientCapabilities.set nodeId (some capabilities))
    (hinfo : s.controlPlane →
      ∃ info, m.clientInfo = s.manager.clientInfo.set nodeId (some info))
    (hcp : m.subUnsub = s.manager.subUnsub) (hroom : s.Room nodeId) :
    Inv (({ s with manager := m } : Registry).join k nodeId) := by
  have hregistered := h.registered hbefore hidle hclients hcaps hinfo hcp
  have hnew : k ∉ m.sockets nodeId := by
    rw [Manager.sockets, hclients]
    exact fun hmem => hbefore nodeId (h.joined k nodeId hmem)
  have hroom' : ({ s with manager := m } : Registry).Room nodeId := by
    intro hget queue hqueue
    exact hroom (by rw [← hclients]; exact hget) queue (hcp.symm.trans hqueue)
  have hphase : (({ s with manager := m } : Registry).goto k
      (some (.selecting nodeId))).threads.get k = some (.selecting nodeId) :=
    LuaTable.get_set_self _ _ _
  rw [← join_of_goto (.selecting nodeId) hnew hroom']
  refine hregistered.join (.inr ⟨k, ?_⟩) ?_ ?_ (.inr hroom')
  · rw [hphase]
    rfl
  · intro node
    rw [hphase]
    simp
  · intro node hnode
    rw [hphase] at hnode
    exact (Option.some.inj hnode).symm

theorem Inv.register (h : Inv s) {hello : Hello} (hk : s.threads.get k = some (.sending hello))
    (horderly : s.manager.clientCapabilities.get hello.nodeId = none →
      parseLabels hello.labels ≠ none ∧ (s.sync → s.Room hello.nodeId)) :
    Inv (s.register k hello) := by
  have hbefore : ∀ node, s.threads.get k ≠ some (.joined node) := by
    intro node
    rw [hk]
    simp
  have hidle : (s.threads.get k).bind Phase.registers = none := by
    rw [hk]
    rfl
  unfold Registry.register
  split
  · rename_i hcaps
    refine h.join ((h.capabilities hello.nodeId).mp hcaps) hbefore ?_ (.inl hidle)
    intro node hnode
    rw [hidle] at hnode
    cases hnode
  · rename_i hcaps
    obtain ⟨hlabels, hroom⟩ := horderly (by simpa using hcaps)
    obtain ⟨labels, hlabels⟩ := Option.ne_none_iff_exists'.mp hlabels
    rw [hlabels]
    dsimp only
    split
    · rename_i hsync
      exact h.registered_join hbefore hidle rfl rfl (fun _ => ⟨_, rfl⟩) rfl (hroom hsync)
    · exact h.registered hbefore hidle rfl rfl (fun _ => ⟨_, rfl⟩) rfl

end Register

/-! ## Removing a socket -/

/-- What `_remove_socket` leaves of the registry: the node without the
socket, and without anything else if there is no other. -/
structure Removed (m m' : Manager) (k : Nat) (nodeId : String) : Prop where
  controlPlane : m'.subUnsub.isSome = m.subUnsub.isSome
  mem_sockets : ∀ k' node, k' ∈ m'.sockets node
    ↔ k' ∈ m.sockets node ∧ (k', node) ≠ (k, nodeId)
  capabilities : ∀ node, (m'.clientCapabilities.get node).isSome
    ↔ ¬ (node = nodeId ∧ m.IsLast k nodeId) ∧ (m.clientCapabilities.get node).isSome
  info : m.subUnsub.isSome → ∀ node, (m'.clientInfo.get node).isSome
    ↔ ¬ (node = nodeId ∧ m.IsLast k nodeId) ∧ (m.clientInfo.get node).isSome

theorem removed_of_forget {m m' : Manager} {k : Nat} {nodeId : String} (hlast : m.IsLast k nodeId)
    (hclients : m'.clients = (m.forget nodeId).clients)
    (hcaps : m'.clientCapabilities = (m.forget nodeId).clientCapabilities)
    (hinfo : m'.clientInfo = (m.forget nodeId).clientInfo)
    (hcp : m'.subUnsub.isSome = m.subUnsub.isSome) : Removed m m' k nodeId := by
  have hget : ∀ {α : Type} (t : LuaTable String α) (node : String),
      ((t.set nodeId none).get node).isSome
        ↔ ¬ (node = nodeId ∧ m.IsLast k nodeId) ∧ (t.get node).isSome := by
    intro α t node
    rw [LuaTable.get_set]
    split
    · rename_i heq
      simp [heq, hlast]
    · rename_i hne
      simp [hne]
  refine ⟨hcp, ?_, ?_, ?_⟩
  · intro k' node
    rw [Manager.sockets, hclients, Manager.forget, LuaTable.get_set]
    split
    · rename_i heq
      subst heq
      refine ⟨fun hmem => absurd hmem List.not_mem_nil, ?_⟩
      rintro ⟨hmem, hne⟩
      exact absurd (by rw [hlast.2 k' hmem]) hne
    · rename_i hne
      refine ⟨fun hmem => ⟨hmem, fun heq => hne (Prod.mk.inj heq).2⟩, fun hmem => hmem.1⟩
  · intro node
    rw [hcaps]
    exact hget _ node
  · intro hsome node
    rw [hinfo, Manager.forget, if_pos hsome]
    exact hget _ node

theorem removed_of_not_last {m m' : Manager} {k : Nat} {nodeId : String}
    (hlast : ¬ m.IsLast k nodeId)
    (hsockets : ∀ k' node, k' ∈ m'.sockets node ↔ k' ∈ m.sockets node ∧ (k', node) ≠ (k, nodeId))
    (hcaps : m'.clientCapabilities = m.clientCapabilities)
    (hinfo : m'.clientInfo = m.clientInfo) (hcp : m'.subUnsub = m.subUnsub) :
    Removed m m' k nodeId := by
  refine ⟨by rw [hcp], hsockets, ?_, ?_⟩
  · intro node
    rw [hcaps]
    simp [hlast]
  · intro _ node
    rw [hinfo]
    simp [hlast]

theorem removeSocket_removed (m : Manager) (k : Nat) (nodeId : String) :
    Removed m (m.removeSocket k nodeId).1 k nodeId := by
  have hlast_iff : ∀ sockets, m.clients.get nodeId = some sockets → k ∈ sockets →
      (m.IsLast k nodeId ↔ Manager.without k sockets = []) := by
    intro sockets hget hmem
    have hsockets : m.sockets nodeId = sockets := by simp [Manager.sockets, hget]
    rw [Manager.IsLast, hsockets, Manager.without, List.filter_eq_nil_iff]
    simp [hmem]
  rcases Manager.removeSocket_cases m k nodeId with
    ⟨hremove, hnot⟩ | ⟨sockets, hget, hmem, hrest, ⟨m', henqueue, hremove⟩ | ⟨-, hremove⟩⟩
      | ⟨sockets, hget, hmem, hrest, hremove⟩
  · rw [hremove]
    refine removed_of_not_last (fun hlast => hnot hlast.1) ?_ rfl rfl rfl
    intro k' node
    refine ⟨fun hmem => ⟨hmem, ?_⟩, fun hmem => hmem.1⟩
    rintro ⟨rfl, rfl⟩
    exact hnot hmem
  · rw [hremove]
    obtain ⟨hclients, hcaps, hinfo, hsome, -⟩ := Manager.enqueue_eq_some henqueue
    exact removed_of_forget ((hlast_iff sockets hget hmem).mpr hrest) hclients hcaps hinfo hsome
  · rw [hremove]
    exact removed_of_forget ((hlast_iff sockets hget hmem).mpr hrest) rfl rfl rfl rfl
  · rw [hremove]
    refine removed_of_not_last (fun hlast => hrest ((hlast_iff sockets hget hmem).mp hlast))
      ?_ rfl rfl rfl
    intro k' node
    rw [Manager.sockets, LuaTable.get_set]
    split
    · rename_i heq
      subst heq
      rw [Option.getD_some, Manager.mem_without, Manager.sockets, hget]
      simp
    · rename_i hne
      exact ⟨fun hmem => ⟨hmem, fun heq => hne (Prod.mk.inj heq).2⟩, fun hmem => hmem.1⟩

theorem Removed.connected_iff {m m' : Manager} {k : Nat} {nodeId : String}
    (h : Removed m m' k nodeId) (node : String) :
    m'.Connected node ↔ ¬ (node = nodeId ∧ m.IsLast k nodeId) ∧ m.Connected node := by
  constructor
  · intro hconnected
    obtain ⟨k', hk'⟩ := List.exists_mem_of_ne_nil _ hconnected
    obtain ⟨hmem, hne⟩ := (h.mem_sockets k' node).mp hk'
    refine ⟨?_, List.ne_nil_of_mem hmem⟩
    rintro ⟨rfl, hlast⟩
    exact hne (by rw [hlast.2 k' hmem])
  · rintro ⟨hnot, hconnected⟩
    have hother : ∃ k' ∈ m.sockets node, (k', node) ≠ (k, nodeId) := by
      by_contra hall
      have hsame : ∀ k' ∈ m.sockets node, (k', node) = (k, nodeId) := by
        intro k' hk'
        by_contra hne
        exact hall ⟨k', hk', hne⟩
      obtain ⟨k', hk'⟩ := List.exists_mem_of_ne_nil _ hconnected
      obtain ⟨rfl, rfl⟩ := Prod.mk.inj (hsame k' hk')
      exact hnot ⟨rfl, hk', fun other hmem => (Prod.mk.inj (hsame other hmem)).1⟩
    obtain ⟨k', hmem, hne⟩ := hother
    exact List.ne_nil_of_mem ((h.mem_sockets k' node).mpr ⟨hmem, hne⟩)

theorem Inv.closed (h : Inv s) {k : Nat} {nodeId : String}
    (hk : s.threads.get k = some (.joined nodeId))
    (horderly : s.manager.IsLast k nodeId → ¬ s.Registering nodeId) :
    Inv (({ s with manager := (s.manager.removeSocket k nodeId).1 } : Registry).goto k none) := by
  have hremoved := removeSocket_removed s.manager k nodeId
  have hnoEmpty := h.noEmpty.removeSocket k nodeId
  obtain ⟨m', hm'⟩ : ∃ m', m' = (s.manager.removeSocket k nodeId).1 := ⟨_, rfl⟩
  rw [← hm'] at hremoved hnoEmpty ⊢
  have hregistering : ∀ node, (({ s with manager := m' } : Registry).goto k none).Registering node
      ↔ s.Registering node :=
    fun node => registering_goto_idle (s := { s with manager := m' }) (by simp [hk, Phase.registers])
      (by simp)
  have hpresent : ∀ node, (({ s with manager := m' } : Registry).goto k none).Present node
      ↔ ¬ (node = nodeId ∧ s.manager.IsLast k nodeId) ∧ s.Present node := by
    intro node
    rw [Present, hregistering]
    change m'.Connected node ∨ _ ↔ _
    rw [hremoved.connected_iff, Present]
    constructor
    · rintro (⟨hnot, hc⟩ | hr)
      · exact ⟨hnot, .inl hc⟩
      · refine ⟨?_, .inr hr⟩
        rintro ⟨rfl, hlast⟩
        exact horderly hlast hr
    · rintro ⟨hnot, hc | hr⟩
      · exact .inl ⟨hnot, hc⟩
      · exact .inr hr
  refine ⟨hnoEmpty, ?_, ?_, ?_, h.found⟩
  · intro k' node hk'
    obtain ⟨hmem, hne⟩ := (hremoved.mem_sockets k' node).mp hk'
    have hjoined := h.joined k' node hmem
    have hother : k' ≠ k := by
      rintro rfl
      rw [hk] at hjoined
      obtain rfl := Phase.joined.inj (Option.some.inj hjoined)
      exact hne rfl
    rw [Registry.goto, LuaTable.get_set_ne _ hother]
    exact hjoined
  · intro node
    rw [hpresent, ← h.capabilities node]
    exact hremoved.capabilities node
  · intro hcp node
    have hcp' : s.controlPlane := hremoved.controlPlane.symm.trans hcp
    rw [hpresent, ← h.info hcp' node]
    exact hremoved.info hcp' node

/-! ## Data planes -/

theorem controlPlane_join (s : Registry) (k : Nat) (nodeId : String) :
    (s.join k nodeId).controlPlane = s.controlPlane := by
  change (s.manager.addSocket k nodeId).1.subUnsub.isSome = s.manager.subUnsub.isSome
  rcases Manager.addSocket_cases s.manager k nodeId with
    ⟨hadd, -⟩ | ⟨m', -, henqueue, hadd⟩ | ⟨sockets, -, -, hadd⟩
  · rw [hadd]
  · rw [hadd]
    exact (Manager.enqueue_eq_some henqueue).2.2.2.1
  · rw [hadd]

theorem controlPlane_register (s : Registry) (k : Nat) (hello : Hello) :
    (s.register k hello).controlPlane = s.controlPlane := by
  unfold Registry.register
  split
  · exact controlPlane_join s k hello.nodeId
  · split
    · rfl
    · dsimp only
      split
      · exact controlPlane_join _ k hello.nodeId
      · rfl

theorem controlPlane_step (s : Registry) (event : Event) :
    (s.step event).controlPlane = s.controlPlane := by
  cases event with
  | accept k =>
    dsimp only [Registry.step]
    split <;> rfl
  | hello k hello =>
    dsimp only [Registry.step]
    split <;> rfl
  | sent k ok =>
    dsimp only [Registry.step]
    split
    · split
      · exact controlPlane_register s k _
      · rfl
    · rfl
  | selected k ok =>
    dsimp only [Registry.step]
    split
    · split
      · exact controlPlane_join s k _
      · split <;> rfl
    · rfl
  | upserted k =>
    dsimp only [Registry.step]
    split
    · exact controlPlane_join s k _
    · rfl
  | connect k nodeId capabilities =>
    dsimp only [Registry.step]
    split
    · exact controlPlane_join _ k nodeId
    · rfl
  | closed k =>
    dsimp only [Registry.step]
    split
    · exact (removeSocket_removed s.manager k _).controlPlane
    · rfl
  | call nodeId capability =>
    dsimp only [Registry.step, Registry.localCall]
    split
    · rfl
    · split
      · rfl
      · split <;> rfl

/-- A data plane accepts no connection: its threads have a socket. -/
def Outgoing (s : Registry) : Prop :=
  s.controlPlane = false → ∀ k phase, s.threads.get k = some phase →
    ∃ nodeId, phase = .joined nodeId

theorem threads_join (s : Registry) (k : Nat) (nodeId : String) :
    ∃ ok : Bool, (s.join k nodeId).threads
      = s.threads.set k (if ok then some (.joined nodeId) else none) :=
  ⟨(s.manager.addSocket k nodeId).2, rfl⟩

theorem Outgoing.step (h : s.Outgoing) (event : Event) : (s.step event).Outgoing := by
  intro hdata
  rw [controlPlane_step] at hdata
  have hjoined := h hdata
  have hset : ∀ (k : Nat) (next : Option Phase), (∀ p, next = some p → ∃ nodeId, p = .joined nodeId) →
      ∀ k' phase, (s.threads.set k next).get k' = some phase → ∃ nodeId, phase = .joined nodeId := by
    intro k next hnext k' phase hphase
    rw [LuaTable.get_set] at hphase
    split at hphase
    · exact hnext phase hphase
    · exact hjoined k' phase hphase
  have hother : ∀ (k : Nat) (phase : Phase), (∀ nodeId, phase ≠ .joined nodeId) →
      s.threads.get k ≠ some phase := by
    intro k phase hne hk
    obtain ⟨nodeId, hjoin⟩ := hjoined k phase hk
    exact hne nodeId hjoin
  cases event with
  | accept k =>
    rw [Registry.step, if_neg (by simp [hdata])]
    exact hjoined
  | hello k hello =>
    rw [Registry.step, if_neg (hother k .receiving (by simp))]
    exact hjoined
  | sent k ok =>
    dsimp only [Registry.step]
    split
    · rename_i hello hk
      exact absurd hk (hother k _ (by simp))
    · exact hjoined
  | selected k ok =>
    dsimp only [Registry.step]
    split
    · rename_i nodeId hk
      exact absurd hk (hother k _ (by simp))
    · exact hjoined
  | upserted k =>
    dsimp only [Registry.step]
    split
    · rename_i nodeId hk
      exact absurd hk (hother k _ (by simp))
    · exact hjoined
  | connect k nodeId capabilities =>
    dsimp only [Registry.step]
    split
    · obtain ⟨ok, hthreads⟩ := threads_join ({ s with manager := { s.manager with
          clientCapabilities := s.manager.clientCapabilities.set nodeId (some capabilities) } } :
          Registry) k nodeId
      rw [hthreads]
      refine hset k _ fun p hp => ?_
      cases ok with
      | true => exact ⟨nodeId, (Option.some.inj hp).symm⟩
      | false => cases hp
    · exact hjoined
  | closed k =>
    dsimp only [Registry.step]
    split
    · exact hset k none fun p hp => absurd hp (by simp)
    · exact hjoined
  | call nodeId capability =>
    dsimp only [Registry.step, Registry.localCall]
    split
    · exact hjoined
    · split
      · exact hjoined
      · split <;> exact hjoined

/-! ## Every run -/

theorem Inv.localCall (h : Inv s) {nodeId capability : String}
    (horderly : s.Registering nodeId → s.manager.Connected nodeId) :
    s.localCall nodeId capability = s := by
  unfold Registry.localCall
  cases hcaps : s.manager.clientCapabilities.get nodeId with
  | none => rfl
  | some capabilities =>
    have hconnected : s.manager.Connected nodeId := by
      rcases (h.capabilities nodeId).mp (by rw [hcaps]; rfl) with hconnected | hregistering
      · exact hconnected
      · exact horderly hregistering
    obtain ⟨sockets, hget⟩ := Option.isSome_iff_exists.mp
      ((h.noEmpty.connected_iff nodeId).mp hconnected)
    dsimp only
    rw [hget]
    split <;> rfl

theorem Inv.step (h : Inv s) (hout : s.Outgoing) (event : Event) (horderly : s.Orderly event) :
    Inv (s.step event) := by
  cases event with
  | accept k =>
    dsimp only [Registry.step]
    split
    · rename_i hnew
      exact h.goto (by simp [hnew.2]) (by rw [hnew.2]; rfl)
    · exact h
  | hello k hello =>
    dsimp only [Registry.step]
    split
    · rename_i hk
      refine h.goto (by simp [hk]) ?_
      rw [hk]
      cases hello <;> rfl
    · exact h
  | sent k ok =>
    dsimp only [Registry.step]
    split
    · rename_i hello hk
      split
      · rename_i hok
        exact h.register hk (horderly hello hk hok)
      · exact h.goto (by simp [hk]) (by rw [hk]; rfl)
    · exact h
  | selected k ok =>
    dsimp only [Registry.step]
    split
    · rename_i nodeId hk
      have hregistering : s.Registering nodeId := ⟨k, by rw [hk]; rfl⟩
      cases ok with
      | false =>
        refine h.join (.inr hregistering) (by simp [hk]) ?_ (.inr (horderly nodeId hk rfl))
        intro node hnode
        rw [hk] at hnode
        exact (Option.some.inj hnode).symm
      | true =>
        have hcp : s.controlPlane := by
          by_contra hdata
          obtain ⟨node, hjoin⟩ := hout (by simpa using hdata) k _ hk
          cases hjoin
        obtain ⟨info, hinfo⟩ := Option.isSome_iff_exists.mp
          ((h.info hcp nodeId).mpr (.inr hregistering))
        rw [hinfo]
        exact h.goto (by simp [hk]) (by rw [hk]; rfl)
    · exact h
  | upserted k =>
    dsimp only [Registry.step]
    split
    · rename_i nodeId hk
      refine h.join (.inr ⟨k, by rw [hk]; rfl⟩) (by simp [hk]) ?_ (.inr (horderly nodeId hk))
      intro node hnode
      rw [hk] at hnode
      exact (Option.some.inj hnode).symm
    · exact h
  | connect k nodeId capabilities =>
    dsimp only [Registry.step]
    split
    · rename_i hnew
      have hcp : s.controlPlane = false := by simpa using hnew.1
      refine h.registered_join (by simp [hnew.2]) (by rw [hnew.2]; rfl) rfl rfl
        (fun hcp' => absurd hcp' (by simp [hcp])) rfl ?_
      intro _ queue hqueue
      simp [controlPlane, hqueue] at hcp
    · exact h
  | closed k =>
    dsimp only [Registry.step]
    split
    · rename_i nodeId hk
      exact h.closed hk (horderly nodeId hk)
    · exact h
  | call nodeId capability =>
    rw [Registry.step, h.localCall horderly]
    exact h

/-- What every state of an orderly run meets. -/
def Sound (s : Registry) : Prop := Inv s ∧ s.Outgoing

theorem sound_of_orderly {controlPlane sync : Bool} {events : List Event}
    (h : Run.Guarded Registry.step Orderly (init controlPlane sync) events) :
    Sound (Run.exec Registry.step (init controlPlane sync) events) := by
  refine Run.Guarded.invariant (fun s event hs horderly => ?_) ?_ h
  · exact ⟨hs.1.step hs.2 event horderly, hs.2.step event⟩
  · refine ⟨Inv.init controlPlane sync, fun _ k phase hphase => ?_⟩
    simp [Registry.init] at hphase

/-- In every orderly run, of a control plane or a data plane, no entry
that is not there is indexed, and every call finds the entries of its node
consistent. -/
theorem registry_is_consistent (controlPlane sync : Bool) (events : List Event)
    (h : Run.Guarded Registry.step Orderly (init controlPlane sync) events) :
    (Run.exec Registry.step (init controlPlane sync) events).missing = false
      ∧ ∀ before nodeId capability, before ++ [.call nodeId capability] <+: events →
        Consistent (Run.exec Registry.step (init controlPlane sync) before).manager nodeId := by
  refine ⟨(sound_of_orderly h).1.found, ?_⟩
  rintro before nodeId capability ⟨after, rfl⟩
  rw [Run.guarded_append, Run.guarded_append] at h
  obtain ⟨⟨hbefore, hcall, -⟩, -⟩ := h
  obtain ⟨hinv, -⟩ := sound_of_orderly hbefore
  have hpresent : (Run.exec Registry.step (init controlPlane sync) before).Present nodeId
      ↔ (Run.exec Registry.step (init controlPlane sync) before).manager.Connected nodeId :=
    or_iff_left_of_imp hcall
  refine ⟨?_, fun hcp => ?_⟩
  · rw [hinv.capabilities nodeId, hpresent]
  · rw [hinv.info hcp nodeId, hpresent]

/-- The hello of a data plane. -/
def hello : Hello := ⟨"a", "3.11.0", ["kong.debug.v1"], none, "10.0.0.1", 0⟩

/-- A node is called once its handshake has come to an end. -/
theorem consistent_after_handshake :
    Consistent (Run.exec Registry.step (init true false)
      [.accept 1, .hello 1 (some hello), .sent 1 true, .selected 1 true, .upserted 1]).manager
      "a" := by
  refine (registry_is_consistent true false
    [.accept 1, .hello 1 (some hello), .sent 1 true, .selected 1 true, .upserted 1,
      .call "a" "kong.debug.v1"]
    ⟨trivial, trivial, ?_, ?_, ?_, ?_, trivial⟩).2 _ "a" "kong.debug.v1" (List.prefix_refl _)
  · intro h hk _ _
    obtain rfl : hello = h := Phase.sending.inj (Option.some.inj (Eq.trans (by decide) hk))
    exact ⟨by decide, fun hsync => absurd hsync (by decide)⟩
  · intro nodeId _ hfailed
    cases hfailed
  · intro nodeId _ _ queue hqueue
    obtain rfl : Queue.new 4096 = queue := Option.some.inj (Eq.trans (by decide) hqueue)
    decide
  · intro _
    decide

/-- A node is called while its handshake waits for the database: it has
capabilities and no socket, and `_local_call` indexes what is not
there. -/
theorem call_during_handshake :
    ¬ ((Run.exec Registry.step (init true false)
        [.accept 1, .hello 1 (some hello), .sent 1 true, .call "a" "kong.debug.v1"]).missing = false
      ∧ Consistent (Run.exec Registry.step (init true false)
        [.accept 1, .hello 1 (some hello), .sent 1 true]).manager "a") := by
  rintro ⟨hfound, -⟩
  exact absurd hfound (by decide)

end KongGateway.Kong.Clustering.Rpc.Registry

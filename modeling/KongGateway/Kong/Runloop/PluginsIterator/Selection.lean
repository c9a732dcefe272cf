import KongGateway.Kong.Runloop.PluginsIterator.Collect

/-!
# PluginsIterator — the plugins of a request

A request is served by the loaded plugins that have a row that applies to
it, each with the most specific of its rows. The table for the phases that
come later is made for a workspace that is known to the iterator; for
another one it has to have been used before.
-/

namespace KongGateway.Kong.Runloop

variable {γ : Type}

/-- The parts of a request that a handler does not opt out of. -/
def Handler.sees (handler : Handler) (request : Scope) : Scope where
  route := if handler.noRoute then none else request.route
  service := if handler.noService then none else request.service
  consumer := if handler.noConsumer then none else request.consumer

section

variable (node : Node) (rows : List (PluginRow γ)) (w : Id)

/-- A row that applies to a request, for a plugin of a workspace. -/
def Applies (request : Scope) (plugin : Plugin) (row : PluginRow γ) : Prop :=
  Counts node rows w plugin.name row ∧ row.scope.AppliesTo (plugin.handler.sees request)

/-- The configuration of the most specific row that applies. -/
def Selected (request : Scope) (plugin : Plugin) (cfg : Cfg γ) : Prop :=
  ∃ row, Applies node rows w request plugin row ∧ row.cfg = cfg
    ∧ ∀ row', Applies node rows w request plugin row' → row.scope.rank ≤ row'.scope.rank

/-- The loaded plugins that handle a phase and have a row that applies, in their order, each with
the configuration of its most specific row. -/
structure Serves (request : Request) (phase : Phase) (l : List (Plugin × Cfg γ)) : Prop where
  ordered : (l.map Prod.fst).Sublist node.loaded
  mem_iff : ∀ plugin cfg, (plugin, cfg) ∈ l
    ↔ plugin ∈ node.loaded ∧ plugin.handler.handles phase = true
      ∧ Selected node rows w (request.scope plugin) plugin cfg

end

section

variable {node : Node} {rows : List (PluginRow γ)} {it : PluginsIterator γ} {w : Id}

theorem loadConfigurationThroughCombos_eq (request : Scope) (combos : Combos γ) (plugin : Plugin) :
    loadConfigurationThroughCombos request combos plugin
      = (plugin.handler.sees request).candidates.findSome? fun scope => combos.get scope.key :=
  lookupCfg_eq combos (plugin.handler.sees request)

theorem chosen_eq (request : Request) (data : WsData γ) (plugin : Plugin) :
    chosen request data plugin
      = (plugin.handler.sees (request.scope plugin)).candidates.findSome? fun scope =>
          data.combo plugin.name scope.key := by
  unfold chosen WsData.combo
  cases data.combos.get plugin.name with
  | none =>
    rw [Option.bind_none, eq_comm, List.findSome?_eq_none_iff]
    exact fun _ _ => rfl
  | some combos => exact loadConfigurationThroughCombos_eq (request.scope plugin) combos plugin

theorem chosen_iff (h : Iterates node rows it) {data : WsData γ} (hdata : it.ws.get w = some data)
    (request : Request) (plugin : Plugin) (cfg : Cfg γ) :
    chosen request data plugin = some cfg
      ↔ Selected node rows w (request.scope plugin) plugin cfg := by
  rw [chosen_eq, Preference.findSome?_eq_some_iff (rank_candidates _)]
  have hcombo := h.combos w data hdata plugin.name
  constructor
  · rintro ⟨scope, hmem, hsome, hleast⟩
    obtain ⟨row, hrow, rfl, hcfg⟩ := (hcombo scope cfg).mp hsome
    refine ⟨row, ⟨hrow, mem_candidates_iff.mp hmem⟩, hcfg, ?_⟩
    rintro row' ⟨hrow', happlies⟩
    refine hleast row'.scope (mem_candidates_iff.mpr happlies) ?_
    have hfound := (hcombo row'.scope row'.cfg).mpr ⟨row', hrow', rfl, rfl⟩
    exact Option.isSome_iff_exists.mpr ⟨row'.cfg, hfound⟩
  · rintro ⟨row, ⟨hrow, happlies⟩, hcfg, hleast⟩
    refine ⟨row.scope, mem_candidates_iff.mpr happlies, (hcombo _ _).mpr ⟨row, hrow, rfl, hcfg⟩, ?_⟩
    intro scope hmem hsome
    obtain ⟨cfg', hcfg'⟩ := Option.isSome_iff_exists.mp hsome
    obtain ⟨row', hrow', rfl, -⟩ := (hcombo scope cfg').mp hcfg'
    exact hleast row' ⟨hrow', mem_candidates_iff.mp hmem⟩

theorem mem_picked {request : Request} {data : WsData γ} {plugins : List Plugin}
    {plugin : Plugin} {cfg : Cfg γ} :
    (plugin, cfg) ∈ picked request data plugins
      ↔ plugin ∈ plugins ∧ chosen request data plugin = some cfg := by
  rw [picked, List.mem_filterMap]
  constructor
  · rintro ⟨other, hmem, hsome⟩
    obtain ⟨cfg', hcfg', heq⟩ := Option.map_eq_some_iff.mp hsome
    cases heq
    exact ⟨hmem, hcfg'⟩
  · rintro ⟨hmem, hsome⟩
    exact ⟨plugin, hmem, by rw [hsome]; rfl⟩

theorem sublist_picked (request : Request) (data : WsData γ) (plugins : List Plugin) :
    ((picked request data plugins).map Prod.fst).Sublist plugins := by
  induction plugins with
  | nil => exact List.Sublist.slnil
  | cons plugin plugins ih =>
    cases hchosen : chosen request data plugin with
    | none =>
      rw [picked_cons_none hchosen]
      exact ih.cons plugin
    | some cfg =>
      rw [picked_cons_some hchosen]
      exact ih.cons_cons plugin

theorem serves_picked (h : Iterates node rows it) {data : WsData γ} (hdata : it.ws.get w = some data)
    (request : Request) (phase : Phase) :
    Serves node rows w request phase
      ((picked request data data.plugins).filter fun e => e.1.handler.handles phase) := by
  have hplugins := h.plugins w data hdata
  constructor
  · have hloaded : data.plugins.Sublist node.loaded := by
      rw [hplugins]
      exact List.filter_sublist
    exact ((List.filter_sublist.map Prod.fst).trans (sublist_picked request data data.plugins)).trans
      hloaded
  · intro plugin cfg
    rw [List.mem_filter, mem_picked, chosen_iff h hdata, hplugins, List.mem_filter]
    constructor
    · rintro ⟨⟨⟨hmem, -⟩, hselected⟩, hhandles⟩
      exact ⟨hmem, hhandles, hselected⟩
    · rintro ⟨hmem, hhandles, hselected⟩
      refine ⟨⟨⟨hmem, ?_⟩, hselected⟩, hhandles⟩
      obtain ⟨row, ⟨hrow, -⟩, -⟩ := hselected
      exact named_iff.mpr ⟨row, hrow⟩

theorem serves_nil (h : Iterates node rows it) (hdata : it.ws.get w = none) (request : Request)
    (phase : Phase) : Serves node rows w request phase [] := by
  constructor
  · exact List.nil_sublist node.loaded
  · intro plugin cfg
    refine iff_of_false List.not_mem_nil ?_
    rintro ⟨-, -, row, ⟨hrow, -⟩, -⟩
    have hknown := (h.known w).mpr (Or.inr ⟨plugin.name, row, hrow⟩)
    rw [hdata] at hknown
    cases hknown

end

/-! ## Requests -/

section

variable (node : Node) (rows : List (PluginRow γ)) (it : PluginsIterator γ)

/-- The workspace of a request. -/
def Request.wsId (request : Request) : Id := request.workspace.getD node.defaultWorkspace

/-- The collecting phase visits the plugins that serve the request and handle it; each phase that
comes later then visits those that handle that phase. -/
def Collects (request : Request) (pooled : Option (Phase → PhaseTable γ)) : Prop :=
  ∃ visited c, it.collecting node request pooled = .ok (visited, c)
    ∧ Serves node rows (request.wsId node) request node.subsystem.collectingPhase visited
    ∧ ∀ phase ∈ node.subsystem.downstreamPhases, ∃ l, it.collected node phase (some c)
        = l.map entrySlots
      ∧ Serves node rows (request.wsId node) request phase l

/-- The workspace is that of the start, or has a row that is processed. -/
def KnownWorkspace (w : Id) : Prop :=
  w = node.startWorkspace ∨ ∃ name row, Counts node rows w name row

variable {node} {it}

theorem collected_of_lists {c : Collected γ} {phase : Phase}
    (hphase : phase ∈ node.subsystem.downstreamPhases) {l : List (Plugin × Cfg γ)}
    (h : (c.phases phase).Lists l) : it.collected node phase (some c) = l.map entrySlots := by
  rw [PluginsIterator.collected, PluginsIterator.getCollectedIterator]
  have hcount := h.count
  split
  · rename_i hnone
    split at hnone
    · rename_i hempty
      have hzero : l.length = 0 := by
        have hcases := hempty.resolve_left (not_not_intro hphase)
        omega
      rw [List.length_eq_zero_iff.mp hzero]
      rfl
    · cases hnone
  · rename_i t hsome
    split at hsome
    · cases hsome
    · cases hsome
      exact h.entriesFrom 0

theorem getTableForCtx_ok {pooled : Option (Phase → PhaseTable γ)} {ws : Option (WsData γ)}
    (h : pooled.isSome = true ∨ ws.isSome = true) :
    ∃ phases, getTableForCtx pooled ws = .ok phases ∧ ∀ phase, (phases phase).Lists [] := by
  cases pooled with
  | some tbl => exact ⟨_, rfl, fun phase => lists_reset _⟩
  | none =>
    cases ws with
    | some data => exact ⟨_, rfl, fun phase => lists_reset ∅⟩
    | none =>
      rcases h with h | h
      · cases h
      · cases h

theorem collecting_of_known (hit : Iterates node rows it) (request : Request)
    {pooled : Option (Phase → PhaseTable γ)}
    (h : pooled.isSome = true ∨ (it.ws.get (request.wsId node)).isSome = true) :
    Collects node rows it request pooled := by
  obtain ⟨phases, htable, hreset⟩ := getTableForCtx_ok h
  have hstart : ∀ phase, ((⟨phases, request.bufferedProxying⟩ : Collected γ).phases phase).Lists [] :=
    hreset
  cases hget : it.ws.get (request.wsId node) with
  | none =>
    refine ⟨[], ⟨phases, request.bufferedProxying⟩, ?_, serves_nil hit hget request _, ?_⟩
    · rw [PluginsIterator.collecting, PluginsIterator.getCollectingIterator]
      unfold Request.wsId at hget htable
      rw [htable, hget]
      rfl
    · intro phase hphase
      exact ⟨[], collected_of_lists hphase (hstart phase), serves_nil hit hget request phase⟩
  | some data =>
    have hrun : it.collecting node request pooled
        = .ok ((picked request data data.plugins).filter (collects node),
          collectAll node ⟨phases, request.bufferedProxying⟩ (picked request data data.plugins)) := by
      rw [PluginsIterator.collecting, PluginsIterator.getCollectingIterator]
      unfold Request.wsId at hget htable
      rw [htable, hget]
      dsimp only
      rw [Option.bind_some]
      by_cases hempty : data.plugins.isEmpty = true
      · rw [if_pos hempty, List.isEmpty_iff.mp hempty]
        rfl
      · rw [if_neg hempty]
        exact congrArg Except.ok (visit_eq node request data data.plugins _)
    refine ⟨_, _, hrun, serves_picked hit hget request _, ?_⟩
    intro phase hphase
    refine ⟨_, ?_, serves_picked hit hget request phase⟩
    have hlists := lists_foldl_collect node hphase (picked request data data.plugins) (hstart phase)
    exact collected_of_lists hphase hlists

theorem not_collects_of_unknown {request : Request} (h : it.ws.get (request.wsId node) = none) :
    ¬ Collects node rows it request none := by
  rintro ⟨visited, c, hrun, -⟩
  rw [PluginsIterator.collecting, PluginsIterator.getCollectingIterator] at hrun
  unfold Request.wsId at h
  rw [h] at hrun
  cases hrun

end

/-- On a node that proxies, an iterator that is built from rows serves a request exactly when the
pool gives a table that has been used, or the workspace of the request is known. -/
theorem collects_iff {node : Node} {version : String} {current : Nat → Except String String}
    {rows : List (PluginRow γ)} {it : PluginsIterator γ} (hdistinct : Distinct rows)
    (hproxies : node.controlPlane = false)
    (hnew : PluginsIterator.new node version current (rows.map .ok) = .ok it) (request : Request)
    (pooled : Option (Phase → PhaseTable γ)) :
    Collects node rows it request pooled
      ↔ pooled.isSome = true ∨ KnownWorkspace node rows (request.wsId node) := by
  have hit := iterates_new hdistinct hproxies hnew
  rw [KnownWorkspace, ← hit.known (request.wsId node)]
  constructor
  · intro hcollects
    by_contra hnot
    obtain ⟨hpooled, hknown⟩ := not_or.mp hnot
    cases pooled with
    | some tbl => exact hpooled rfl
    | none =>
      have hget : it.ws.get (request.wsId node) = none := by
        simpa using hknown
      exact not_collects_of_unknown rows hget hcollects
  · exact collecting_of_known rows hit request

/-- The ids `1` and `2`. -/
def sampleId (second : Bool) : Id where
  text := if second then [50] else [49]
  ne_nil := by cases second <;> decide
  noColon := by cases second <;> decide

/-- A node with a plugin for the access phase. -/
def sampleNode : Node where
  subsystem := .http
  controlPlane := false
  dbless := true
  coreCache := true
  maxPageSize := 1000
  defaultWorkspace := sampleId false
  workspace := none
  enabledPlugins := fun name => name = "acl"
  filtersByName := fun _ => false
  loaded := [⟨"acl", { handles := fun phase => phase = .access }⟩]
  loaded_nodup := by decide

/-- The plugin for all requests of the default workspace. -/
def sampleRow : PluginRow Unit :=
  ⟨sampleId true, "acl", true, ["http"], none, (), ⟨none, none, none⟩, sampleId false⟩

def sampleRequest (workspace : Option Id) : Request :=
  ⟨workspace, false, fun _ => ⟨none, none, none⟩⟩

/-- The plugin for a route. -/
def routeRow : PluginRow Unit :=
  { sampleRow with id := sampleId false, scope := ⟨some (sampleId true), none, none⟩ }

theorem collects_default_workspace :
    ∃ it, PluginsIterator.new sampleNode "" (fun _ => .ok "") [.ok sampleRow, .ok routeRow] = .ok it
      ∧ Collects sampleNode [sampleRow, routeRow] it ⟨none, false, fun _ => routeRow.scope⟩ none :=
  ⟨_, rfl, (@collects_iff Unit sampleNode "" (fun _ => .ok "") [sampleRow, routeRow] _
    (by simp [Distinct, sampleRow, routeRow]) rfl rfl ⟨none, false, fun _ => routeRow.scope⟩
    none).mpr (Or.inr (Or.inl rfl))⟩

/-- The first request of a workspace without plugins raises an error. -/
theorem unknown_workspace_not_collected :
    ∃ it, PluginsIterator.new sampleNode "" (fun _ => .ok "") [.ok sampleRow] = .ok it
      ∧ it.hasPlugins = true
      ∧ ¬ Collects sampleNode [sampleRow] it (sampleRequest (some (sampleId true))) none := by
  refine ⟨_, rfl, rfl, ?_⟩
  rintro ⟨visited, c, hrun, -⟩
  cases hrun

end KongGateway.Kong.Runloop

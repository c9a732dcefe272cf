import KongGateway.Lib.Bytes
import KongGateway.Lib.Keyed

/-!
# PluginsIterator — `kong.runloop.plugins_iterator`

The iterator is built from the rows of plugins: their configurations are put
under workspace, name and a key of route, service and consumer. A request
asks for the configuration of each plugin of its workspace, the most
specific first, and collects the plugins of the phases that come later in a
table that may have served another request.

The values of vault references, the `configure` phase and the names under
which handlers keep instances are left out.
-/

namespace KongGateway.Kong.Runloop

open Bytes

abbrev Text := List Byte

/-- The id of an entity, a UUID: not empty and without a colon. -/
structure Id where
  text : Text
  ne_nil : text ≠ []
  noColon : 58 ∉ text
  deriving DecidableEq

inductive Subsystem where
  | http
  | stream
  deriving DecidableEq

inductive Phase where
  | certificate
  | rewrite
  | preread
  | access
  | response
  | headerFilter
  | bodyFilter
  | log
  deriving DecidableEq

/-- `NON_COLLECTING_PHASES` -/
def Subsystem.nonCollectingPhases : Subsystem → List Phase
  | .stream => [.certificate, .log]
  | .http => [.certificate, .rewrite, .response, .headerFilter, .bodyFilter, .log]

/-- `DOWNSTREAM_PHASES` -/
def Subsystem.downstreamPhases : Subsystem → List Phase
  | .stream => [.log]
  | .http => [.response, .headerFilter, .bodyFilter, .log]

/-- `COLLECTING_PHASE` -/
def Subsystem.collectingPhase : Subsystem → Phase
  | .stream => .preread
  | .http => .access

/-- `PROTOCOLS_WITH_SUBSYSTEM` -/
def protocolsWithSubsystem : List (String × Subsystem) :=
  [("http", .http), ("https", .http), ("tcp", .stream), ("tls", .stream), ("udp", .stream),
    ("tls_passthrough", .stream), ("grpc", .http), ("grpcs", .http)]

/-- What the iterator reads of a handler. -/
structure Handler where
  handles : Phase → Bool
  noRoute : Bool := false
  noService : Bool := false
  noConsumer : Bool := false

/-- An item of `LOADED_PLUGINS`. -/
structure Plugin where
  name : String
  handler : Handler

/-- A route, a service and a consumer, each of which may be missing. -/
structure Scope where
  route : Option Id
  service : Option Id
  consumer : Option Id
  deriving DecidableEq

/-- A row of the plugins; `γ` is what the schema of a plugin makes of its configuration. -/
structure PluginRow (γ : Type) where
  id : Id
  name : String
  enabled : Bool
  protocols : List String
  instanceName : Option String
  config : γ
  scope : Scope
  wsId : Id

/-- A configuration with the fields that `get_plugin_config` adds. -/
structure Cfg (γ : Type) where
  config : γ
  scope : Scope
  pluginInstanceName : Option String
  pluginId : Id
  wsId : Id
  deriving DecidableEq

/-- The node. Loaded plugins have distinct names. -/
structure Node where
  subsystem : Subsystem
  controlPlane : Bool
  /-- `kong.db.strategy` is `off` -/
  dbless : Bool
  /-- there is a `kong.core_cache` -/
  coreCache : Bool
  maxPageSize : Nat
  defaultWorkspace : Id
  /-- `workspaces.get_workspace_id()` where the iterator is built -/
  workspace : Option Id
  /-- `kong.configuration.loaded_plugins` -/
  enabledPlugins : String → Bool
  /-- `wasm.filters_by_name` -/
  filtersByName : String → Bool
  loaded : List Plugin
  loaded_nodup : (loaded.map Plugin.name).Nodup

variable {γ : Type}

/-! ## Keys and lookups -/

/-- An id, or the empty text. -/
def idText (id : Option Id) : Text := (id.map Id.text).getD []

/-- `build_compound_key` -/
def buildCompoundKey (routeId serviceId consumerId : Option Id) : Text :=
  idText routeId ++ 58 :: (idText serviceId ++ 58 :: idText consumerId)

def pluginGlobalKey : Text := buildCompoundKey none none none

/-- The configurations of a plugin by compound key. -/
abbrev Combos (γ : Type) := LuaTable Text (Cfg γ)

/-- `lookup_cfg` -/
def lookupCfg (combos : Combos γ) (routeId serviceId consumerId : Option Id) : Option (Cfg γ) :=
  let tried (wanted : Bool) (key : Text) := if wanted then combos.get key else none
  (tried (routeId.isSome && serviceId.isSome && consumerId.isSome)
      (buildCompoundKey routeId serviceId consumerId)).or <|
    (tried (routeId.isSome && consumerId.isSome) (buildCompoundKey routeId none consumerId)).or <|
    (tried (serviceId.isSome && consumerId.isSome) (buildCompoundKey none serviceId consumerId)).or <|
    (tried (routeId.isSome && serviceId.isSome) (buildCompoundKey routeId serviceId none)).or <|
    (tried consumerId.isSome (buildCompoundKey none none consumerId)).or <|
    (tried routeId.isSome (buildCompoundKey routeId none none)).or <|
    (tried serviceId.isSome (buildCompoundKey none serviceId none)).or <|
    combos.get pluginGlobalKey

/-- `load_configuration_through_combos` -/
def loadConfigurationThroughCombos (ctx : Scope) (combos : Combos γ) (plugin : Plugin) :
    Option (Cfg γ) :=
  let handler := plugin.handler
  let routeId := if handler.noRoute then none else ctx.route
  let serviceId := if handler.noService then none else ctx.service
  let consumerId := if handler.noConsumer then none else ctx.consumer
  lookupCfg combos routeId serviceId consumerId

/-! ## Tables of phases -/

/-- A place in the table of a phase. -/
inductive Slot (γ : Type) where
  | plugin (plugin : Plugin)
  | cfg (cfg : Cfg γ)

/-- The table of a phase, with the count at index 0. -/
structure PhaseTable (γ : Type) where
  count : Nat
  slots : LuaTable Nat (Slot γ)

/-- A plugin and its configuration behind what is counted. -/
def PhaseTable.push (t : PhaseTable γ) (plugin : Plugin) (cfg : Cfg γ) : PhaseTable γ :=
  let n := t.count + 2
  ⟨n, (t.slots.set n (some (.cfg cfg))).set (n - 1) (some (.plugin plugin))⟩

/-- `get_next_global_or_collected_plugin` -/
def PhaseTable.next (t : PhaseTable γ) (i : Nat) : Option (Nat × Option (Slot γ) × Option (Slot γ)) :=
  let i := i + 2
  if i > t.count then none else some (i, t.slots.get (i - 1), t.slots.get i)

theorem PhaseTable.next_lt {t : PhaseTable γ} {i : Nat}
    {found : Nat × Option (Slot γ) × Option (Slot γ)} (h : t.next i = some found) :
    i < found.1 ∧ found.1 ≤ t.count := by
  unfold PhaseTable.next at h
  dsimp only at h
  split at h
  · cases h
  · cases h
    constructor <;> omega

/-- What a loop over the table visits behind an index. -/
def PhaseTable.entriesFrom (t : PhaseTable γ) (i : Nat) : List (Option (Slot γ) × Option (Slot γ)) :=
  match _hnext : t.next i with
  | none => []
  | some (i, entry) => entry :: t.entriesFrom i
termination_by t.count - i
decreasing_by
  have hlt := PhaseTable.next_lt _hnext
  omega

/-! ## Building the iterator -/

/-- The data of a workspace: the plugins in order, the names that wait for their place, and the
configurations by name. -/
structure WsData (γ : Type) where
  plugins : List Plugin := []
  names : LuaTable String Unit := ∅
  combos : LuaTable String (Combos γ) := ∅

section

variable (node : Node)

/-- `should_process_plugin` -/
def shouldProcessPlugin (row : PluginRow γ) : Bool :=
  !node.filtersByName row.name && row.enabled
    && row.protocols.any fun protocol => protocolsWithSubsystem.lookup protocol = some node.subsystem

/-- `get_plugin_config` -/
def getPluginConfig (row : PluginRow γ) : Option (Cfg γ) :=
  if row.enabled then some ⟨row.config, row.scope, row.instanceName, row.id, row.wsId⟩ else none

/-- What the loop over the rows changes. -/
structure Building (γ : Type) where
  ws : LuaTable Id (WsData γ)
  globals : LuaTable String (Cfg γ) := ∅
  hasPlugins : Bool := false
  counter : Nat := 0

/-- A configuration is put into the data of its workspace. -/
def addConfig (ws : LuaTable Id (WsData γ)) (row : PluginRow γ) (cfg : Cfg γ) :
    LuaTable Id (WsData γ) :=
  let data := (ws.get row.wsId).getD {}
  let combos := (data.combos.get row.name).getD ∅
  let compoundKey := buildCompoundKey row.scope.route row.scope.service row.scope.consumer
  ws.set row.wsId (some { data with
    names := data.names.set row.name (some ())
    combos := data.combos.set row.name (some (combos.set compoundKey (some cfg))) })

/-- A row that is processed. -/
def processRow (row : PluginRow γ) (b : Building γ) : Building γ :=
  match if shouldProcessPlugin node row then getPluginConfig row else none with
  | none => b
  | some cfg =>
    { b with
      ws := addConfig b.ws row cfg
      globals :=
        if row.scope = ⟨none, none, none⟩ ∧ row.wsId = node.defaultWorkspace then
          b.globals.set row.name (some cfg)
        else b.globals
      hasPlugins := true }

/-- The check of the version at each page: an error, or `nil` alone when another process
rebuilds the iterator. `current` is what the cache has at a count of rows. -/
def checkVersion (version : String) (current : Nat → Except String String) (counter : Nat) :
    Except (Option String) Unit :=
  if !node.dbless ∧ counter > 0 ∧ counter % node.maxPageSize = 0 ∧ node.coreCache then
    match current counter with
    | .error err => .error (some ("failed to retrieve plugins iterator version: " ++ err))
    | .ok newVersion => if newVersion ≠ version then .error none else .ok ()
  else .ok ()

/-- The loop over the rows. -/
def readRows (version : String) (current : Nat → Except String String) :
    List (Except String (PluginRow γ)) → Building γ → Except (Option String) (Building γ)
  | [], b => .ok b
  | .error err :: _, _ => .error (some err)
  | .ok row :: rows, b =>
    if !node.enabledPlugins row.name then
      .error (some (row.name ++ " plugin is in use but not enabled"))
    else
      match checkVersion node version current b.counter with
      | .error stopped => .error stopped
      | .ok () =>
        let b := processRow node row b
        readRows version current rows { b with counter := b.counter + 1 }

/-- A loaded plugin gets its place in a workspace that has configurations for it. -/
def placePlugin (plugin : Plugin) (data : WsData γ) : WsData γ :=
  if (data.names.get plugin.name).isSome then
    { data with plugins := data.plugins ++ [plugin], names := data.names.set plugin.name none }
  else data

/-- `globals`: the plugins of the phases that are not collected. -/
def globalPhases (globals : LuaTable String (Cfg γ)) (phase : Phase) : PhaseTable γ :=
  node.loaded.foldl (fun t plugin =>
    match globals.get plugin.name with
    | some cfg =>
      if phase ∈ node.subsystem.nonCollectingPhases ∧ plugin.handler.handles phase then
        t.push plugin cfg
      else t
    | none => t) ⟨0, ∅⟩

structure PluginsIterator (γ : Type) where
  version : String
  ws : LuaTable Id (WsData γ)
  globals : Phase → PhaseTable γ
  hasPlugins : Bool

/-- `PluginsIterator.new` -/
def PluginsIterator.new (version : String) (current : Nat → Except String String)
    (rows : List (Except String (PluginRow γ))) : Except (Option String) (PluginsIterator γ) :=
  let wsId := node.workspace.getD node.defaultWorkspace
  let start : Building γ := { ws := (∅ : LuaTable Id (WsData γ)).set wsId (some {}) }
  if node.controlPlane then
    .ok ⟨version, start.ws, fun _ => ⟨0, ∅⟩, false⟩
  else
    match readRows node version current rows start with
    | .error stopped => .error stopped
    | .ok b =>
      if b.hasPlugins then
        .ok ⟨version, node.loaded.foldl (fun ws plugin => LuaTable.map (placePlugin plugin) ws) b.ws,
          globalPhases node b.globals, true⟩
      else .ok ⟨version, b.ws, fun _ => ⟨0, ∅⟩, false⟩

/-! ## Requests -/

/-- The context of a request. Handlers that run in between may change what it says, so `scope`
is told for each plugin the iterator comes to. -/
structure Request where
  workspace : Option Id
  bufferedProxying : Bool
  scope : Plugin → Scope

/-- `ctx.plugins`, and `ctx.buffered_proxying`. -/
structure Collected (γ : Type) where
  phases : Phase → PhaseTable γ
  bufferedProxying : Bool

/-- `get_table_for_ctx`: the table that the pool gives is new, or has been used and still has its
entries. -/
def getTableForCtx (pooled : Option (Phase → PhaseTable γ)) (ws : Option (WsData γ)) :
    Except String (Phase → PhaseTable γ) :=
  match pooled, ws with
  | none, none => .error "attempt to index local 'ws' (a nil value)"
  | none, some _ => .ok fun _ => ⟨0, ∅⟩
  | some tbl, _ => .ok fun phase => ⟨0, (tbl phase).slots⟩

/-- The loop over the phases that come later. -/
def collect (plugin : Plugin) (cfg : Cfg γ) (c : Collected γ) : Collected γ :=
  node.subsystem.downstreamPhases.foldl (fun c phase =>
    if plugin.handler.handles phase then
      { phases := Function.update c.phases phase ((c.phases phase).push plugin cfg)
        bufferedProxying := c.bufferedProxying || phase = .response }
    else c) c

/-- `get_next_and_collect`; what is left of the plugins stands for the index. -/
def getNextAndCollect (request : Request) (ws : WsData γ) :
    List Plugin → Collected γ → Option (List Plugin × Plugin × Cfg γ) × Collected γ
  | [], c => (none, c)
  | plugin :: rest, c =>
    let cfg := (ws.combos.get plugin.name).bind fun combos =>
      loadConfigurationThroughCombos (request.scope plugin) combos plugin
    match cfg with
    | none => getNextAndCollect request ws rest c
    | some cfg =>
      let c := collect node plugin cfg c
      if plugin.handler.handles node.subsystem.collectingPhase then (some (rest, plugin, cfg), c)
      else getNextAndCollect request ws rest c

theorem length_getNextAndCollect {request : Request} {ws : WsData γ} {plugins : List Plugin}
    {c : Collected γ} {found : List Plugin × Plugin × Cfg γ}
    (h : (getNextAndCollect node request ws plugins c).1 = some found) :
    found.1.length < plugins.length := by
  induction plugins generalizing c with
  | nil => cases h
  | cons plugin rest ih =>
    rw [getNextAndCollect] at h
    dsimp only at h
    split at h
    · exact (ih h).trans (Nat.lt_succ_self _)
    · split at h
      · cases h
        exact Nat.lt_succ_self _
      · exact (ih h).trans (Nat.lt_succ_self _)

/-- The loop over the plugins that the iterator visits. -/
def visit (request : Request) (ws : WsData γ) (plugins : List Plugin) (c : Collected γ) :
    List (Plugin × Cfg γ) × Collected γ :=
  match _hnext : getNextAndCollect node request ws plugins c with
  | (none, c) => ([], c)
  | (some (rest, plugin, cfg), c) =>
    let (visited, c) := visit request ws rest c
    ((plugin, cfg) :: visited, c)
termination_by plugins.length
decreasing_by exact length_getNextAndCollect node (congrArg Prod.fst _hnext)

/-- `get_collecting_iterator`, the data it goes over, and `ctx.plugins`. -/
def PluginsIterator.getCollectingIterator (it : PluginsIterator γ) (request : Request)
    (pooled : Option (Phase → PhaseTable γ)) : Except String (Option (WsData γ) × Collected γ) :=
  let ws := it.ws.get (request.workspace.getD node.defaultWorkspace)
  match getTableForCtx pooled ws with
  | .error raised => .error raised
  | .ok phases =>
    .ok (ws.bind fun ws => if ws.plugins.isEmpty then none else some ws,
      ⟨phases, request.bufferedProxying⟩)

/-- The phase that collects: what is visited, and what is collected. -/
def PluginsIterator.collecting (it : PluginsIterator γ) (request : Request)
    (pooled : Option (Phase → PhaseTable γ)) : Except String (List (Plugin × Cfg γ) × Collected γ) :=
  match it.getCollectingIterator node request pooled with
  | .error raised => .error raised
  | .ok (none, c) => .ok ([], c)
  | .ok (some ws, c) => .ok (visit node request ws ws.plugins c)

/-- `get_global_iterator` -/
def PluginsIterator.getGlobalIterator (it : PluginsIterator γ) (phase : Phase) :
    Option (PhaseTable γ) :=
  if (it.globals phase).count = 0 then none else some (it.globals phase)

/-- `get_collected_iterator`, for `ctx.plugins`. -/
def PluginsIterator.getCollectedIterator (it : PluginsIterator γ) (phase : Phase)
    (plugins : Option (Collected γ)) : Option (PhaseTable γ) :=
  match plugins with
  | none => it.getGlobalIterator phase
  | some collected =>
    if phase ∉ node.subsystem.downstreamPhases ∨ (collected.phases phase).count = 0 then none
    else some (collected.phases phase)

/-- What a later phase visits. -/
def PluginsIterator.collected (it : PluginsIterator γ) (phase : Phase)
    (plugins : Option (Collected γ)) : List (Option (Slot γ) × Option (Slot γ)) :=
  match it.getCollectedIterator node phase plugins with
  | none => []
  | some t => t.entriesFrom 0

end

end KongGateway.Kong.Runloop

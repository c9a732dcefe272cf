import KongGateway.Lib.RustStd
import Mathlib.Data.Finset.Basic

/-!
# Plugin — declared plugins and the manager that owns them

The model of `plugin.rs` up to the point where requests run through the
plugins: the checks on a `PluginConfig`, the construction of a
`DeclaredPlugin`, and `PluginManager` from its first registration to its
`Drop`.

`init` and `teardown` are trait methods a plugin may override; they are
the parameters `PluginHooks`. A manager carries the log of the lifecycle
calls made on its plugins, which the source does not store and no
function reads.
-/

namespace KongGateway.GatewayCore

open RustStd

/-! ## The wasm interface -/

def pluginContractVersion : UInt32 := 1

def maxWasmPayloadBytes : Nat := 64 * 1024

inductive WasmPhase where
  | init
  | access
  | headerFilter
  | bodyFilter
  | log
deriving DecidableEq, Repr

inductive WasmCapability where
  | readHeaders
  | writeHeaders
  | readBody
  | writeBody
  | rewritePath
  | emitLogs
deriving DecidableEq, Repr

/-! ## Configuration -/

/-- The defaults are those of the deserialiser. -/
structure PluginConfig where
  name : String
  module : String
  wasmPath : Option String := none
  runtime : String := "native"
  contractVersion : UInt32 := 1
  phases : List String := ["init", "access", "header_filter", "body_filter", "log"]
  capabilities : List String := []
deriving DecidableEq, Repr

inductive PluginRuntime where
  | native
  | wasm
deriving DecidableEq, Repr

structure WasmRuntimeHost where
  allowedCapabilities : Finset WasmCapability
  maxPayloadBytes : Nat
deriving DecidableEq

structure DeclaredPlugin where
  name : String
  module : String
  runtime : PluginRuntime
  wasmPath : Option String
  phases : Finset WasmPhase
  requiredCapabilities : List WasmCapability
  host : WasmRuntimeHost
  contractVersion : UInt32
deriving DecidableEq

def WasmRuntimeHost.sandboxedForPlugin (requiredCapabilities : List WasmCapability) :
    WasmRuntimeHost where
  allowedCapabilities := requiredCapabilities.toFinset
  maxPayloadBytes := maxWasmPayloadBytes

def contractMismatch (name : String) (got : UInt32) : String :=
  "plugin '" ++ name ++ "' contract version mismatch: expected "
    ++ toString pluginContractVersion ++ ", got " ++ toString got

def validatePluginSchema (cfg : PluginConfig) : Except String Unit :=
  if trim cfg.name = "" then .error "plugin name cannot be empty"
  else if trim cfg.module = "" then
    .error ("plugin '" ++ cfg.name ++ "' module cannot be empty")
  else if cfg.contractVersion ≠ pluginContractVersion then
    .error (contractMismatch cfg.name cfg.contractVersion)
  else if cfg.phases.isEmpty then
    .error ("plugin '" ++ cfg.name ++ "' phases cannot be empty")
  else .ok ()

def parseRuntime (runtime : String) : Except String PluginRuntime :=
  match toAsciiLowercase (trim runtime) with
  | "native" => .ok .native
  | "wasm" => .ok .wasm
  | other => .error ("unsupported plugin runtime '" ++ other ++ "'")

def parsePhase (phase : String) : Except String WasmPhase :=
  match toAsciiLowercase (trim phase) with
  | "init" => .ok .init
  | "access" => .ok .access
  | "header" | "header_filter" | "headerfilter" => .ok .headerFilter
  | "body" | "body_filter" | "bodyfilter" => .ok .bodyFilter
  | "log" => .ok .log
  | other => .error ("unsupported plugin phase '" ++ other ++ "'")

def parsePhases (phases : List String) : Except String (Finset WasmPhase) := do
  let parsed ← phases.mapM parsePhase
  return parsed.toFinset

def parseCapability (capability : String) : Except String WasmCapability :=
  match toAsciiLowercase (trim capability) with
  | "read_headers" => .ok .readHeaders
  | "write_headers" => .ok .writeHeaders
  | "read_body" => .ok .readBody
  | "write_body" => .ok .writeBody
  | "rewrite_path" => .ok .rewritePath
  | "emit_logs" => .ok .emitLogs
  | other => .error ("unsupported plugin capability '" ++ other ++ "'")

def parseCapabilities (capabilities : List String) : Except String (List WasmCapability) :=
  capabilities.mapM parseCapability

/-- The check that a wasm plugin has a module file. `pathExists` is
`Path::exists`. -/
def checkWasmPath (pathExists : String → Bool) (cfg : PluginConfig) : Except String Unit :=
  match cfg.wasmPath with
  | none => .error ("plugin '" ++ cfg.name ++ "' runtime is wasm but wasm_path is missing")
  | some path =>
    if pathExists path then .ok ()
    else .error ("plugin '" ++ cfg.name ++ "' wasm_path does not exist: " ++ path)

def buildDeclaredPlugin (pathExists : String → Bool) (cfg : PluginConfig) :
    Except String DeclaredPlugin := do
  validatePluginSchema cfg
  let runtime ← parseRuntime cfg.runtime
  let phases ← parsePhases cfg.phases
  let capabilities ← parseCapabilities cfg.capabilities
  if runtime = .wasm then
    checkWasmPath pathExists cfg
  return {
    name := cfg.name
    module := cfg.module
    runtime := runtime
    wasmPath := cfg.wasmPath
    phases := phases
    requiredCapabilities := capabilities
    host := .sandboxedForPlugin capabilities
    contractVersion := cfg.contractVersion }

/-! ## The manager -/

/-- The overridable lifecycle methods; `Ok(())` unless overridden. -/
structure PluginHooks where
  init : DeclaredPlugin → Except String Unit := fun _ => .ok ()
  teardown : DeclaredPlugin → Except String Unit := fun _ => .ok ()

/-- A call of `init` or `teardown` with what it returned. -/
inductive LifecycleCall where
  | init (plugin : DeclaredPlugin) (result : Except String Unit)
  | teardown (plugin : DeclaredPlugin) (result : Except String Unit)

structure PluginManager where
  plugins : List DeclaredPlugin
  calls : List LifecycleCall

namespace PluginManager

def new : PluginManager where
  plugins := []
  calls := []

def register (hooks : PluginHooks) (manager : PluginManager) (plugin : DeclaredPlugin) :
    Except String Unit × PluginManager :=
  if plugin.contractVersion ≠ pluginContractVersion then
    (.error (contractMismatch plugin.name plugin.contractVersion), manager)
  else
    let called := manager.calls ++ [.init plugin (hooks.init plugin)]
    match hooks.init plugin with
    | .error err => (.error err, { manager with calls := called })
    | .ok () => (.ok (), { plugins := manager.plugins ++ [plugin], calls := called })

/-- Every plugin is torn down, in order; a failing `teardown` is only
logged. -/
def rollbackLifecycle (hooks : PluginHooks) (manager : PluginManager) : PluginManager where
  plugins := []
  calls := manager.calls
    ++ manager.plugins.map fun plugin => .teardown plugin (hooks.teardown plugin)

/-- `Drop::drop`. -/
def drop (hooks : PluginHooks) (manager : PluginManager) : PluginManager :=
  manager.rollbackLifecycle hooks

/-- The loop of `from_config`, with the manager as it stands when the
loop is left: after a rollback for a duplicate name and for a failed
registration, as it is for an error that leaves through `?`. -/
def registerAll (hooks : PluginHooks) (pathExists : String → Bool) :
    List PluginConfig → Finset String → PluginManager → Except String Unit × PluginManager
  | [], _, manager => (.ok (), manager)
  | cfg :: rest, seen, manager =>
    if cfg.name ∈ seen then
      (.error ("duplicate plugin name '" ++ cfg.name ++ "'"), manager.rollbackLifecycle hooks)
    else
      match buildDeclaredPlugin pathExists cfg with
      | .error err => (.error err, manager)
      | .ok declared =>
        match manager.register hooks declared with
        | (.error err, manager) =>
          (.error ("failed to register plugin '" ++ cfg.name ++ "': " ++ err),
            manager.rollbackLifecycle hooks)
        | (.ok (), manager) =>
          registerAll hooks pathExists rest (insert cfg.name seen) manager

/-- `from_config`, with the calls made by the time it returns. An error
return drops the local manager. -/
def fromConfig (hooks : PluginHooks) (pathExists : String → Bool) (configs : List PluginConfig) :
    Except String PluginManager × List LifecycleCall :=
  match registerAll hooks pathExists configs ∅ new with
  | (.ok (), manager) => (.ok manager, manager.calls)
  | (.error err, manager) => (.error err, (manager.drop hooks).calls)

/-- All calls by the time the manager is gone: one that was returned is
dropped later. -/
def lifetimeCalls (hooks : PluginHooks) (pathExists : String → Bool)
    (configs : List PluginConfig) : List LifecycleCall :=
  match fromConfig hooks pathExists configs with
  | (.ok manager, _) => (manager.drop hooks).calls
  | (.error _, calls) => calls

end PluginManager

/-!
## Lifecycle — every initialised plugin is torn down once

`from_config` may be left after any plugin and in three ways: through an
explicit rollback, through `?`, or with the manager in hand. A rollback
empties the manager, so the `Drop` that follows it finds nothing, and
the `Drop` alone does the work in the other two cases.
-/

namespace LifecycleCall

/-- The plugin a call has initialised. -/
def initialised : LifecycleCall → Option DeclaredPlugin
  | .init plugin (.ok ()) => some plugin
  | .init _ (.error _) => none
  | .teardown _ _ => none

/-- The plugin a call has torn down, whatever `teardown` returned. -/
def tornDown : LifecycleCall → Option DeclaredPlugin
  | .init _ _ => none
  | .teardown plugin _ => some plugin

end LifecycleCall

open LifecycleCall

/-- What a log must look like when the manager is gone. -/
structure Balanced (calls : List LifecycleCall) : Prop where
  torn : calls.filterMap tornDown = calls.filterMap initialised
  nodup : (calls.filterMap initialised).Nodup

/-- A balanced log tears down every initialised plugin once, and no
other. -/
theorem Balanced.count_tornDown {calls : List LifecycleCall} (h : Balanced calls)
    (plugin : DeclaredPlugin) :
    (calls.filterMap tornDown).count plugin
      = if plugin ∈ calls.filterMap initialised then 1 else 0 := by
  rw [h.torn]
  split
  · rename_i hmem
    exact List.count_eq_one_of_mem h.nodup hmem
  · rename_i hmem
    exact List.count_eq_zero.mpr hmem

theorem buildDeclaredPlugin_name {pathExists : String → Bool} {cfg : PluginConfig}
    {plugin : DeclaredPlugin} (h : buildDeclaredPlugin pathExists cfg = .ok plugin) :
    plugin.name = cfg.name := by
  simp only [buildDeclaredPlugin, bind, Except.bind, pure, Except.pure] at h
  repeat' split at h
  all_goals cases h
  all_goals rfl

namespace PluginManager

variable {hooks : PluginHooks} {pathExists : String → Bool} {manager : PluginManager}
  {seen : Finset String}

/-- The manager inside `from_config`: it owns what it has initialised,
under names it has seen, and has torn down nothing. -/
structure Running (manager : PluginManager) (seen : Finset String) : Prop where
  none_torn : manager.calls.filterMap tornDown = []
  owned : manager.calls.filterMap initialised = manager.plugins
  names_nodup : (manager.plugins.map (·.name)).Nodup
  names_seen : ∀ plugin ∈ manager.plugins, plugin.name ∈ seen

theorem Running.new : Running new ∅ where
  none_torn := rfl
  owned := rfl
  names_nodup := List.nodup_nil
  names_seen := by simp [PluginManager.new]

theorem tornDown_teardowns (plugins : List DeclaredPlugin) :
    (plugins.map fun plugin => .teardown plugin (hooks.teardown plugin)).filterMap tornDown
      = plugins := by
  induction plugins with
  | nil => rfl
  | cons plugin rest ih => simp [tornDown, ih]

theorem initialised_teardowns (plugins : List DeclaredPlugin) :
    (plugins.map fun plugin => .teardown plugin (hooks.teardown plugin)).filterMap initialised
      = [] := by
  simp [initialised]

theorem Running.rollback (h : manager.Running seen) :
    Balanced (manager.rollbackLifecycle hooks).calls := by
  have hinit : (manager.rollbackLifecycle hooks).calls.filterMap initialised
      = manager.plugins := by
    simp only [rollbackLifecycle, List.filterMap_append, h.owned, initialised_teardowns,
      List.append_nil]
  constructor
  · rw [hinit]
    simp only [rollbackLifecycle, List.filterMap_append, h.none_torn, tornDown_teardowns,
      List.nil_append]
  · rw [hinit]
    exact List.Nodup.of_map _ h.names_nodup

theorem rollback_rollback :
    (manager.rollbackLifecycle hooks).rollbackLifecycle hooks
      = manager.rollbackLifecycle hooks := by
  simp [rollbackLifecycle]

theorem Running.init_failed (h : manager.Running seen) (plugin : DeclaredPlugin) (err : String) :
    Running { manager with calls := manager.calls ++ [.init plugin (.error err)] } seen where
  none_torn := by simp [List.filterMap_append, h.none_torn, tornDown]
  owned := by simp [List.filterMap_append, h.owned, initialised]
  names_nodup := h.names_nodup
  names_seen := h.names_seen

theorem Running.init_ok (h : manager.Running seen) {plugin : DeclaredPlugin}
    (hfresh : plugin.name ∉ seen) :
    Running { plugins := manager.plugins ++ [plugin]
              calls := manager.calls ++ [.init plugin (.ok ())] }
      (insert plugin.name seen) where
  none_torn := by simp [List.filterMap_append, h.none_torn, tornDown]
  owned := by simp [List.filterMap_append, h.owned, initialised]
  names_nodup := by
    have hnew : plugin.name ∉ manager.plugins.map (·.name) := by
      intro hmem
      obtain ⟨owned, howned, hname⟩ := List.mem_map.mp hmem
      exact hfresh (hname ▸ h.names_seen owned howned)
    simpa [List.nodup_append, h.names_nodup] using hnew
  names_seen := by
    intro owned hmem
    rcases List.mem_append.mp hmem with hold | hnew
    · exact Finset.mem_insert_of_mem (h.names_seen owned hold)
    · rw [List.mem_singleton.mp hnew]
      exact Finset.mem_insert_self _ _

/-- A registration fails and leaves the plugins alone, or adds the
plugin at the end. -/
theorem Running.register (hooks : PluginHooks) (h : manager.Running seen)
    {plugin : DeclaredPlugin} (hfresh : plugin.name ∉ seen) :
    (∃ err failed, manager.register hooks plugin = (.error err, failed) ∧ failed.Running seen)
      ∨ ∃ registered, manager.register hooks plugin = (.ok (), registered)
          ∧ registered.plugins = manager.plugins ++ [plugin]
          ∧ registered.Running (insert plugin.name seen) := by
  unfold PluginManager.register
  split
  · exact .inl ⟨_, manager, rfl, h⟩
  · cases hinit : hooks.init plugin with
    | error err => exact .inl ⟨err, _, rfl, h.init_failed plugin err⟩
    | ok _ => exact .inr ⟨_, rfl, rfl, h.init_ok hfresh⟩

/-- How the loop can end: all plugins registered, in order, or a manager
that a drop leaves balanced. -/
theorem Running.registerAll (hooks : PluginHooks) (pathExists : String → Bool)
    (configs : List PluginConfig) (h : manager.Running seen) :
    (∃ built registered seen', registerAll hooks pathExists configs seen manager
          = (.ok (), registered)
        ∧ registered.plugins = manager.plugins ++ built
        ∧ List.Forall₂ (fun cfg plugin => buildDeclaredPlugin pathExists cfg = .ok plugin)
            configs built
        ∧ registered.Running seen')
      ∨ ∃ err failed, registerAll hooks pathExists configs seen manager = (.error err, failed)
          ∧ Balanced (failed.drop hooks).calls := by
  induction configs generalizing manager seen with
  | nil => exact .inl ⟨[], manager, seen, rfl, by simp, .nil, h⟩
  | cons cfg rest ih =>
    simp only [PluginManager.registerAll]
    split
    · -- a duplicate name: the explicit rollback, and a drop that finds nothing
      refine .inr ⟨_, _, rfl, ?_⟩
      rw [drop, rollback_rollback]
      exact h.rollback
    · rename_i hfresh
      cases hbuild : buildDeclaredPlugin pathExists cfg with
      | error err => exact .inr ⟨err, manager, rfl, h.rollback⟩
      | ok plugin =>
        have hname := buildDeclaredPlugin_name hbuild
        have hfresh' : plugin.name ∉ seen := hname ▸ hfresh
        rcases h.register hooks hfresh' with
          ⟨err, failed, hreg, hfailed⟩ | ⟨registered, hreg, hplugins, hrunning⟩
        · simp only [hreg]
          refine .inr ⟨_, failed.rollbackLifecycle hooks, rfl, ?_⟩
          rw [drop, rollback_rollback]
          exact hfailed.rollback
        · rw [hname] at hrunning
          simp only [hreg]
          rcases ih hrunning with
            ⟨built, last, seen', hrun, hlast, hbuilt, hseen⟩ | ⟨err, failed, hrun, hbalanced⟩
          · refine .inl ⟨plugin :: built, last, seen', hrun, ?_, .cons hbuild hbuilt, hseen⟩
            rw [hlast, hplugins, List.append_assoc, List.singleton_append]
          · exact .inr ⟨err, failed, hrun, hbalanced⟩

end PluginManager

/-- **Lifecycle balance.** By the time the manager is gone, every plugin
whose `init` succeeded has been torn down exactly once and no other
plugin has; a manager that is returned has torn down nothing, and holds
the plugins in configuration order until it is dropped. -/
theorem plugin_lifecycle_balanced (hooks : PluginHooks) (pathExists : String → Bool)
    (configs : List PluginConfig) :
    (∀ plugin,
      ((PluginManager.lifetimeCalls hooks pathExists configs).filterMap tornDown).count plugin
        = if plugin ∈ (PluginManager.lifetimeCalls hooks pathExists configs).filterMap initialised
          then 1 else 0)
    ∧ ∀ manager returned,
        PluginManager.fromConfig hooks pathExists configs = (.ok manager, returned) →
        returned.filterMap tornDown = []
          ∧ List.Forall₂ (fun cfg plugin => buildDeclaredPlugin pathExists cfg = .ok plugin)
              configs manager.plugins
          ∧ (PluginManager.lifetimeCalls hooks pathExists configs).filterMap tornDown
              = manager.plugins := by
  rcases PluginManager.Running.new.registerAll hooks pathExists configs with
    ⟨built, last, seen, hrun, hplugins, hbuilt, hlast⟩ | ⟨err, failed, hrun, hbalanced⟩
  · have hconfig : PluginManager.fromConfig hooks pathExists configs = (.ok last, last.calls) := by
      simp only [PluginManager.fromConfig, hrun]
    have hlife : PluginManager.lifetimeCalls hooks pathExists configs
        = (last.drop hooks).calls := by
      simp only [PluginManager.lifetimeCalls, hconfig]
    rw [hlife]
    have hbalanced : Balanced (last.drop hooks).calls := hlast.rollback
    refine ⟨hbalanced.count_tornDown, ?_⟩
    intro manager returned hreturned
    rw [hconfig] at hreturned
    obtain ⟨rfl, rfl⟩ : last = manager ∧ last.calls = returned := by simpa using hreturned
    refine ⟨hlast.none_torn, ?_, ?_⟩
    · rw [hplugins]
      exact hbuilt
    · simp only [PluginManager.drop, PluginManager.rollbackLifecycle, List.filterMap_append,
        hlast.none_torn, PluginManager.tornDown_teardowns, List.nil_append]
  · have hconfig : PluginManager.fromConfig hooks pathExists configs
        = (.error err, (failed.drop hooks).calls) := by
      simp only [PluginManager.fromConfig, hrun]
    have hlife : PluginManager.lifetimeCalls hooks pathExists configs
        = (failed.drop hooks).calls := by
      simp only [PluginManager.lifetimeCalls, hconfig]
    rw [hlife]
    refine ⟨hbalanced.count_tornDown, ?_⟩
    intro manager returned hreturned
    rw [hconfig] at hreturned
    cases hreturned

/-- Two plugins that the default hooks initialise are torn down in the
order of the configuration. -/
theorem two_plugins_torn_down_in_order :
    let configs : List PluginConfig :=
      [{ name := "auth", module := "jwt" }, { name := "audit", module := "log" }]
    ∃ manager returned,
      PluginManager.fromConfig {} (fun _ => true) configs = (.ok manager, returned)
        ∧ manager.plugins.map (·.name) = ["auth", "audit"]
        ∧ (PluginManager.lifetimeCalls {} (fun _ => true) configs).filterMap tornDown
            = manager.plugins :=
  ⟨_, _, rfl, rfl, ((plugin_lifecycle_balanced {} (fun _ => true) _).2 _ _ rfl).2.2⟩

end KongGateway.GatewayCore

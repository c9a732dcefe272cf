import KongGateway.GatewayCore.Plugin
import KongGateway.GatewayCore.Proxy.Attempts
import KongGateway.Lib.MapM

/-!
# Plugin — the phases of a request

`run_phase` asks the plugins of a phase in turn until one denies.
`run_request_pipeline` does so for four phases in order; the live handler
has the same order unrolled, with the Access phase before the request is
forwarded and the others behind the upstream's answer. Every call of
`execute` is recorded here, in order.
-/

namespace KongGateway.GatewayCore

structure PluginContext where
  route : String
  path : String
deriving DecidableEq, Repr

structure PluginResult where
  allowed : Bool
  reason : Option String
deriving DecidableEq, Repr

/-- What the phases use of a plugin. -/
structure GatewayPlugin where
  name : String
  supportsPhase : WasmPhase → Bool
  execute : WasmPhase → PluginContext → PluginResult

/-! ## Declared plugins -/

/-- `ABI_VERSION` -/
def wasmAbiVersion : UInt32 := 1

structure WasmCall where
  abiVersion : UInt32
  pluginContractVersion : UInt32
  phase : WasmPhase
  plugin : String
  requiredCapabilities : List WasmCapability
  payload : List UInt8

def WasmCall.new (phase : WasmPhase) (plugin : String)
    (requiredCapabilities : List WasmCapability) (payload : List UInt8) : WasmCall where
  abiVersion := wasmAbiVersion
  pluginContractVersion := KongGateway.GatewayCore.pluginContractVersion
  phase := phase
  plugin := plugin
  requiredCapabilities := requiredCapabilities
  payload := payload

/-- The derived `Debug`. -/
def WasmCapability.debug : WasmCapability → String
  | .readHeaders => "ReadHeaders"
  | .writeHeaders => "WriteHeaders"
  | .readBody => "ReadBody"
  | .writeBody => "WriteBody"
  | .rewritePath => "RewritePath"
  | .emitLogs => "EmitLogs"

def WasmRuntimeHost.invoke (host : WasmRuntimeHost) (call : WasmCall) : Except String Unit :=
  if host.maxPayloadBytes < call.payload.length then
    .error ("wasm payload exceeds sandbox limit: " ++ toString call.payload.length ++ " > "
      ++ toString host.maxPayloadBytes)
  else
    match call.requiredCapabilities.find? fun cap => cap ∉ host.allowedCapabilities with
    | some cap =>
      .error ("wasm capability '" ++ cap.debug ++ "' is not allowed by sandbox policy")
    | none => .ok ()

/-- `execute` of a declared plugin; `toVec` is `serde_json::to_vec`, or
the empty payload where that fails. -/
def DeclaredPlugin.execute (toVec : PluginContext → List UInt8) (plugin : DeclaredPlugin)
    (phase : WasmPhase) (ctx : PluginContext) : PluginResult :=
  if phase ∉ plugin.phases then ⟨true, none⟩
  else
    match plugin.runtime with
    | .native => ⟨true, none⟩
    | .wasm =>
      match plugin.host.invoke (.new phase plugin.name plugin.requiredCapabilities (toVec ctx)) with
      | .error err => ⟨false, some err⟩
      | .ok () => ⟨true, none⟩

def DeclaredPlugin.toGatewayPlugin (toVec : PluginContext → List UInt8) (plugin : DeclaredPlugin) :
    GatewayPlugin where
  name := plugin.name
  supportsPhase phase := phase ∈ plugin.phases
  execute := plugin.execute toVec

/-- A plugin built from its configuration has the sandbox for what it
requires. -/
theorem buildDeclaredPlugin_host {pathExists : String → Bool} {cfg : PluginConfig}
    {plugin : DeclaredPlugin} (h : buildDeclaredPlugin pathExists cfg = .ok plugin) :
    plugin.host = .sandboxedForPlugin plugin.requiredCapabilities := by
  unfold buildDeclaredPlugin at h
  obtain ⟨-, -, h⟩ := MapM.bind_ok h
  obtain ⟨runtime, -, h⟩ := MapM.bind_ok h
  obtain ⟨phases, -, h⟩ := MapM.bind_ok h
  obtain ⟨capabilities, -, h⟩ := MapM.bind_ok h
  dsimp only at h
  split at h
  · obtain ⟨-, -, h⟩ := MapM.bind_ok h
    obtain rfl := Except.ok.inj h
    rfl
  · obtain rfl := Except.ok.inj h
    rfl

theorem fromConfig_host {hooks : PluginHooks} {pathExists : String → Bool}
    {configs : List PluginConfig} {manager : PluginManager}
    (h : (PluginManager.fromConfig hooks pathExists configs).1 = .ok manager) :
    ∀ plugin ∈ manager.plugins,
      plugin.host = .sandboxedForPlugin plugin.requiredCapabilities := by
  rcases PluginManager.Running.new.registerAll hooks pathExists configs with
    ⟨built, last, _, hrun, hplugins, hbuilt, -⟩ | ⟨err, failed, hrun, -⟩
  · simp only [PluginManager.fromConfig, hrun] at h
    obtain rfl := Except.ok.inj h
    obtain rfl : last.plugins = built := hplugins
    intro plugin hmem
    obtain ⟨i, hi, rfl⟩ := List.getElem_of_mem hmem
    exact buildDeclaredPlugin_host (hbuilt.get (hbuilt.length_eq ▸ hi) hi)
  · simp only [PluginManager.fromConfig, hrun] at h
    cases h

theorem DeclaredPlugin.execute_denied_iff (toVec : PluginContext → List UInt8)
    {plugin : DeclaredPlugin}
    (hhost : plugin.host = .sandboxedForPlugin plugin.requiredCapabilities)
    (phase : WasmPhase) (ctx : PluginContext) :
    (plugin.execute toVec phase ctx).allowed = false
      ↔ phase ∈ plugin.phases ∧ plugin.runtime = .wasm
        ∧ maxWasmPayloadBytes < (toVec ctx).length := by
  have hfind : plugin.requiredCapabilities.find?
      (fun cap => cap ∉ plugin.requiredCapabilities.toFinset) = none := by
    rw [List.find?_eq_none]
    intro cap hcap
    simpa using hcap
  unfold DeclaredPlugin.execute
  by_cases hphase : phase ∈ plugin.phases
  · cases hruntime : plugin.runtime with
    | native => simp [hphase]
    | wasm =>
      simp only [hphase, not_true_eq_false, if_false, hhost, WasmRuntimeHost.invoke,
        WasmCall.new, WasmRuntimeHost.sandboxedForPlugin, hfind]
      by_cases hlength : maxWasmPayloadBytes < (toVec ctx).length
      · simp [hlength]
      · simp [hlength]
  · simp [hphase]

/-! ## Running the phases -/

/-- A call of `execute`. -/
structure Execution where
  plugin : GatewayPlugin
  phase : WasmPhase

def runPhase : List GatewayPlugin → WasmPhase → PluginContext → PluginResult × List Execution
  | [], _, _ => (⟨true, none⟩, [])
  | plugin :: rest, phase, ctx =>
    if !plugin.supportsPhase phase then runPhase rest phase ctx
    else
      let result := plugin.execute phase ctx
      if !result.allowed then (result, [⟨plugin, phase⟩])
      else
        let (later, executed) := runPhase rest phase ctx
        (later, ⟨plugin, phase⟩ :: executed)

/-- `ORDERED_PHASES` -/
def orderedPhases : List WasmPhase := [.access, .headerFilter, .bodyFilter, .log]

/-- The loop of `run_request_pipeline`. -/
def runPhases (plugins : List GatewayPlugin) (ctx : PluginContext) :
    List WasmPhase → PluginResult × List Execution
  | [] => (⟨true, none⟩, [])
  | phase :: rest =>
    let (result, executed) := runPhase plugins phase ctx
    if !result.allowed then (result, executed)
    else
      let (later, more) := runPhases plugins ctx rest
      (later, executed ++ more)

def runRequestPipeline (plugins : List GatewayPlugin) (ctx : PluginContext) :
    PluginResult × List Execution :=
  runPhases plugins ctx orderedPhases

/-- The reply to a request that a plugin denies. -/
def blocked (result : PluginResult) (default : String) : ProxyReply :=
  .text 403 (result.reason.getD default)

/-- `run_response_plugin_phases`: the reply, if a plugin denies the
response. The result of the Log phase is discarded. -/
def runResponsePluginPhases (plugins : List GatewayPlugin) (ctx : PluginContext) :
    Option ProxyReply × List Execution :=
  let (headerFilterResult, header) := runPhase plugins .headerFilter ctx
  if !headerFilterResult.allowed then
    (some (blocked headerFilterResult "blocked by header phase plugin"), header)
  else
    let (bodyFilterResult, body) := runPhase plugins .bodyFilter ctx
    if !bodyFilterResult.allowed then
      (some (blocked bodyFilterResult "blocked by body phase plugin"), header ++ body)
    else
      let (_, log) := runPhase plugins .log ctx
      (none, header ++ body ++ log)

/-- The plugin calls of `proxy_handler`, around what it does between
them: `reply` is what it answers or has from the upstream when the Access
phase lets it go on. -/
def handlePhases (plugins : List GatewayPlugin) (ctx : PluginContext) (reply : ProxyReply) :
    ProxyReply × List Execution :=
  let (pluginResult, access) := runPhase plugins .access ctx
  if !pluginResult.allowed then (blocked pluginResult "blocked by plugin", access)
  else
    match reply with
    | .text status body => (.text status body, access)
    | .forwarded status =>
      match runResponsePluginPhases plugins ctx with
      | (some denied, executed) => (denied, access ++ executed)
      | (none, executed) => (.forwarded status, access ++ executed)

/-! ## The two orders agree -/

/-- The pipeline ends with a denial in the phase. -/
def DeniesIn (plugins : List GatewayPlugin) (ctx : PluginContext) (phase : WasmPhase) : Prop :=
  ∃ before after, orderedPhases = before ++ phase :: after
    ∧ (∀ earlier ∈ before, (runPhase plugins earlier ctx).1.allowed = true)
    ∧ (runPhase plugins phase ctx).1.allowed = false

section

variable (plugins : List GatewayPlugin) (ctx : PluginContext)

theorem runPhases_denied_iff (phases : List WasmPhase) :
    (runPhases plugins ctx phases).1.allowed = false
      ↔ ∃ before phase after, phases = before ++ phase :: after
        ∧ (∀ earlier ∈ before, (runPhase plugins earlier ctx).1.allowed = true)
        ∧ (runPhase plugins phase ctx).1.allowed = false := by
  induction phases with
  | nil => simp [runPhases]
  | cons phase rest ih =>
    cases hphase : (runPhase plugins phase ctx).1.allowed with
    | false =>
      simp only [runPhases, hphase, Bool.not_false, if_true, true_iff]
      exact ⟨[], phase, rest, rfl, by simp, hphase⟩
    | true =>
      simp only [runPhases, hphase, Bool.not_true, Bool.false_eq_true, if_false]
      rw [ih]
      constructor
      · rintro ⟨before, later, after, rfl, hbefore, hlater⟩
        refine ⟨phase :: before, later, after, rfl, ?_, hlater⟩
        intro earlier hmem
        rcases List.mem_cons.mp hmem with rfl | hmem
        · exact hphase
        · exact hbefore earlier hmem
      · rintro ⟨before, later, after, heq, hbefore, hlater⟩
        cases before with
        | nil =>
          obtain ⟨rfl, -⟩ := List.cons.inj heq
          rw [hphase] at hlater
          cases hlater
        | cons first before =>
          obtain ⟨rfl, rfl⟩ := List.cons.inj heq
          exact ⟨before, later, after, rfl,
            fun earlier hmem => hbefore earlier (List.mem_cons_of_mem _ hmem), hlater⟩

/-- A denial before the Log phase is one of the three phases before it. -/
theorem deniesIn_before_log :
    (∃ phase, phase ≠ .log ∧ DeniesIn plugins ctx phase)
      ↔ (runPhases plugins ctx [.access, .headerFilter, .bodyFilter]).1.allowed = false := by
  rw [runPhases_denied_iff]
  constructor
  · rintro ⟨phase, hlog, before, after, heq, hbefore, hphase⟩
    rcases List.eq_nil_or_concat after with rfl | ⟨between, last, rfl⟩
    · have hlast := congrArg List.getLast? heq
      rw [List.getLast?_concat] at hlast
      exact absurd (Option.some.inj hlast).symm hlog
    · rw [List.concat_eq_append, ← List.cons_append, ← List.append_assoc] at heq
      have hsplit : [WasmPhase.access, .headerFilter, .bodyFilter] ++ [WasmPhase.log]
          = (before ++ phase :: between) ++ [last] := heq
      exact ⟨before, phase, between, (List.append_inj' hsplit rfl).1, hbefore, hphase⟩
  · rintro ⟨before, phase, after, heq, hbefore, hphase⟩
    have hmem : phase ∈ before ++ phase :: after := by simp
    refine ⟨phase, ?_, before, after ++ [.log], ?_, hbefore, hphase⟩
    · rintro rfl
      rw [← heq] at hmem
      revert hmem
      decide
    · rw [← List.cons_append, ← List.append_assoc, ← heq]
      rfl

end

/-- **The live order is the pipeline's.** For every list of plugins and
every request that the upstream answers, the handler makes the calls of
the pipeline, in its order, and it blocks the request if and only if the
pipeline denies it in a phase other than Log. -/
theorem live_phases_are_pipeline (plugins : List GatewayPlugin) (ctx : PluginContext)
    (status : StatusCode) :
    (handlePhases plugins ctx (.forwarded status)).2 = (runRequestPipeline plugins ctx).2
      ∧ ((handlePhases plugins ctx (.forwarded status)).1 ≠ .forwarded status
        ↔ ∃ phase, phase ≠ .log ∧ DeniesIn plugins ctx phase) := by
  rw [deniesIn_before_log]
  unfold handlePhases runResponsePluginPhases runRequestPipeline orderedPhases
  simp only [runPhases]
  cases haccess : (runPhase plugins .access ctx).1.allowed with
  | false => simp [haccess, blocked]
  | true =>
    cases hheader : (runPhase plugins .headerFilter ctx).1.allowed with
    | false => simp [hheader, blocked]
    | true =>
      cases hbody : (runPhase plugins .bodyFilter ctx).1.allowed with
      | false => simp [hbody, blocked]
      | true =>
        -- what the Log phase says changes nothing here
        cases hlog : (runPhase plugins .log ctx).1.allowed with
        | false => simp
        | true => simp

/-! ## What declared plugins block -/

theorem runPhase_denied_iff (plugins : List GatewayPlugin) (phase : WasmPhase)
    (ctx : PluginContext) :
    (runPhase plugins phase ctx).1.allowed = false
      ↔ ∃ plugin ∈ plugins, plugin.supportsPhase phase = true
        ∧ (plugin.execute phase ctx).allowed = false := by
  induction plugins with
  | nil => simp [runPhase]
  | cons plugin rest ih =>
    cases hphase : plugin.supportsPhase phase with
    | false => simpa [runPhase, hphase] using ih
    | true =>
      cases hexecute : (plugin.execute phase ctx).allowed with
      | false => simp [runPhase, hphase, hexecute]
      | true => simpa [runPhase, hphase, hexecute] using ih

theorem handlePhases_blocked_iff (plugins : List GatewayPlugin) (ctx : PluginContext)
    (status : StatusCode) :
    (handlePhases plugins ctx (.forwarded status)).1 ≠ .forwarded status
      ↔ ∃ phase ∈ [WasmPhase.access, WasmPhase.headerFilter, WasmPhase.bodyFilter],
        (runPhase plugins phase ctx).1.allowed = false := by
  unfold handlePhases runResponsePluginPhases
  cases haccess : (runPhase plugins .access ctx).1.allowed with
  | false => simp [haccess, blocked]
  | true =>
    cases hheader : (runPhase plugins .headerFilter ctx).1.allowed with
    | false => simp [haccess, hheader, blocked]
    | true =>
      cases hbody : (runPhase plugins .bodyFilter ctx).1.allowed with
      | false => simp [haccess, hheader, hbody, blocked]
      | true => simp [haccess, hheader, hbody]

/-- **Declared plugins block by length alone.** Whatever is configured,
the handler blocks an answered request if and only if the payload made of
its context is too long for a sandbox and some wasm plugin runs in a phase
between Init and Log: no capability is ever refused. -/
theorem blocked_iff_oversized {hooks : PluginHooks} {pathExists : String → Bool}
    {configs : List PluginConfig} {manager : PluginManager}
    (h : (PluginManager.fromConfig hooks pathExists configs).1 = .ok manager)
    (toVec : PluginContext → List UInt8) (ctx : PluginContext) (status : StatusCode) :
    (handlePhases (manager.plugins.map (·.toGatewayPlugin toVec)) ctx (.forwarded status)).1
        ≠ .forwarded status
      ↔ maxWasmPayloadBytes < (toVec ctx).length
        ∧ ∃ plugin ∈ manager.plugins, plugin.runtime = .wasm
          ∧ ∃ phase ∈ [WasmPhase.access, WasmPhase.headerFilter, WasmPhase.bodyFilter],
            phase ∈ plugin.phases := by
  rw [handlePhases_blocked_iff]
  simp only [runPhase_denied_iff, List.mem_map, exists_exists_and_eq_and]
  constructor
  · rintro ⟨phase, hphase, plugin, hplugin, hsupports, hdenied⟩
    obtain ⟨hmem, hwasm, hlength⟩ :=
      (DeclaredPlugin.execute_denied_iff toVec (fromConfig_host h plugin hplugin) phase ctx).mp
        hdenied
    exact ⟨hlength, plugin, hplugin, hwasm, phase, hphase, hmem⟩
  · rintro ⟨hlength, plugin, hplugin, hwasm, phase, hphase, hmem⟩
    refine ⟨phase, hphase, plugin, hplugin, decide_eq_true hmem, ?_⟩
    exact (DeclaredPlugin.execute_denied_iff toVec (fromConfig_host h plugin hplugin) phase ctx).mpr
      ⟨hmem, hwasm, hlength⟩

def wasmFilter : PluginConfig where
  name := "filter"
  module := "m"
  wasmPath := some "m.wasm"
  runtime := "wasm"

/-- What `to_vec` makes of a context in which nothing is escaped. -/
def plainJson (ctx : PluginContext) : List UInt8 :=
  ("\x7b\"route\":\"" ++ ctx.route ++ "\",\"path\":\"" ++ ctx.path ++ "\"\x7d").toUTF8.data.toList

theorem short_context_forwarded :
    ∃ manager, (PluginManager.fromConfig {} (fun _ => true) [wasmFilter]).1 = .ok manager
      ∧ (handlePhases (manager.plugins.map (·.toGatewayPlugin plainJson)) ⟨"orders", "/"⟩
          (.forwarded ⟨200, by decide⟩)).1 = .forwarded ⟨200, by decide⟩ := by
  have hbuilt : (PluginManager.fromConfig {} (fun _ => true) [wasmFilter]).1 = .ok _ := rfl
  have hshort : (plainJson ⟨"orders", "/"⟩).length = 29 := by decide +kernel
  refine ⟨_, hbuilt, not_not.mp ((blocked_iff_oversized hbuilt plainJson _ _).not.mpr ?_)⟩
  rw [hshort]
  exact fun h => absurd h.1 (by decide)

end KongGateway.GatewayCore

import KongGateway.Kong.Runloop.PluginsIterator.Build

/-!
# PluginsIterator — what is visited and collected

The count at index 0 of a phase's table bounds what a loop visits, whatever
an earlier request left behind it. The collecting iterator goes over the
plugins of the workspace that have a configuration for the request; it
stops at those that handle the collecting phase and puts all of them into
the tables of the phases they handle.
-/

namespace KongGateway.Kong.Runloop

variable {γ : Type}

/-! ## Tables of phases -/

/-- The counted part of a table has these plugins with their configurations. -/
structure PhaseTable.Lists (t : PhaseTable γ) (l : List (Plugin × Cfg γ)) : Prop where
  count : t.count = 2 * l.length
  slots : ∀ k e, l[k]? = some e → t.slots.get (2 * k + 1) = some (.plugin e.1)
    ∧ t.slots.get (2 * k + 2) = some (.cfg e.2)

theorem lists_reset (slots : LuaTable Nat (Slot γ)) : PhaseTable.Lists ⟨0, slots⟩ [] := by
  constructor
  · rfl
  · intro k e h
    cases h

theorem PhaseTable.Lists.push {t : PhaseTable γ} {l : List (Plugin × Cfg γ)} (h : t.Lists l)
    (plugin : Plugin) (cfg : Cfg γ) : (t.push plugin cfg).Lists (l ++ [(plugin, cfg)]) := by
  have hcount := h.count
  constructor
  · rw [PhaseTable.push, List.length_append, List.length_singleton]
    dsimp only
    omega
  · intro k e hk
    rw [PhaseTable.push]
    dsimp only
    by_cases hlast : k = l.length
    · subst hlast
      rw [List.getElem?_concat_length] at hk
      obtain rfl := Option.some.inj hk
      have hplugin : t.count + 2 - 1 = 2 * l.length + 1 := by omega
      have hcfg : t.count + 2 = 2 * l.length + 2 := by omega
      rw [hplugin, hcfg]
      constructor
      · exact LuaTable.get_set_self _ _ _
      · rw [LuaTable.get_set_ne _ (by omega)]
        exact LuaTable.get_set_self _ _ _
    · have hlt : k < l.length := by
        have hbound := (List.getElem?_eq_some_iff.mp hk).1
        rw [List.length_append, List.length_singleton] at hbound
        omega
      rw [List.getElem?_append_left hlt] at hk
      obtain ⟨hplugin, hcfg⟩ := h.slots k e hk
      constructor
      · rw [LuaTable.get_set_ne _ (by omega), LuaTable.get_set_ne _ (by omega)]
        exact hplugin
      · rw [LuaTable.get_set_ne _ (by omega), LuaTable.get_set_ne _ (by omega)]
        exact hcfg

/-- What a loop reads of a plugin and its configuration. -/
def entrySlots (e : Plugin × Cfg γ) : Option (Slot γ) × Option (Slot γ) :=
  (some (.plugin e.1), some (.cfg e.2))

theorem PhaseTable.Lists.entriesFrom {t : PhaseTable γ} {l : List (Plugin × Cfg γ)} (h : t.Lists l)
    (k : Nat) : t.entriesFrom (2 * k) = (l.drop k).map entrySlots := by
  have hcount := h.count
  induction hleft : l.length - k generalizing k with
  | zero =>
    have hnext : t.next (2 * k) = none := by
      rw [PhaseTable.next, if_pos (by omega)]
    rw [PhaseTable.entriesFrom, List.drop_eq_nil_of_le (by omega)]
    split
    · rfl
    · rename_i hsome
      rw [hnext] at hsome
      cases hsome
  | succ left ih =>
    have hlt : k < l.length := by omega
    obtain ⟨hplugin, hcfg⟩ := h.slots k l[k] (List.getElem?_eq_getElem hlt)
    have hnext : t.next (2 * k) = some (2 * (k + 1), entrySlots l[k]) := by
      rw [PhaseTable.next, if_neg (by omega)]
      have hindex : 2 * k + 2 - 1 = 2 * k + 1 := by omega
      rw [hindex, hplugin, hcfg]
      rfl
    rw [PhaseTable.entriesFrom, List.drop_eq_getElem_cons hlt, List.map_cons]
    split
    · rename_i hnone
      rw [hnext] at hnone
      cases hnone
    · rename_i hsome
      rw [hnext] at hsome
      cases hsome
      rw [ih (k + 1) (by omega)]

/-! ## The loop over the phases -/

section

variable (node : Node)

theorem nodup_downstreamPhases (subsystem : Subsystem) : subsystem.downstreamPhases.Nodup := by
  cases subsystem <;> decide

theorem phases_foldl {phases : List Phase} (h : phases.Nodup) (plugin : Plugin) (cfg : Cfg γ)
    (c : Collected γ) (phase : Phase) :
    (phases.foldl (fun c phase =>
      if plugin.handler.handles phase then
        { phases := Function.update c.phases phase ((c.phases phase).push plugin cfg)
          bufferedProxying := c.bufferedProxying || phase = .response }
      else c) c).phases phase
      = if phase ∈ phases ∧ plugin.handler.handles phase = true then (c.phases phase).push plugin cfg
        else c.phases phase := by
  induction phases generalizing c with
  | nil => rfl
  | cons first phases ih =>
    rw [List.nodup_cons] at h
    rw [List.foldl_cons, ih h.2]
    by_cases hfirst : phase = first
    · subst hfirst
      rw [if_neg fun hmem => h.1 hmem.1]
      by_cases hhandles : plugin.handler.handles phase = true
      · rw [if_pos hhandles, if_pos ⟨List.mem_cons_self, hhandles⟩]
        exact Function.update_self ..
      · rw [if_neg hhandles, if_neg fun hmem => hhandles hmem.2]
    · have hsame : (if plugin.handler.handles first then
          { phases := Function.update c.phases first ((c.phases first).push plugin cfg)
            bufferedProxying := c.bufferedProxying || first = .response }
        else c).phases phase = c.phases phase := by
        split
        · exact Function.update_of_ne hfirst ..
        · rfl
      rw [hsame]
      simp only [List.mem_cons, hfirst, false_or]

theorem phases_collect (plugin : Plugin) (cfg : Cfg γ) (c : Collected γ) {phase : Phase}
    (h : phase ∈ node.subsystem.downstreamPhases) :
    (collect node plugin cfg c).phases phase
      = if plugin.handler.handles phase = true then (c.phases phase).push plugin cfg
        else c.phases phase := by
  rw [collect, phases_foldl (nodup_downstreamPhases node.subsystem)]
  simp only [h, true_and]

theorem lists_foldl_collect {phase : Phase} (hphase : phase ∈ node.subsystem.downstreamPhases)
    (found : List (Plugin × Cfg γ)) {c : Collected γ} {l : List (Plugin × Cfg γ)}
    (h : (c.phases phase).Lists l) :
    ((found.foldl (fun c e => collect node e.1 e.2 c) c).phases phase).Lists
      (l ++ found.filter fun e => e.1.handler.handles phase) := by
  induction found generalizing c l with
  | nil => rwa [List.filter_nil, List.append_nil]
  | cons e found ih =>
    rw [List.foldl_cons, List.filter_cons]
    have hstep := phases_collect node e.1 e.2 c hphase
    split
    · rename_i hhandles
      rw [if_pos hhandles] at hstep
      have hrest := @ih (collect node e.1 e.2 c) (l ++ [e]) (hstep ▸ h.push e.1 e.2)
      rwa [List.append_assoc, List.singleton_append] at hrest
    · rename_i hhandles
      rw [if_neg hhandles] at hstep
      exact @ih (collect node e.1 e.2 c) l (hstep ▸ h)

/-! ## The plugins of a workspace -/

/-- The configuration of a plugin for a request. -/
def chosen (request : Request) (ws : WsData γ) (plugin : Plugin) : Option (Cfg γ) :=
  (ws.combos.get plugin.name).bind fun combos =>
    loadConfigurationThroughCombos (request.scope plugin) combos plugin

/-- The plugins that have a configuration for a request. -/
def picked (request : Request) (ws : WsData γ) (plugins : List Plugin) : List (Plugin × Cfg γ) :=
  plugins.filterMap fun plugin => (chosen request ws plugin).map fun cfg => (plugin, cfg)

/-- The plugin handles the phase that collects. -/
def collects (e : Plugin × Cfg γ) : Bool := e.1.handler.handles node.subsystem.collectingPhase

def collectAll (c : Collected γ) (found : List (Plugin × Cfg γ)) : Collected γ :=
  found.foldl (fun c e => collect node e.1 e.2 c) c

theorem picked_cons_none {request : Request} {ws : WsData γ} {plugin : Plugin}
    (h : chosen request ws plugin = none) (rest : List Plugin) :
    picked request ws (plugin :: rest) = picked request ws rest := by
  rw [picked, List.filterMap_cons_none (by rw [h]; rfl)]
  rfl

theorem picked_cons_some {request : Request} {ws : WsData γ} {plugin : Plugin} {cfg : Cfg γ}
    (h : chosen request ws plugin = some cfg) (rest : List Plugin) :
    picked request ws (plugin :: rest) = (plugin, cfg) :: picked request ws rest := by
  rw [picked, List.filterMap_cons_some (by rw [h]; rfl)]
  rfl

/-- One step goes on to the next plugin that handles the collecting phase, or to the end. -/
theorem getNextAndCollect_cases (request : Request) (ws : WsData γ) (plugins : List Plugin)
    (c : Collected γ) :
    (getNextAndCollect node request ws plugins c
        = (none, collectAll node c (picked request ws plugins))
      ∧ (picked request ws plugins).filter (collects node) = [])
    ∨ ∃ skipped rest plugin cfg, getNextAndCollect node request ws plugins c
        = (some (rest, plugin, cfg), collectAll node c (skipped ++ [(plugin, cfg)]))
      ∧ picked request ws plugins = skipped ++ (plugin, cfg) :: picked request ws rest
      ∧ skipped.filter (collects node) = [] ∧ collects node (plugin, cfg) = true
      ∧ rest.length < plugins.length := by
  induction plugins generalizing c with
  | nil => exact Or.inl ⟨rfl, rfl⟩
  | cons plugin plugins ih =>
    cases hchosen : chosen request ws plugin with
    | none =>
      have hstep : getNextAndCollect node request ws (plugin :: plugins) c
          = getNextAndCollect node request ws plugins c := by
        rw [getNextAndCollect]
        unfold chosen at hchosen
        rw [hchosen]
      rw [hstep, picked_cons_none hchosen]
      rcases ih c with hend | ⟨skipped, rest, next, cfg, hnext, hpicked, hskipped, hcollects, hlt⟩
      · exact Or.inl hend
      · exact Or.inr ⟨skipped, rest, next, cfg, hnext, hpicked, hskipped, hcollects,
          hlt.trans (Nat.lt_succ_self _)⟩
    | some cfg =>
      have hstep : getNextAndCollect node request ws (plugin :: plugins) c
          = if collects node (plugin, cfg) = true then
              (some (plugins, plugin, cfg), collect node plugin cfg c)
            else getNextAndCollect node request ws plugins (collect node plugin cfg c) := by
        rw [getNextAndCollect]
        unfold chosen at hchosen
        rw [hchosen]
        rfl
      rw [hstep, picked_cons_some hchosen]
      by_cases hcollects : collects node (plugin, cfg) = true
      · rw [if_pos hcollects]
        exact Or.inr ⟨[], plugins, plugin, cfg, rfl, rfl, rfl, hcollects, Nat.lt_succ_self _⟩
      · rw [if_neg hcollects]
        rcases ih (collect node plugin cfg c) with
          ⟨hend, hnone⟩ | ⟨skipped, rest, next, cfg', hnext, hpicked, hskipped, hcollects', hlt⟩
        · exact Or.inl ⟨hend, by rw [List.filter_cons_of_neg hcollects, hnone]⟩
        · refine Or.inr ⟨(plugin, cfg) :: skipped, rest, next, cfg', hnext, ?_, ?_, hcollects',
            hlt.trans (Nat.lt_succ_self _)⟩
          · rw [hpicked]
            rfl
          · rw [List.filter_cons_of_neg hcollects, hskipped]

theorem visit_eq (request : Request) (ws : WsData γ) (plugins : List Plugin) (c : Collected γ) :
    visit node request ws plugins c
      = ((picked request ws plugins).filter (collects node),
          collectAll node c (picked request ws plugins)) := by
  induction hlength : plugins.length using Nat.strong_induction_on generalizing plugins c with
  | _ n ih =>
    rw [visit]
    rcases getNextAndCollect_cases node request ws plugins c with
      ⟨hend, hnone⟩ | ⟨skipped, rest, plugin, cfg, hnext, hpicked, hskipped, hcollects, hlt⟩
    · split
      · rename_i hstep
        rw [hend] at hstep
        cases hstep
        rw [hnone]
      · rename_i hstep
        rw [hend] at hstep
        cases hstep
    · split
      · rename_i hstep
        rw [hnext] at hstep
        cases hstep
      · rename_i hstep
        rw [hnext] at hstep
        cases hstep
        rw [ih _ (hlength ▸ hlt) rest _ rfl, hpicked, List.filter_append, hskipped,
          List.filter_cons_of_pos hcollects]
        simp only [collectAll, List.foldl_append, List.foldl_cons, List.foldl_nil, List.nil_append]

end

end KongGateway.Kong.Runloop

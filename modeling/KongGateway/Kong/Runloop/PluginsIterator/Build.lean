import KongGateway.Kong.Runloop.PluginsIterator.Lookup

/-!
# PluginsIterator — what is built from the rows

After the loop over the rows, each workspace has the configurations of its
rows that are processed, under name and key. The loop over the loaded
plugins then puts those with a configuration in their order.
-/

namespace KongGateway.Kong.Runloop

open Bytes

variable {γ : Type}

/-- The configuration of a row. -/
def PluginRow.cfg (row : PluginRow γ) : Cfg γ :=
  ⟨row.config, row.scope, row.instanceName, row.id, row.wsId⟩

/-- At most one row for a name, route, service, consumer and workspace. -/
def Distinct (rows : List (PluginRow γ)) : Prop :=
  rows.Pairwise fun row row' =>
    ¬ (row.wsId = row'.wsId ∧ row.name = row'.name ∧ row.scope = row'.scope)

/-! ## Adding a configuration -/

/-- The configuration under a name and a key. -/
def WsData.combo (data : WsData γ) (name : String) (key : Text) : Option (Cfg γ) :=
  (data.combos.get name).bind fun combos => combos.get key

/-- The data of a workspace with a configuration added. -/
def WsData.withConfig (data : WsData γ) (row : PluginRow γ) (cfg : Cfg γ) : WsData γ :=
  { data with
    names := data.names.set row.name (some ())
    combos := data.combos.set row.name
      (some (((data.combos.get row.name).getD ∅).set row.scope.key (some cfg))) }

theorem get_addConfig (ws : LuaTable Id (WsData γ)) (row : PluginRow γ) (cfg : Cfg γ) (w : Id) :
    (addConfig ws row cfg).get w
      = if w = row.wsId then some (((ws.get w).getD {}).withConfig row cfg) else ws.get w := by
  rw [addConfig, LuaTable.get_set]
  split
  · rename_i heq
    rw [heq]
    rfl
  · rfl

theorem names_withConfig (data : WsData γ) (row : PluginRow γ) (cfg : Cfg γ) (name : String) :
    ((data.withConfig row cfg).names.get name).isSome = true
      ↔ name = row.name ∨ (data.names.get name).isSome = true := by
  rw [WsData.withConfig, LuaTable.get_set]
  split
  · rename_i heq
    exact iff_of_true rfl (Or.inl heq)
  · rename_i hne
    exact (or_iff_right hne).symm

theorem combo_withConfig (data : WsData γ) (row : PluginRow γ) (cfg : Cfg γ) (name : String)
    (key : Text) :
    (data.withConfig row cfg).combo name key
      = if name = row.name ∧ key = row.scope.key then some cfg else data.combo name key := by
  rw [WsData.combo, WsData.combo, WsData.withConfig, LuaTable.get_set]
  by_cases hname : name = row.name
  · subst hname
    rw [if_pos rfl, Option.bind_some, LuaTable.get_set]
    by_cases hkey : key = row.scope.key
    · rw [if_pos hkey, if_pos ⟨rfl, hkey⟩]
    · rw [if_neg hkey, if_neg fun h => hkey h.2]
      cases data.combos.get row.name with
      | none => exact LuaTable.get_empty key
      | some combos => rfl
  · rw [if_neg hname, if_neg fun h => hname h.1]

/-! ## The loop over the rows -/

section

variable (node : Node)

/-- A row of a workspace and a name that is processed. -/
def Counts (rows : List (PluginRow γ)) (w : Id) (name : String) (row : PluginRow γ) : Prop :=
  row ∈ rows ∧ shouldProcessPlugin node row = true ∧ row.wsId = w ∧ row.name = name

/-- The workspace that has its data from the start. -/
def Node.startWorkspace : Id := node.workspace.getD node.defaultWorkspace

/-- What the data of the workspaces have of the rows. -/
structure Indexed (rows : List (PluginRow γ)) (ws : LuaTable Id (WsData γ)) (hasPlugins : Bool) :
    Prop where
  known : ∀ w, (ws.get w).isSome = true
    ↔ w = node.startWorkspace ∨ ∃ name row, Counts node rows w name row
  names : ∀ w data, ws.get w = some data → ∀ name,
    ((data.names.get name).isSome = true ↔ ∃ row, Counts node rows w name row)
  combos : ∀ w data, ws.get w = some data → ∀ name scope cfg,
    (data.combo name (Scope.key scope) = some cfg
      ↔ ∃ row, Counts node rows w name row ∧ row.scope = scope ∧ row.cfg = cfg)
  plugins : ∀ w data, ws.get w = some data → data.plugins = []
  has : hasPlugins = true ↔ ∃ w name row, Counts node rows w name row

theorem counts_append {rows : List (PluginRow γ)} {row row' : PluginRow γ} {w : Id} {name : String} :
    Counts node (rows ++ [row]) w name row'
      ↔ Counts node rows w name row'
        ∨ row' = row ∧ shouldProcessPlugin node row = true ∧ row.wsId = w ∧ row.name = name := by
  unfold Counts
  rw [List.mem_append, List.mem_singleton]
  constructor
  · rintro ⟨hmem | rfl, hrest⟩
    · exact Or.inl ⟨hmem, hrest⟩
    · exact Or.inr ⟨rfl, hrest⟩
  · rintro (⟨hmem, hrest⟩ | ⟨rfl, hrest⟩)
    · exact ⟨Or.inl hmem, hrest⟩
    · exact ⟨Or.inr rfl, hrest⟩

theorem not_counts_nil {w : Id} {name : String} {row : PluginRow γ} :
    ¬ Counts node [] w name row := fun h => List.not_mem_nil h.1

theorem indexed_start :
    Indexed (γ := γ) node [] ((∅ : LuaTable Id (WsData γ)).set node.startWorkspace (some {})) false := by
  have hget : ∀ w, (LuaTable.set (∅ : LuaTable Id (WsData γ)) node.startWorkspace (some {})).get w
      = if w = node.startWorkspace then some {} else none := by
    intro w
    rw [LuaTable.get_set, LuaTable.get_empty]
  have hdata : ∀ w data, (LuaTable.set (∅ : LuaTable Id (WsData γ)) node.startWorkspace (some {})).get w
      = some data → data = {} := by
    intro w data h
    rw [hget] at h
    split at h
    · exact (Option.some.inj h).symm
    · cases h
  constructor
  · intro w
    rw [hget]
    split
    · rename_i heq
      exact iff_of_true rfl (Or.inl heq)
    · rename_i hne
      refine iff_of_false (by simp) ?_
      rintro (heq | ⟨name, row, hrow⟩)
      · exact hne heq
      · exact not_counts_nil node hrow
  · intro w data h name
    rw [hdata w data h]
    refine iff_of_false (by simp) ?_
    rintro ⟨row, hrow⟩
    exact not_counts_nil node hrow
  · intro w data h name scope cfg
    rw [hdata w data h]
    refine iff_of_false (by simp [WsData.combo]) ?_
    rintro ⟨row, hrow, -⟩
    exact not_counts_nil node hrow
  · intro w data h
    rw [hdata w data h]
  · refine iff_of_false (by decide) ?_
    rintro ⟨w, name, row, hrow⟩
    exact not_counts_nil node hrow

variable {node}

theorem getPluginConfig_of_processed {row : PluginRow γ} (h : shouldProcessPlugin node row = true) :
    getPluginConfig row = some row.cfg := by
  rw [shouldProcessPlugin, Bool.and_eq_true, Bool.and_eq_true] at h
  exact if_pos h.1.2

theorem processRow_of_processed {row : PluginRow γ} (h : shouldProcessPlugin node row = true)
    (b : Building γ) :
    (processRow node row b).ws = addConfig b.ws row row.cfg
      ∧ (processRow node row b).hasPlugins = true := by
  rw [processRow, if_pos h, getPluginConfig_of_processed h]
  exact ⟨rfl, rfl⟩

theorem processRow_of_skipped {row : PluginRow γ} (h : ¬ shouldProcessPlugin node row = true)
    (b : Building γ) : processRow node row b = b := by
  rw [processRow, if_neg h]

theorem Indexed.skip {rows : List (PluginRow γ)} {row : PluginRow γ} {ws : LuaTable Id (WsData γ)}
    {hasPlugins : Bool} (h : Indexed node rows ws hasPlugins)
    (hskip : ¬ shouldProcessPlugin node row = true) : Indexed node (rows ++ [row]) ws hasPlugins := by
  have hcounts : ∀ w name row', Counts node (rows ++ [row]) w name row' ↔ Counts node rows w name row' := by
    intro w name row'
    rw [counts_append]
    exact or_iff_left fun hrow => hskip hrow.2.1
  constructor
  · intro w
    simp only [hcounts]
    exact h.known w
  · intro w data hdata name
    simp only [hcounts]
    exact h.names w data hdata name
  · intro w data hdata name scope cfg
    simp only [hcounts]
    exact h.combos w data hdata name scope cfg
  · exact h.plugins
  · simp only [hcounts]
    exact h.has

theorem get_addConfig_cases {ws : LuaTable Id (WsData γ)} {row : PluginRow γ} {cfg : Cfg γ} {w : Id}
    {data : WsData γ} (h : (addConfig ws row cfg).get w = some data) :
    (w = row.wsId ∧ data = ((ws.get w).getD {}).withConfig row cfg)
      ∨ (w ≠ row.wsId ∧ ws.get w = some data) := by
  rw [get_addConfig] at h
  split at h
  · rename_i heq
    exact Or.inl ⟨heq, (Option.some.inj h).symm⟩
  · rename_i hne
    exact Or.inr ⟨hne, h⟩

theorem Indexed.getD {rows : List (PluginRow γ)} {ws : LuaTable Id (WsData γ)} {hasPlugins : Bool}
    (h : Indexed node rows ws hasPlugins) (w : Id) :
    (∀ name, ((((ws.get w).getD {}).names.get name).isSome = true
        ↔ ∃ row, Counts node rows w name row))
      ∧ (∀ name scope cfg, (((ws.get w).getD {}).combo name (Scope.key scope) = some cfg
        ↔ ∃ row, Counts node rows w name row ∧ row.scope = scope ∧ row.cfg = cfg))
      ∧ ((ws.get w).getD {}).plugins = [] := by
  cases hget : ws.get w with
  | some data => exact ⟨h.names w data hget, h.combos w data hget, h.plugins w data hget⟩
  | none =>
    have hnone : ∀ name row, ¬ Counts node rows w name row := by
      intro name row hrow
      have hknown := (h.known w).mpr (Or.inr ⟨name, row, hrow⟩)
      rw [hget] at hknown
      cases hknown
    refine ⟨?_, ?_, rfl⟩
    · intro name
      refine iff_of_false (by simp) ?_
      rintro ⟨row, hrow⟩
      exact hnone name row hrow
    · intro name scope cfg
      refine iff_of_false (by simp [WsData.combo]) ?_
      rintro ⟨row, hrow, -⟩
      exact hnone name row hrow

theorem Indexed.add {rows : List (PluginRow γ)} {row : PluginRow γ} {ws : LuaTable Id (WsData γ)}
    {hasPlugins : Bool} (h : Indexed node rows ws hasPlugins)
    (hprocess : shouldProcessPlugin node row = true) (hdistinct : Distinct (rows ++ [row])) :
    Indexed node (rows ++ [row]) (addConfig ws row row.cfg) true := by
  have hfresh : ∀ row' ∈ rows, ¬ (row'.wsId = row.wsId ∧ row'.name = row.name ∧ row'.scope = row.scope) :=
    fun row' hmem => (List.pairwise_append.mp hdistinct).2.2 row' hmem row List.mem_cons_self
  have hself : ∀ w name, row.wsId = w → row.name = name → Counts node (rows ++ [row]) w name row :=
    fun w name hw hname => (counts_append node).mpr (Or.inr ⟨rfl, hprocess, hw, hname⟩)
  have hother : ∀ w name row', ¬ (row.wsId = w ∧ row.name = name) →
      (Counts node (rows ++ [row]) w name row' ↔ Counts node rows w name row') := by
    intro w name row' hne
    rw [counts_append]
    exact or_iff_left fun hrow => hne hrow.2.2
  constructor
  · intro w
    rw [get_addConfig]
    by_cases hw : w = row.wsId
    · rw [if_pos hw]
      exact iff_of_true rfl (Or.inr ⟨row.name, row, hself w row.name hw.symm rfl⟩)
    · have hne : ∀ name, ¬ (row.wsId = w ∧ row.name = name) := fun name heq => hw heq.1.symm
      rw [if_neg hw, h.known]
      exact or_congr_right
        (exists_congr fun name => exists_congr fun row' => (hother w name row' (hne name)).symm)
  · intro w data hdata name
    rcases get_addConfig_cases hdata with ⟨rfl, rfl⟩ | ⟨hw, hdata⟩
    · rw [names_withConfig, (h.getD row.wsId).1 name]
      constructor
      · rintro (rfl | ⟨row', hrow'⟩)
        · exact ⟨row, hself _ _ rfl rfl⟩
        · exact ⟨row', (counts_append node).mpr (Or.inl hrow')⟩
      · rintro ⟨row', hrow'⟩
        rcases (counts_append node).mp hrow' with hrow' | ⟨-, -, -, hname⟩
        · exact Or.inr ⟨row', hrow'⟩
        · exact Or.inl hname.symm
    · rw [h.names w data hdata name]
      exact exists_congr fun row' => (hother w name row' fun heq => hw heq.1.symm).symm
  · intro w data hdata name scope cfg
    rcases get_addConfig_cases hdata with ⟨rfl, rfl⟩ | ⟨hw, hdata⟩
    · rw [combo_withConfig]
      by_cases hkey : name = row.name ∧ Scope.key scope = row.scope.key
      · -- the key of this row, which no other row has
        obtain ⟨rfl, hscope⟩ := hkey
        obtain rfl := key_inj hscope
        rw [if_pos ⟨rfl, rfl⟩, Option.some.injEq]
        constructor
        · rintro rfl
          exact ⟨row, hself _ _ rfl rfl, rfl, rfl⟩
        · rintro ⟨row', hrow', hscope', hcfg⟩
          rcases (counts_append node).mp hrow' with ⟨hmem, -, hws, hname⟩ | ⟨rfl, -⟩
          · exact absurd ⟨hws, hname, hscope'⟩ (hfresh row' hmem)
          · exact hcfg
      · rw [if_neg hkey, (h.getD row.wsId).2.1 name scope cfg]
        refine exists_congr fun row' => ?_
        constructor
        · rintro ⟨hrow', hrest⟩
          exact ⟨(counts_append node).mpr (Or.inl hrow'), hrest⟩
        · rintro ⟨hrow', hscope, hcfg⟩
          rcases (counts_append node).mp hrow' with hrow' | ⟨rfl, -, -, hname⟩
          · exact ⟨hrow', hscope, hcfg⟩
          · exact absurd ⟨hname.symm, by rw [hscope]⟩ hkey
    · rw [h.combos w data hdata name scope cfg]
      refine exists_congr fun row' => and_congr_left' ?_
      exact (hother w name row' fun heq => hw heq.1.symm).symm
  · intro w data hdata
    rcases get_addConfig_cases hdata with ⟨rfl, rfl⟩ | ⟨hw, hdata⟩
    · exact (h.getD row.wsId).2.2
    · exact h.plugins w data hdata
  · exact iff_of_true rfl ⟨row.wsId, row.name, row, hself _ _ rfl rfl⟩

theorem Indexed.readRows {version : String} {current : Nat → Except String String}
    {rows rest : List (PluginRow γ)} {b b' : Building γ} (h : Indexed node rows b.ws b.hasPlugins)
    (hdistinct : Distinct (rows ++ rest))
    (hread : readRows node version current (rest.map .ok) b = .ok b') :
    Indexed node (rows ++ rest) b'.ws b'.hasPlugins := by
  induction rest generalizing rows b with
  | nil =>
    cases hread
    rwa [List.append_nil]
  | cons row rest ih =>
    have hsplit : rows ++ row :: rest = (rows ++ [row]) ++ rest := by
      rw [List.append_assoc, List.singleton_append]
    rw [hsplit] at hdistinct ⊢
    have hfirst : Distinct (rows ++ [row]) := (List.pairwise_append.mp hdistinct).1
    rw [List.map_cons, Runloop.readRows] at hread
    split at hread
    · cases hread
    · split at hread
      · cases hread
      · refine ih ?_ hdistinct hread
        by_cases hprocess : shouldProcessPlugin node row = true
        · obtain ⟨hws, hhas⟩ := processRow_of_processed hprocess b
          dsimp only
          rw [hws, hhas]
          exact h.add hprocess hfirst
        · dsimp only
          rw [processRow_of_skipped hprocess]
          exact h.skip hprocess

end

/-! ## Places -/

/-- The loaded plugins that wait for their place, in order, with distinct names. -/
theorem foldl_placePlugin {loaded : List Plugin} (h : (loaded.map Plugin.name).Nodup)
    (data : WsData γ) :
    (loaded.foldl (fun data plugin => placePlugin plugin data) data).plugins
        = data.plugins ++ loaded.filter (fun plugin => (data.names.get plugin.name).isSome)
      ∧ (loaded.foldl (fun data plugin => placePlugin plugin data) data).combos = data.combos := by
  induction loaded generalizing data with
  | nil => exact ⟨(List.append_nil _).symm, rfl⟩
  | cons plugin loaded ih =>
    rw [List.map_cons, List.nodup_cons] at h
    obtain ⟨hfresh, hrest⟩ := h
    obtain ⟨hplugins, hcombos⟩ := ih hrest (placePlugin plugin data)
    have hnames : ∀ other ∈ loaded,
        (placePlugin plugin data).names.get other.name = data.names.get other.name := by
      intro other hother
      have hne : other.name ≠ plugin.name := fun heq => hfresh (heq ▸ List.mem_map_of_mem hother)
      rw [placePlugin]
      split
      · exact LuaTable.get_set_ne data.names hne none
      · rfl
    have hfilter : loaded.filter (fun other => ((placePlugin plugin data).names.get other.name).isSome)
        = loaded.filter fun other => (data.names.get other.name).isSome :=
      List.filter_congr fun other hother => by rw [hnames other hother]
    rw [List.foldl_cons, hplugins, hcombos, hfilter, List.filter_cons, placePlugin]
    constructor
    · split
      · rw [List.append_assoc, List.singleton_append]
      · rfl
    · split
      · rfl
      · rfl

theorem get_foldl_map {κ α β : Type} [DecidableEq κ] (f : β → α → α) (items : List β)
    (t : LuaTable κ α) (k : κ) :
    (items.foldl (fun t item => LuaTable.map (f item) t) t).get k
      = (t.get k).map fun v => items.foldl (fun v item => f item v) v := by
  induction items generalizing t with
  | nil => exact Option.map_id'.symm
  | cons item items ih =>
    rw [List.foldl_cons, ih, LuaTable.get_map, Option.map_map]
    rfl

/-! ## The iterator -/

section

variable {node : Node}

/-- A workspace has a row of this name that is processed. -/
def named (node : Node) (rows : List (PluginRow γ)) (w : Id) (name : String) : Bool :=
  rows.any fun row => shouldProcessPlugin node row && (row.wsId = w && row.name = name)

theorem named_iff {rows : List (PluginRow γ)} {w : Id} {name : String} :
    named node rows w name = true ↔ ∃ row, Counts node rows w name row := by
  simp [named, Counts]

/-- What the iterator has for a workspace. -/
structure Iterates (node : Node) (rows : List (PluginRow γ)) (it : PluginsIterator γ) : Prop where
  known : ∀ w, (it.ws.get w).isSome = true
    ↔ w = node.startWorkspace ∨ ∃ name row, Counts node rows w name row
  plugins : ∀ w data, it.ws.get w = some data →
    data.plugins = node.loaded.filter fun plugin => named node rows w plugin.name
  combos : ∀ w data, it.ws.get w = some data → ∀ name scope cfg,
    (data.combo name (Scope.key scope) = some cfg
      ↔ ∃ row, Counts node rows w name row ∧ row.scope = scope ∧ row.cfg = cfg)

theorem iterates_new {version : String} {current : Nat → Except String String}
    {rows : List (PluginRow γ)} {it : PluginsIterator γ} (hdistinct : Distinct rows)
    (hproxies : node.controlPlane = false)
    (h : PluginsIterator.new node version current (rows.map .ok) = .ok it) : Iterates node rows it := by
  rw [PluginsIterator.new] at h
  dsimp only at h
  rw [if_neg (by rw [hproxies]; exact Bool.false_ne_true)] at h
  split at h
  · cases h
  · rename_i b hread
    have hb : Indexed node rows b.ws b.hasPlugins :=
      @Indexed.readRows γ node version current [] rows _ b (indexed_start node) hdistinct hread
    split at h
    · cases h
      have hget := fun w => get_foldl_map placePlugin node.loaded b.ws w
      constructor
      · intro w
        dsimp only
        rw [hget, Option.isSome_map]
        exact hb.known w
      · intro w data hdata
        dsimp only at hdata
        rw [hget] at hdata
        obtain ⟨before, hbefore, rfl⟩ := Option.map_eq_some_iff.mp hdata
        rw [(foldl_placePlugin node.loaded_nodup before).1, hb.plugins w before hbefore, List.nil_append]
        refine List.filter_congr fun plugin _ => ?_
        rw [Bool.eq_iff_iff, hb.names w before hbefore, named_iff]
      · intro w data hdata name scope cfg
        dsimp only at hdata
        rw [hget] at hdata
        obtain ⟨before, hbefore, rfl⟩ := Option.map_eq_some_iff.mp hdata
        rw [WsData.combo, (foldl_placePlugin node.loaded_nodup before).2]
        exact hb.combos w before hbefore name scope cfg
    · rename_i hhas
      cases h
      refine ⟨hb.known, ?_, hb.combos⟩
      intro w data hdata
      rw [hb.plugins w data hdata, eq_comm, List.filter_eq_nil_iff]
      intro plugin _ hnamed
      obtain ⟨row, hrow⟩ := named_iff.mp hnamed
      exact hhas (hb.has.mpr ⟨w, plugin.name, row, hrow⟩)

end

end KongGateway.Kong.Runloop

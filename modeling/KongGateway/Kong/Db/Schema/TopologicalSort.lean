import KongGateway.Kong.Db.Declarative
import KongGateway.Kong.Db.Utils
import KongGateway.Lib.LuaStd
import Mathlib.Data.Prod.Lex

/-!
# TopologicalSort — one order of schemas

`schema_topological_sort` sorts a copy of the schemas by a comparison
that tells schemas of different names apart, and hands it to the
topological sort. So the order of the input does not count.
-/

namespace KongGateway.Kong.Db.Schema.TopologicalSort

open Bytes LuaStd
open Declarative (Text)
open Utils

def coreEntities : List Text :=
  ["workspaces", "consumers", "certificates", "services", "routes", "snis", "upstreams", "targets",
    "plugins", "tags", "ca_certificates", "clustering_data_planes", "parameters", "vaults",
    "key_sets", "keys", "filter_chains"].map ofText

/-- `CORE_SCORE[name] or 0`. -/
def coreScore (name : Text) : Nat :=
  if name = ofText "workspaces" then 2 else if name ∈ coreEntities then 1 else 0

def sortCoreFirst (a b : Declarative.Schema) : Bool :=
  let sa := coreScore a.name
  let sb := coreScore b.name
  -- reverse alphabetical order: the topological sort puts the first ones last
  if sa = sb then b.name < a.name else sa < sb

/-- `schemas_by_name[name]`: of schemas with one name the last one. -/
def schemaByName (schemas : List Declarative.Schema) (name : Text) : Option Declarative.Schema :=
  schemas.reverse.find? fun s => s.name = name

def getSchemaNeighbors (schemas : List Declarative.Schema) (schema : Declarative.Schema) :
    List Declarative.Schema :=
  schema.fields.filterMap fun field => field.reference.bind (schemaByName schemas)

def schemaTopologicalSort (tables : TableSort) (schemas : List Declarative.Schema) :
    Except Failure (List Declarative.Schema) :=
  topologicalSort (tables.sort sortCoreFirst schemas) (getSchemaNeighbors schemas)

/-! ## The order of the input -/

/-- What `sort_core_first` compares. -/
def sortKey (s : Declarative.Schema) : ℕ ×ₗ Textᵒᵈ := toLex (coreScore s.name, OrderDual.toDual s.name)

theorem sortCoreFirst_iff (a b : Declarative.Schema) :
    sortCoreFirst a b = true ↔ sortKey a < sortKey b := by
  rw [sortKey, sortKey, Prod.Lex.toLex_lt_toLex, sortCoreFirst]
  split
  · rename_i heq
    simp [heq]
  · rename_i hne
    simp [hne]

variable {l l' : List Declarative.Schema}

theorem eq_of_name_eq (hnames : (l.map fun s => s.name).Nodup) {a b : Declarative.Schema}
    (ha : a ∈ l) (hb : b ∈ l) (h : a.name = b.name) : a = b :=
  List.inj_on_of_nodup_map hnames ha hb h

theorem sort_sortCoreFirst (tables : TableSort) (hperm : l.Perm l')
    (hnames : (l.map fun s => s.name).Nodup) :
    tables.sort sortCoreFirst l = tables.sort sortCoreFirst l' := by
  refine sort_eq_of_perm tables sortKey sortCoreFirst_iff hperm fun a ha b hb hkey => ?_
  have hname : a.name = b.name :=
    OrderDual.toDual.injective (Prod.ext_iff.mp (toLex.injective hkey)).2
  exact eq_of_name_eq hnames ha hb hname

theorem schemaByName_eq_some_iff (hnames : (l.map fun s => s.name).Nodup) {name : Text}
    {s : Declarative.Schema} : schemaByName l name = some s ↔ s ∈ l ∧ s.name = name := by
  constructor
  · intro h
    refine ⟨List.mem_reverse.mp (List.mem_of_find?_eq_some h), ?_⟩
    simpa using List.find?_some h
  · rintro ⟨hmem, hname⟩
    cases hfind : schemaByName l name with
    | none =>
      have hno := List.find?_eq_none.mp hfind s (List.mem_reverse.mpr hmem)
      simp [hname] at hno
    | some t =>
      have ht : t ∈ l := List.mem_reverse.mp (List.mem_of_find?_eq_some hfind)
      have htname : t.name = name := by simpa using List.find?_some hfind
      rw [eq_of_name_eq hnames ht hmem (htname.trans hname.symm)]

theorem schemaByName_of_perm (hperm : l.Perm l') (hnames : (l.map fun s => s.name).Nodup) :
    schemaByName l = schemaByName l' := by
  have hnames' := (hperm.map fun s => s.name).nodup_iff.mp hnames
  funext name
  apply Option.ext
  intro s
  rw [schemaByName_eq_some_iff hnames, schemaByName_eq_some_iff hnames', hperm.mem_iff]

theorem schemaTopologicalSort_of_perm (tables : TableSort) (hperm : l.Perm l')
    (hnames : (l.map fun s => s.name).Nodup) :
    schemaTopologicalSort tables l = schemaTopologicalSort tables l' := by
  have hneighbors : getSchemaNeighbors l = getSchemaNeighbors l' := by
    funext schema
    rw [getSchemaNeighbors, getSchemaNeighbors, schemaByName_of_perm hperm hnames]
  rw [schemaTopologicalSort, schemaTopologicalSort, sort_sortCoreFirst tables hperm hnames, hneighbors]

/-- **The sorts.** The topological sort of distinct items fails exactly
if what they refer to has a cycle, and else lists the items, each behind
those that it refers to; and the sort of schemas does not depend on the
order of the input. -/
theorem topologicalSort_exact :
    (∀ (α : Type) [DecidableEq α] (items : List α) (getNeighbors : α → List α), items.Nodup →
      (topologicalSort items getNeighbors = .error cycleDetected ↔ Cyclic items getNeighbors)
      ∧ (¬ Cyclic items getNeighbors →
          ∃ sorted, topologicalSort items getNeighbors = .ok sorted ∧ sorted.Perm items
            ∧ ∀ a ∈ items, ∀ b ∈ getNeighbors a, b ∈ items → sorted.idxOf b < sorted.idxOf a))
    ∧ ∀ (tables : TableSort) (schemas schemas' : List Declarative.Schema),
        schemas.Perm schemas' → (schemas.map fun s => s.name).Nodup →
          schemaTopologicalSort tables schemas = schemaTopologicalSort tables schemas' := by
  refine ⟨fun α _ items getNeighbors hnodup => ?_, fun tables schemas schemas' hperm hnames =>
    schemaTopologicalSort_of_perm tables hperm hnames⟩
  exact ⟨topologicalSort_error_iff items getNeighbors, topologicalSort_sorted hnodup⟩

/-- A schema with one field, which refers to a schema of the given name. -/
def pointingTo (name reference : String) : Declarative.Schema where
  name := ofText name
  primaryKey := [ofText "id"]
  fields := [⟨ofText reference, some (ofText reference), false, false⟩]
  workspaceable := true
  cacheKey := none
  ttl := false

/-- Numbers that refer to smaller ones, and routes with their services. -/
theorem topologicalSort_exact_routes :
    ((topologicalSort [1, 2, 3] (fun n => List.range' 1 (n - 1)) = .error cycleDetected
        ↔ Cyclic [1, 2, 3] fun n => List.range' 1 (n - 1))
      ∧ (¬ Cyclic [1, 2, 3] (fun n => List.range' 1 (n - 1)) →
          ∃ sorted, topologicalSort [1, 2, 3] (fun n => List.range' 1 (n - 1)) = .ok sorted
            ∧ sorted.Perm [1, 2, 3]
            ∧ ∀ a ∈ [1, 2, 3], ∀ b ∈ List.range' 1 (a - 1), b ∈ [1, 2, 3] →
                sorted.idxOf b < sorted.idxOf a))
    ∧ schemaTopologicalSort insertionTable
          [pointingTo "routes" "services", pointingTo "services" "certificates"]
        = schemaTopologicalSort insertionTable
          [pointingTo "services" "certificates", pointingTo "routes" "services"] :=
  ⟨topologicalSort_exact.1 Nat [1, 2, 3] (fun n => List.range' 1 (n - 1)) (by decide),
    topologicalSort_exact.2 insertionTable _ _ (.swap _ _ _) (by decide)⟩

end KongGateway.Kong.Db.Schema.TopologicalSort

import KongGateway.Lib.Run
import KongGateway.Lib.Keyed

/-!
# Sync — configuration sync between control plane and data planes

The control plane writes each entity in a transaction that also takes
the next version from a serial column (`entity_delta_writer`). A data
plane asks for the changes since its version; unless that is the latest
committed one it gets an export of everything, read in one snapshot, and
replaces what it has.

A serial value is handed out at once, whatever becomes of the
transaction; the rows a transaction writes are seen by others when it
commits. Only entities that are exported take part.
-/

namespace KongGateway.Kong.Clustering

/-! ## Versions -/

def verPrefix : String := "v02_"
def verDigits : Nat := 28

/-- The format `%028x`. -/
def hexDigits (n : Nat) : List Char :=
  List.replicate (verDigits - (Nat.toDigits 16 n).length) '0' ++ Nat.toDigits 16 n

def versionString (version : Nat) : String := verPrefix ++ String.ofList (hexDigits version)

def isHexDigit (c : Char) : Bool :=
  ('0' ≤ c && c ≤ '9') || ('a' ≤ c && c ≤ 'f') || ('A' ≤ c && c ≤ 'F')

/-- `is_valid_version`. The signs and blanks that `tonumber` would read
as well are in no version. -/
def isValidVersion (str : String) : Bool :=
  str.length = verPrefix.length + verDigits
    && str.toList.take verPrefix.length = verPrefix.toList
    && (str.toList.drop verPrefix.length).all isHexDigit

/-- `DECLARATIVE_EMPTY_CONFIG_HASH`. -/
def declarativeEmptyConfigHash : String := "00000000000000000000000000000000"

/-! ## The database -/

structure EntityKey where
  type : String
  pk : String
  deriving DecidableEq, Repr

variable {Entity : Type}

/-- What is committed: the entities and the rows of
`clustering_sync_version`; and the last value of its serial column. -/
structure Database (Entity : Type) where
  entities : LuaTable EntityKey Entity
  versions : List Nat
  serial : Nat

/-- A write of an entity, or its deletion. -/
abbrev Write (Entity : Type) := EntityKey × Option Entity

/-- An open transaction, with the version it has taken. -/
structure Txn (Entity : Type) where
  writes : List (Write Entity)
  version : Option Nat

def applyWrites (entities : LuaTable EntityKey Entity) (writes : List (Write Entity)) :
    LuaTable EntityKey Entity :=
  writes.foldl (fun entities write => entities.set write.1 write.2) entities

/-- `SELECT MAX(version)`, where no row counts as 0. -/
def Database.latest (db : Database Entity) : Nat := db.versions.foldr max 0

/-- `get_latest_version`. -/
def getLatestVersion (db : Database Entity) : String := versionString db.latest

structure Delta (Entity : Type) where
  key : EntityKey
  entity : Entity
  version : String

/-- `export_config_sync`: everything that is committed, with the latest
version, in one snapshot. -/
def exportConfigSync (db : Database Entity) : List (Delta Entity) :=
  db.entities.entries.map fun entry => ⟨entry.1, entry.2, getLatestVersion db⟩

/-- Whether `kong.sync.v2.get_delta` answers with a full sync. -/
def needsFullSync (db : Database Entity) (version : String) : Bool :=
  !isValidVersion version || version != getLatestVersion db

/-! ## Data planes -/

/-- Where a data plane is in `do_sync`. -/
inductive Phase (Entity : Type) where
  | idle
  /-- the control plane has been asked for the changes since a version -/
  | asked (version : String)
  /-- the control plane is going to export -/
  | exporting
  | received (deltas : List (Delta Entity))

structure DataPlane (Entity : Type) where
  version : String
  entities : LuaTable EntityKey Entity
  phase : Phase Entity

/-- The deltas of a full sync are stored in one transaction; without
deltas nothing happens. -/
def DataPlane.store (dp : DataPlane Entity) (deltas : List (Delta Entity)) : DataPlane Entity :=
  if deltas.isEmpty then { dp with phase := .idle }
  else
    { version := deltas.foldl
        (fun version delta => if delta.version ≠ version then delta.version else version) dp.version
      entities := deltas.foldl (fun entities delta => entities.set delta.key (some delta.entity)) ∅
      phase := .idle }

/-! ## The whole system -/

structure System (Entity : Type) where
  db : Database Entity
  txns : LuaTable Nat (Txn Entity)
  dataPlanes : Nat → DataPlane Entity

/-- Some entities, and data planes that have never synced. -/
def System.start (entities : LuaTable EntityKey Entity) : System Entity where
  db := ⟨entities, [], 0⟩
  txns := ∅
  dataPlanes := fun _ => ⟨declarativeEmptyConfigHash, ∅, .idle⟩

inductive Input (Entity : Type) where
  | beginTxn (txn : Nat)
  | write (txn : Nat) (write : Write Entity)
  | insertDelta (txn : Nat)
  | commitTxn (txn : Nat)
  | cancelTxn (txn : Nat)
  /-- a data plane sends `get_delta` with its version -/
  | ask (dp : Nat)
  /-- the control plane compares the version -/
  | answer (dp : Nat)
  /-- it exports the configuration, which goes to the data plane -/
  | snapshot (dp : Nat)
  | store (dp : Nat)
  /-- the call fails, or the deltas are rejected -/
  | fail (dp : Nat)

def System.setDataPlane (s : System Entity) (dp : Nat) (f : DataPlane Entity → DataPlane Entity) :
    System Entity :=
  { s with dataPlanes := Function.update s.dataPlanes dp (f (s.dataPlanes dp)) }

/-- One step of the system. An input that is not possible leaves it as
it is. -/
def step (s : System Entity) : Input Entity → System Entity
  | .beginTxn txn =>
    match s.txns.get txn with
    | none => { s with txns := s.txns.set txn (some ⟨[], none⟩) }
    | some _ => s
  | .write txn write =>
    match s.txns.get txn with
    | some ⟨writes, none⟩ => { s with txns := s.txns.set txn (some ⟨writes ++ [write], none⟩) }
    | _ => s
  | .insertDelta txn =>
    match s.txns.get txn with
    | some ⟨writes, none⟩ =>
      { s with
        db := { s.db with serial := s.db.serial + 1 }
        txns := s.txns.set txn (some ⟨writes, some (s.db.serial + 1)⟩) }
    | _ => s
  | .commitTxn txn =>
    match s.txns.get txn with
    | some ⟨writes, some version⟩ =>
      { s with
        db :=
          { s.db with
            entities := applyWrites s.db.entities writes
            versions := version :: s.db.versions }
        txns := s.txns.set txn none }
    | _ => s
  | .cancelTxn txn => { s with txns := s.txns.set txn none }
  | .ask dp => s.setDataPlane dp fun d =>
    match d.phase with
    | .idle => { d with phase := .asked d.version }
    | _ => d
  | .answer dp => s.setDataPlane dp fun d =>
    match d.phase with
    | .asked version =>
      if needsFullSync s.db version then { d with phase := .exporting }
      else { d with phase := .received [] }
    | _ => d
  | .snapshot dp => s.setDataPlane dp fun d =>
    match d.phase with
    | .exporting => { d with phase := .received (exportConfigSync s.db) }
    | _ => d
  | .store dp => s.setDataPlane dp fun d =>
    match d.phase with
    | .received deltas => d.store deltas
    | _ => d
  | .fail dp => s.setDataPlane dp fun d => { d with phase := .idle }

/-- Every transaction has ended. -/
def System.Settled (s : System Entity) : Prop := ∀ txn, s.txns.get txn = none

/-- A data plane has what is committed. -/
def System.InSync (s : System Entity) (dp : Nat) : Prop :=
  ∀ key, (s.dataPlanes dp).entities.get key = s.db.entities.get key

end KongGateway.Kong.Clustering

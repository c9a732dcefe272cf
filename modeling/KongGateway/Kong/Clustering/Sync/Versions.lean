import KongGateway.Kong.Clustering.Sync

/-!
# Versions — what an equal version says about the configuration

A version string stands for one number. While transactions commit in the
order of their versions, a data plane that holds the latest version has
what was committed with it and nothing has been committed since. A
transaction that commits below the latest version breaks this for the
data planes that are at the latest one.
-/

namespace KongGateway.Kong.Clustering

/-! ## Version strings -/

/-- The value of a hexadecimal digit as `%x` writes it. -/
def hexValue (c : Char) : Nat := if c.toNat < 58 then c.toNat - 48 else c.toNat - 87

/-- The number that digits stand for. -/
def readHex (digits : List Char) : Nat := digits.foldl (fun n c => n * 16 + hexValue c) 0

theorem hexValue_digitChar : ∀ n < 16, hexValue (Nat.digitChar n) = n := by decide

theorem readHex_toDigits (n : Nat) : readHex (Nat.toDigits 16 n) = n := by
  induction n using Nat.strongRecOn with
  | ind n ih =>
    rcases Nat.lt_or_ge n 16 with hlt | hge
    · rw [Nat.toDigits_of_lt_base hlt, readHex, List.foldl_cons, List.foldl_nil,
        hexValue_digitChar n hlt]
      omega
    · have hrest := ih (n / 16) (by omega)
      rw [readHex] at hrest
      rw [Nat.toDigits_of_base_le (by decide) hge, readHex, List.foldl_append, hrest,
        List.foldl_cons, List.foldl_nil, hexValue_digitChar _ (Nat.mod_lt n (by decide))]
      omega

theorem readHex_hexDigits (n : Nat) : readHex (hexDigits n) = n := by
  have hzeros : ∀ k, (List.replicate k '0').foldl (fun n c => n * 16 + hexValue c) 0 = 0 := by
    intro k
    induction k with
    | zero => rfl
    | succ k ih =>
      rw [List.replicate_succ, List.foldl_cons]
      exact ih
  have hdigits := readHex_toDigits n
  rw [readHex] at hdigits
  rw [hexDigits, readHex, List.foldl_append, hzeros, hdigits]

theorem versionString_injective : Function.Injective versionString := by
  intro n m heq
  have hdigits : hexDigits n = hexDigits m := by
    have hlist := congrArg String.toList heq
    rw [versionString, versionString, String.toList_append, String.toList_append,
      String.toList_ofList, String.toList_ofList] at hlist
    exact List.append_cancel_left hlist
  rw [← readHex_hexDigits n, hdigits, readHex_hexDigits]

theorem versionString_ne_empty (n : Nat) : declarativeEmptyConfigHash ≠ versionString n := by
  intro heq
  have hhead : (versionString n).toList.head? = some 'v' := by
    rw [versionString, String.toList_append]
    rfl
  rw [← heq] at hhead
  exact absurd hhead (by decide)

/-! ## What a full sync stores -/

variable {Entity : Type}

theorem get_store_entries (entries : List (Sigma fun _ : EntityKey => Entity))
    (hnodup : entries.NodupKeys) (version : String) (table : LuaTable EntityKey Entity)
    (key : EntityKey) :
    ((entries.map fun entry => (⟨entry.1, entry.2, version⟩ : Delta Entity)).foldl
        (fun entities delta => entities.set delta.key (some delta.entity)) table).get key
      = (entries.dlookup key).or (table.get key) := by
  induction entries generalizing table with
  | nil => rfl
  | cons entry rest ih =>
    obtain ⟨k, entity⟩ := entry
    rw [List.nodupKeys_cons] at hnodup
    rw [List.map_cons, List.foldl_cons, ih hnodup.2]
    by_cases hkey : k = key
    · subst hkey
      have hrest : rest.dlookup k = none := List.dlookup_eq_none.mpr hnodup.1
      rw [hrest, List.dlookup_cons_eq, LuaTable.get_set_self]
      rfl
    · rw [List.dlookup_cons_ne _ _ (Ne.symm hkey), LuaTable.get_set_ne _ (Ne.symm hkey)]

theorem get_store_export (db : Database Entity) (dp : DataPlane Entity)
    (hsome : (exportConfigSync db).isEmpty = false) (key : EntityKey) :
    (dp.store (exportConfigSync db)).entities.get key = db.entities.get key := by
  rw [DataPlane.store, hsome]
  simp only [Bool.false_eq_true, if_false]
  rw [exportConfigSync, get_store_entries _ db.entities.nodupKeys, LuaTable.get_empty,
    Option.or_none]
  rfl

theorem foldl_version (deltas : List (Delta Entity)) {version : String}
    (h : ∀ delta ∈ deltas, delta.version = version) (start : String) :
    deltas.foldl (fun v delta => if delta.version ≠ v then delta.version else v) start
      = if deltas.isEmpty then start else version := by
  induction deltas generalizing start with
  | nil => rfl
  | cons delta rest ih =>
    have hdelta := h delta (by simp)
    have hnext : (if delta.version ≠ start then delta.version else start) = version := by
      split
      · exact hdelta
      · rename_i heq
        rw [← hdelta]
        exact (not_not.mp heq).symm
    rw [List.foldl_cons, hnext, ih fun d hd => h d (List.mem_cons_of_mem delta hd)]
    cases rest <;> rfl

theorem version_store_export (db : Database Entity) (dp : DataPlane Entity)
    (hsome : (exportConfigSync db).isEmpty = false) :
    (dp.store (exportConfigSync db)).version = getLatestVersion db := by
  have hversions : ∀ delta ∈ exportConfigSync db, delta.version = getLatestVersion db := by
    intro delta hdelta
    obtain ⟨entry, -, rfl⟩ := List.mem_map.mp hdelta
    rfl
  rw [DataPlane.store, hsome]
  simp only [Bool.false_eq_true, if_false]
  rw [foldl_version _ hversions, hsome]
  rfl

/-! ## The invariant -/

/-- A data plane that has not synced, or has the configuration of a
committed version; if that is the latest, what is committed. -/
def Follows (db : Database Entity) (dp : DataPlane Entity) : Prop :=
  dp.version = declarativeEmptyConfigHash
    ∨ ∃ version, dp.version = versionString version ∧ version ≤ db.latest
      ∧ (version = db.latest → ∀ key, dp.entities.get key = db.entities.get key)

/-- The data plane, and what it will be with the deltas it has
received. -/
structure Tracks (db : Database Entity) (dp : DataPlane Entity) : Prop where
  follows : Follows db dp
  received : ∀ deltas, dp.phase = .received deltas → Follows db (dp.store deltas)

theorem follows_export (db : Database Entity) {dp : DataPlane Entity} (h : Follows db dp) :
    Follows db (dp.store (exportConfigSync db)) := by
  cases hsome : (exportConfigSync db).isEmpty with
  | true =>
    rw [List.isEmpty_iff.mp hsome]
    exact h
  | false =>
    exact .inr ⟨db.latest, version_store_export db dp hsome, Nat.le_refl _,
      fun _ => get_store_export db dp hsome⟩

theorem Tracks.phase {db : Database Entity} {dp : DataPlane Entity} (h : Tracks db dp)
    {phase : Phase Entity}
    (hphase : ∀ deltas, phase = .received deltas → Follows db (dp.store deltas)) :
    Tracks db { dp with phase := phase } := ⟨h.follows, hphase⟩

theorem Follows.tracks {db : Database Entity} {dp : DataPlane Entity} (h : Follows db dp)
    (hidle : dp.phase = .idle) : Tracks db dp := by
  refine ⟨h, fun deltas hdeltas => ?_⟩
  rw [hidle] at hdeltas
  cases hdeltas

theorem store_phase (dp : DataPlane Entity) (deltas : List (Delta Entity)) :
    (dp.store deltas).phase = .idle := by
  rw [DataPlane.store]
  split <;> rfl

/-! ## Commits -/

/-- The data plane is at the latest version, or will be with the deltas
it has received. -/
def AtLatest (db : Database Entity) (dp : DataPlane Entity) : Prop :=
  dp.version = getLatestVersion db
    ∨ ∃ deltas, dp.phase = .received deltas ∧ (dp.store deltas).version = getLatestVersion db

/-- A transaction commits above the latest version, or no data plane is
at the latest version, or nothing changes. -/
def CommitsInOrder (s : System Entity) : Input Entity → Prop
  | .commitTxn txn => ∀ writes version, s.txns.get txn = some ⟨writes, some version⟩ →
      s.db.latest < version ∨ (∀ dp, ¬ AtLatest s.db (s.dataPlanes dp))
        ∨ ∀ key, (applyWrites s.db.entities writes).get key = s.db.entities.get key
  | _ => True

section Commit

variable {db : Database Entity} {dp : DataPlane Entity} {entities : LuaTable EntityKey Entity}
  {version : Nat}

theorem latest_cons (db : Database Entity) (entities : LuaTable EntityKey Entity) (version : Nat) :
    ({ db with entities := entities, versions := version :: db.versions } : Database Entity).latest
      = max version db.latest := rfl

/-- A data plane that is not at the latest version, or sees nothing
change, follows through a commit. -/
theorem Follows.commit (h : Follows db dp)
    (horder : db.latest < version ∨ dp.version ≠ getLatestVersion db
      ∨ ∀ key, entities.get key = db.entities.get key) :
    Follows { db with entities := entities, versions := version :: db.versions } dp := by
  rcases h with hempty | ⟨held, hheld, hle, hsame⟩
  · exact .inl hempty
  · refine .inr ⟨held, hheld, ?_, ?_⟩
    · rw [latest_cons]
      omega
    · rw [latest_cons]
      intro hlatest key
      rcases horder with habove | hbehind | hunchanged
      · omega
      · have hnot : held ≠ db.latest := by
          intro heq
          rw [hheld, heq] at hbehind
          exact hbehind rfl
        omega
      · rw [hunchanged key]
        exact hsame (by omega) key

theorem Tracks.commit (h : Tracks db dp)
    (horder : db.latest < version ∨ ¬ AtLatest db dp
      ∨ ∀ key, entities.get key = db.entities.get key) :
    Tracks { db with entities := entities, versions := version :: db.versions } dp where
  follows := by
    refine h.follows.commit ?_
    rcases horder with habove | hbehind | hunchanged
    · exact .inl habove
    · exact .inr (.inl fun heq => hbehind (.inl heq))
    · exact .inr (.inr hunchanged)
  received := by
    intro deltas hdeltas
    refine (h.received deltas hdeltas).commit ?_
    rcases horder with habove | hbehind | hunchanged
    · exact .inl habove
    · exact .inr (.inl fun heq => hbehind (.inr ⟨deltas, hdeltas, heq⟩))
    · exact .inr (.inr hunchanged)

end Commit

/-! ## Runs -/

def AllTrack (s : System Entity) : Prop := ∀ dp, Tracks s.db (s.dataPlanes dp)

theorem allTrack_start (entities : LuaTable EntityKey Entity) : AllTrack (System.start entities) :=
  fun _ => Follows.tracks (.inl rfl) rfl

theorem AllTrack.setDataPlane {s : System Entity} (h : AllTrack s) {dp : Nat}
    {f : DataPlane Entity → DataPlane Entity} (hf : Tracks s.db (f (s.dataPlanes dp))) :
    AllTrack (s.setDataPlane dp f) := by
  intro other
  show Tracks s.db (Function.update s.dataPlanes dp (f (s.dataPlanes dp)) other)
  by_cases heq : other = dp
  · rw [heq, Function.update_self]
    exact hf
  · rw [Function.update_of_ne heq]
    exact h other

theorem AllTrack.step {s : System Entity} (h : AllTrack s) (input : Input Entity)
    (horder : CommitsInOrder s input) : AllTrack (step s input) := by
  cases input with
  | beginTxn txn =>
    rw [Clustering.step]
    split
    · exact h
    · exact h
  | write txn write =>
    rw [Clustering.step]
    split
    · exact h
    · exact h
  | insertDelta txn =>
    rw [Clustering.step]
    split
    · exact fun dp => ⟨(h dp).follows, (h dp).received⟩
    · exact h
  | commitTxn txn =>
    rw [Clustering.step]
    split
    · rename_i writes version htxn
      intro dp
      refine (h dp).commit ?_
      rcases horder writes version htxn with habove | hbehind | hunchanged
      · exact .inl habove
      · exact .inr (.inl (hbehind dp))
      · exact .inr (.inr hunchanged)
    · exact h
  | cancelTxn txn => exact h
  | ask dp =>
    rw [Clustering.step]
    refine h.setDataPlane ?_
    split
    · exact (h dp).phase fun deltas hdeltas => by cases hdeltas
    · exact h dp
  | answer dp =>
    rw [Clustering.step]
    refine h.setDataPlane ?_
    split
    · split
      · exact (h dp).phase fun deltas hdeltas => by cases hdeltas
      · refine (h dp).phase fun deltas hdeltas => ?_
        obtain rfl := Phase.received.inj hdeltas
        exact (h dp).follows
    · exact h dp
  | snapshot dp =>
    rw [Clustering.step]
    refine h.setDataPlane ?_
    split
    · refine (h dp).phase fun deltas hdeltas => ?_
      obtain rfl := Phase.received.inj hdeltas
      exact follows_export s.db (h dp).follows
    · exact h dp
  | store dp =>
    rw [Clustering.step]
    refine h.setDataPlane ?_
    split
    · rename_i deltas hdeltas
      exact ((h dp).received deltas hdeltas).tracks (store_phase _ _)
    · exact h dp
  | fail dp =>
    rw [Clustering.step]
    exact h.setDataPlane ((h dp).phase fun deltas hdeltas => by cases hdeltas)

/-- In every run whose transactions commit in order, a data plane that
holds the latest version has what is committed, so that an answer
without a full sync is right. -/
theorem equal_version_means_in_sync (entities : LuaTable EntityKey Entity)
    (inputs : List (Input Entity))
    (hrun : Run.Guarded step CommitsInOrder (System.start entities) inputs) :
    let s := Run.exec step (System.start entities) inputs
    s.Settled → ∀ dp, ((s.dataPlanes dp).version = getLatestVersion s.db → s.InSync dp)
      ∧ (needsFullSync s.db (s.dataPlanes dp).version = false → s.InSync dp) := by
  intro s _ dp
  have hinv : AllTrack s :=
    hrun.invariant (fun s input h horder => h.step input horder) (allTrack_start entities)
  have hequal : (s.dataPlanes dp).version = getLatestVersion s.db → s.InSync dp := by
    intro hlatest
    rcases (hinv dp).follows with hempty | ⟨version, hversion, -, hsame⟩
    · exact absurd (hempty.symm.trans hlatest) (versionString_ne_empty _)
    · exact hsame (versionString_injective (hversion.symm.trans hlatest))
  refine ⟨hequal, fun hanswer => hequal ?_⟩
  rw [needsFullSync, Bool.or_eq_false_iff] at hanswer
  simpa using hanswer.2

/-! ### Two transactions -/

def service : EntityKey := ⟨"services", "1"⟩
def route : EntityKey := ⟨"routes", "1"⟩

/-- A transaction of the control plane up to its version. -/
def writeTxn (txn : Nat) (key : EntityKey) : List (Input String) :=
  [.beginTxn txn, .write txn (key, some key.pk), .insertDelta txn]

/-- A sync of a data plane. -/
def syncOnce (dp : Nat) : List (Input String) := [.ask dp, .answer dp, .snapshot dp, .store dp]

/-- Both have taken a version when the data plane syncs: the later one
is committed, the earlier one is not yet. -/
def overlapping : List (Input String) :=
  writeTxn 1 service ++ writeTxn 2 route ++ [.commitTxn 2] ++ syncOnce 0 ++ [.commitTxn 1]

/-- One after the other. -/
def consecutive : List (Input String) :=
  writeTxn 1 service ++ [.commitTxn 1] ++ writeTxn 2 route ++ [.commitTxn 2] ++ syncOnce 0

/-- The data plane holds the latest version and never gets the
service. -/
theorem overlapping_commits_lose_entity :
    let s := Run.exec step (System.start ∅) overlapping
    s.Settled ∧ (s.dataPlanes 0).version = getLatestVersion s.db
      ∧ needsFullSync s.db (s.dataPlanes 0).version = false ∧ ¬ s.InSync 0 := by
  refine ⟨fun txn => rfl, by decide, by decide, fun hsync => ?_⟩
  exact absurd (hsync service) (by decide)

theorem consecutive_commits_in_sync :
    let s := Run.exec step (System.start ∅) consecutive
    (s.dataPlanes 0).version = getLatestVersion s.db ∧ s.InSync 0 := by
  have hlatest : ((Run.exec step (System.start ∅) consecutive).dataPlanes 0).version
      = getLatestVersion (Run.exec step (System.start ∅) consecutive).db := by decide
  refine ⟨hlatest, (equal_version_means_in_sync ∅ consecutive ?_ (fun txn => rfl) 0).1 hlatest⟩
  refine ⟨trivial, trivial, trivial, ?_, trivial, trivial, trivial, ?_, trivial, trivial, trivial,
    trivial, trivial⟩
  · intro writes version htxn
    refine .inl ?_
    cases htxn
    decide
  · intro writes version htxn
    refine .inl ?_
    cases htxn
    decide

end KongGateway.Kong.Clustering

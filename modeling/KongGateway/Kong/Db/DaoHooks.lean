import KongGateway.Kong.Db.Dao

/-!
# DaoHooks — every `:pre` is followed by `:post` or `:fail`, or not

`Ending` lists how a call can end: before its `:pre` hook, refused by
it, ended by one of `:post` and `:fail`, or left open. `runCall_ending`
says which calls end how, and what follows is read off the four cases,
for any hooks and for the hooks of the configuration sync, whose `:pre`
opens a database transaction.
-/

namespace KongGateway.Kong.Db

section

variable {σ E R T : Type}

/-! ## Balanced hooks -/

/-- Whether the operation takes the result of its `:pre` hook as a
success. -/
def preSucceeded (op : Op) (result : HookResult E T) : Bool :=
  if op = .delete then result.errT.isNone else result.value.isSome

def Event.ends (op : Op) : Event E T → Bool
  | .hook op' .post _ => op' = op
  | .hook op' .fail _ => op' = op
  | _ => false

/-- A `:pre` hook that succeeded is followed by exactly one `:post` or
`:fail`. -/
def Balanced (op : Op) : List (Event E T) → Prop
  | [] => True
  | .hook op' .pre result :: rest =>
    if op' = op ∧ preSucceeded op result then rest.countP (Event.ends op) = 1
    else Balanced op rest
  | _ :: rest => Balanced op rest

section

variable [ToString T] (hooks : Hooks σ E T) (name : String) (state : σ)

/-- The result of a `:pre` hook run on the state before the call. -/
def preResult (op : Op) (a0 : Val E T) : HookResult E T × σ :=
  callHooks (hooks op .pre) (some a0) none name state

/-- The calls that leave without a hook after a `:pre` that succeeded:
an `upsert` whose write or `row_to_entity` fails, and an `update_by`
whose `row_to_entity` fails. -/
def MissesFail : Call E R T → Prop
  | .upsert steps =>
    steps.types = .ok () ∧ steps.key = .ok ()
      ∧ (∃ e rbw, steps.check = .ok (e, rbw)
        ∧ preSucceeded .upsert (preResult hooks name state .upsert (.entity e)).1 = true)
      ∧ ((∃ errT, steps.write = .error errT)
        ∨ ∃ row err, steps.write = .ok row ∧ steps.rowToEntity row = .error err)
  | .updateBy uniqueValue steps =>
    steps.types = .ok () ∧ steps.key = .ok () ∧ steps.entityType = .ok ()
      ∧ preSucceeded .updateBy (preResult hooks name state .updateBy (.unique uniqueValue)).1 = true
      ∧ (∃ checked, steps.check = .ok checked)
      ∧ ∃ row err, steps.write = .ok row ∧ steps.rowToEntity row = .error err
  | _ => False

/-- How a call can end, and whether it left the hooks open. -/
inductive Ending (op : Op) : Prop → Run σ E T → Prop where
  | early {missed : Prop} (h : ¬ missed) : Ending op missed ⟨state, []⟩
  | refused {missed : Prop} (h : ¬ missed) (a0 : Val E T)
      (hpre : preSucceeded op (preResult hooks name state op a0).1 = false) :
      Ending op missed
        ⟨(preResult hooks name state op a0).2, [.hook op .pre (preResult hooks name state op a0).1]⟩
  | ended {missed : Prop} (h : ¬ missed) (a0 : Val E T) (phase : Phase) (b0 b1 : Option (Val E T))
      (cruds : List CrudEvent)
      (hpre : preSucceeded op (preResult hooks name state op a0).1 = true) (hphase : phase ≠ .pre) :
      Ending op missed
        (let pre := preResult hooks name state op a0
         let last := callHooks (hooks op phase) b0 b1 name pre.2
         ⟨last.2, .hook op .pre pre.1 :: .hook op phase last.1 :: cruds.map .crud⟩)
  | leftOpen {missed : Prop} (h : missed) (a0 : Val E T)
      (hpre : preSucceeded op (preResult hooks name state op a0).1 = true) :
      Ending op missed
        ⟨(preResult hooks name state op a0).2, [.hook op .pre (preResult hooks name state op a0).1]⟩

/-- The run right after a `:pre` hook. -/
def afterPre (op : Op) (a0 : Val E T) : Run σ E T :=
  (runHook hooks op .pre (some a0) none name ⟨state, []⟩).2

variable {hooks name state} {steps : Steps E R T}

/-! ## How calls end -/

variable {op : Op} {missed : Prop} {a0 : Val E T}

theorem endWrite_ending (hmissed : ¬ missed)
    (hpre : preSucceeded op (preResult hooks name state op a0).1 = true) (row : E)
    (event : CrudEvent) :
    Ending hooks name state op missed
      (endWrite hooks name op row event (afterPre hooks name state op a0)).2 := by
  simp only [endWrite, runHook]
  split
  · exact .ended hmissed a0 .post _ _ [] hpre (by decide)
  · exact .ended hmissed a0 .post _ _ [event] hpre (by decide)

theorem writeRow_ending (hmissed : ¬ missed)
    (hpre : preSucceeded op (preResult hooks name state op a0).1 = true) (entity : E)
    (rowErr : String → T → Val E T) (event : CrudEvent) :
    Ending hooks name state op missed
      (writeRow hooks name steps op entity rowErr event (afterPre hooks name state op a0)).2 := by
  rw [writeRow.eq_def]
  cases steps.write with
  | error errT => exact .ended hmissed a0 .fail _ _ [] hpre (by decide)
  | ok row =>
    dsimp only
    cases steps.rowToEntity row with
    | error err => exact .ended hmissed a0 .fail _ _ [] hpre (by decide)
    | ok row => exact endWrite_ending hmissed hpre row event

theorem deleteRow_ending (hmissed : ¬ missed)
    (hpre : preSucceeded op (preResult hooks name state op a0).1 = true) (entity : E) :
    Ending hooks name state op missed
      (deleteRow hooks name steps op entity (afterPre hooks name state op a0)).2 := by
  rw [deleteRow.eq_def]
  cases steps.delete with
  | error errT => exact .ended hmissed a0 .fail _ _ [] hpre (by decide)
  | ok affected =>
    cases affected with
    | false => exact .ended hmissed a0 .post _ _ [] hpre (by decide)
    | true =>
      simp only [runHook]
      split
      · exact .ended hmissed a0 .post _ _ [] hpre (by decide)
      · exact .ended hmissed a0 .post _ _ [.delete] hpre (by decide)

theorem insert_ending (entity : E) :
    Ending hooks name state .insert False (insert hooks name steps entity ⟨state, []⟩).2 := by
  rw [insert.eq_def]
  cases steps.types with
  | error err => exact .early id
  | ok =>
  cases steps.check with
  | error err => exact .early id
  | ok checked =>
  simp only [runHook]
  split
  · rename_i hvalue
    exact .refused id (.entity entity) (by simp [preSucceeded, preResult, hvalue])
  · rename_i hvalue
    exact writeRow_ending id (by simp [preSucceeded, preResult, hvalue]) entity _ _

theorem update_ending :
    Ending hooks name state .update False (update hooks name steps ⟨state, []⟩).2 := by
  rw [update.eq_def]
  cases steps.types with
  | error err => exact .early id
  | ok =>
  cases steps.key with
  | error err => exact .early id
  | ok =>
  cases steps.check with
  | error err => exact .early id
  | ok checked =>
  simp only [runHook]
  split
  · rename_i hvalue
    exact .refused id (.entity checked.1) (by simp [preSucceeded, preResult, hvalue])
  · rename_i hvalue
    exact writeRow_ending id (by simp [preSucceeded, preResult, hvalue]) checked.1 _ _

theorem upsertBy_ending :
    Ending hooks name state .upsertBy False (upsertBy hooks name steps ⟨state, []⟩).2 := by
  rw [upsertBy.eq_def]
  cases steps.types with
  | error err => exact .early id
  | ok =>
  cases steps.key with
  | error err => exact .early id
  | ok =>
  cases steps.entityType with
  | error err => exact .early id
  | ok =>
  cases steps.check with
  | error err => exact .early id
  | ok checked =>
  simp only [runHook]
  split
  · rename_i hvalue
    exact .refused id (.entity checked.1) (by simp [preSucceeded, preResult, hvalue])
  · rename_i hvalue
    exact writeRow_ending id (by simp [preSucceeded, preResult, hvalue]) checked.1 _ _

theorem delete_ending :
    Ending hooks name state .delete False (delete hooks name steps ⟨state, []⟩).2 := by
  rw [delete.eq_def]
  cases steps.types with
  | error err => exact .early id
  | ok =>
  cases steps.key with
  | error err => exact .early id
  | ok =>
  cases steps.select with
  | error err => exact .early id
  | ok selected =>
  cases selected with
  | none => exact .early id
  | some entity =>
  cases steps.options with
  | error err => exact .early id
  | ok =>
  simp only [runHook]
  split
  · rename_i herr
    exact .refused id (.entity entity) (by simp [preSucceeded, preResult, herr])
  · rename_i herr
    exact deleteRow_ending id (by simp [preSucceeded, preResult, herr]) entity

theorem deleteBy_ending :
    Ending hooks name state .deleteBy False (deleteBy hooks name steps ⟨state, []⟩).2 := by
  rw [deleteBy.eq_def]
  cases steps.types with
  | error err => exact .early id
  | ok =>
  cases steps.key with
  | error err => exact .early id
  | ok =>
  cases steps.select with
  | error err => exact .early id
  | ok selected =>
  cases selected with
  | none => exact .early id
  | some entity =>
  simp only [runHook]
  split
  · rename_i hvalue
    exact .refused id (.entity entity) (by simp [preSucceeded, preResult, hvalue])
  · rename_i hvalue
    exact deleteRow_ending id (by simp [preSucceeded, preResult, hvalue]) entity

theorem upsert_ending :
    Ending hooks name state .upsert (MissesFail hooks name state (.upsert steps))
      (upsert hooks name steps ⟨state, []⟩).2 := by
  rw [upsert.eq_def]
  cases htypes : steps.types with
  | error err => exact .early (by simp [MissesFail, htypes])
  | ok =>
  cases hkey : steps.key with
  | error err => exact .early (by simp [MissesFail, hkey])
  | ok =>
  cases hcheck : steps.check with
  | error err => exact .early (by simp [MissesFail, hcheck])
  | ok checked =>
  simp only [runHook]
  split
  · rename_i hvalue
    refine .refused ?_ (.entity checked.1) (by simp [preSucceeded, preResult, hvalue])
    rintro ⟨-, -, ⟨e, rbw, hcheck', hpre⟩, -⟩
    obtain rfl : checked = (e, rbw) := Except.ok.inj (hcheck.symm.trans hcheck')
    simp [preSucceeded, preResult, hvalue] at hpre
  · rename_i hvalue
    have hpre : preSucceeded .upsert
        (preResult hooks name state .upsert (.entity checked.1)).1 = true := by
      simp [preSucceeded, preResult, hvalue]
    cases hwrite : steps.write with
    | error errT =>
      exact .leftOpen ⟨htypes, hkey, ⟨checked.1, checked.2, hcheck, hpre⟩, .inl ⟨errT, hwrite⟩⟩
        (.entity checked.1) hpre
    | ok row =>
      dsimp only
      cases hrow : steps.rowToEntity row with
      | error err =>
        exact .leftOpen
          ⟨htypes, hkey, ⟨checked.1, checked.2, hcheck, hpre⟩, .inr ⟨row, err, hwrite, hrow⟩⟩
          (.entity checked.1) hpre
      | ok entity => exact endWrite_ending (by simp [MissesFail, hwrite, hrow]) hpre entity _

theorem updateBy_ending (uniqueValue : String) :
    Ending hooks name state .updateBy (MissesFail hooks name state (.updateBy uniqueValue steps))
      (updateBy hooks name steps uniqueValue ⟨state, []⟩).2 := by
  rw [updateBy.eq_def]
  cases htypes : steps.types with
  | error err => exact .early (by simp [MissesFail, htypes])
  | ok =>
  cases hkey : steps.key with
  | error err => exact .early (by simp [MissesFail, hkey])
  | ok =>
  cases hentity : steps.entityType with
  | error err => exact .early (by simp [MissesFail, hentity])
  | ok =>
  simp only [runHook]
  split
  · rename_i hvalue
    exact .refused (by simp [MissesFail, preSucceeded, preResult, hvalue]) (.unique uniqueValue)
      (by simp [preSucceeded, preResult, hvalue])
  · rename_i hvalue
    have hpre : preSucceeded .updateBy
        (preResult hooks name state .updateBy (.unique uniqueValue)).1 = true := by
      simp [preSucceeded, preResult, hvalue]
    cases hcheck : steps.check with
    | error err =>
      exact .ended (by simp [MissesFail, hcheck]) (.unique uniqueValue) .fail _ _ [] hpre
        (by decide)
    | ok checked =>
    cases hwrite : steps.write with
    | error errT =>
      exact .ended (by simp [MissesFail, hwrite]) (.unique uniqueValue) .fail _ _ [] hpre
        (by decide)
    | ok row =>
      dsimp only
      cases hrow : steps.rowToEntity row with
      | error err =>
        exact .leftOpen
          ⟨htypes, hkey, hentity, hpre, ⟨checked, hcheck⟩, row, err, hwrite, hrow⟩
          (.unique uniqueValue) hpre
      | ok entity => exact endWrite_ending (by simp [MissesFail, hwrite, hrow]) hpre entity _

/-- Every call ends in one of the four ways, and only the calls that
miss `:fail` are left open. -/
theorem runCall_ending (call : Call E R T) :
    Ending hooks name state call.op (MissesFail hooks name state call)
      (runCall hooks name call ⟨state, []⟩).2 := by
  cases call with
  | insert entity steps => exact insert_ending entity
  | update steps => exact update_ending
  | upsert steps => exact upsert_ending
  | delete steps => exact delete_ending
  | updateBy uniqueValue steps => exact updateBy_ending uniqueValue
  | upsertBy steps => exact upsertBy_ending
  | deleteBy steps => exact deleteBy_ending

omit [ToString T] in
theorem countP_ends_crud (op : Op) (cruds : List CrudEvent) :
    (cruds.map (Event.crud : CrudEvent → Event E T)).countP (Event.ends op) = 0 := by
  rw [List.countP_eq_zero]
  intro event hevent
  obtain ⟨crud, -, rfl⟩ := List.mem_map.mp hevent
  simp [Event.ends]

omit [ToString T] in
theorem balanced_iff_of_ending {run : Run σ E T} (h : Ending hooks name state op missed run) :
    Balanced op run.events ↔ ¬ missed := by
  cases h with
  | early hmissed => simp [Balanced, hmissed]
  | refused hmissed a0 hpre => simp [Balanced, hpre, hmissed]
  | leftOpen hmissed a0 hpre => simp [Balanced, hpre, hmissed]
  | ended hmissed a0 phase b0 b1 cruds hpre hphase =>
    have hend : ∀ result : HookResult E T, Event.ends op (.hook op phase result) = true := by
      intro result
      cases phase with
      | pre => exact absurd rfl hphase
      | post => simp [Event.ends]
      | fail => simp [Event.ends]
    rw [Balanced, if_pos ⟨rfl, hpre⟩, List.countP_cons_of_pos (hend _), countP_ends_crud]
    simp [hmissed]

end

end

/-! ## The hooks of the configuration sync -/

/-- The calls on the connection, with whether they succeeded. -/
inductive TxnEvent where
  | beginTxn (ok : Bool)
  | insertDelta (ok : Bool)
  | commitTxn (ok : Bool)
  | cancelTxn (ok : Bool)
  deriving DecidableEq, Repr

/-- The strategy of the sync, over a database state. -/
structure SyncStrategy (ρ T : Type) where
  beginTxn : ρ → Except T Unit × ρ
  insertDelta : ρ → Except T Unit × ρ
  commitTxn : ρ → Except T Unit × ρ
  cancelTxn : ρ → Except T Unit × ρ

/-- The database and the calls made on the connection. -/
abbrev Connection (ρ : Type) := ρ × List TxnEvent

section Sync

variable {ρ E R T : Type} (strategy : SyncStrategy ρ T) (dbExport : String → Bool)

/-- One call on the connection. -/
def connectionCall (f : ρ → Except T Unit × ρ) (event : Bool → TxnEvent) (c : Connection ρ) :
    Except T Unit × Connection ρ :=
  let (res, db) := f c.1
  (res, db, c.2 ++ [event res.isOk])

/-- `pre_hook_func`. -/
def preHookFunc : HookFn (Connection ρ) E T := fun _ _ name c =>
  if !dbExport name then (⟨some .yes, none⟩, c)
  else
    match connectionCall strategy.beginTxn .beginTxn c with
    | (.ok (), c) => (⟨some .yes, none⟩, c)
    | (.error err, c) => (⟨none, some err⟩, c)

/-- `fail_hook_func`. -/
def failHookFunc : HookFn (Connection ρ) E T := fun _ _ name c =>
  if !dbExport name then (⟨none, none⟩, c)
  else (⟨none, none⟩, (connectionCall strategy.cancelTxn .cancelTxn c).2)

/-- `entity_delta_writer`. -/
def entityDeltaWriter (entity : Option (Val E T)) (c : Connection ρ) :
    HookResult E T × Connection ρ :=
  match connectionCall strategy.insertDelta .insertDelta c with
  | (.error err, c) => (⟨none, some err⟩, (connectionCall strategy.cancelTxn .cancelTxn c).2)
  | (.ok (), c) =>
    match connectionCall strategy.commitTxn .commitTxn c with
    | (.error err, c) => (⟨none, some err⟩, (connectionCall strategy.cancelTxn .cancelTxn c).2)
    | (.ok (), c) => (⟨entity, none⟩, c)

/-- `post_hook_writer_func` and `post_hook_delete_func`. -/
def postHookFunc : HookFn (Connection ρ) E T := fun entity _ name c =>
  if !dbExport name then (⟨entity, none⟩, c) else entityDeltaWriter strategy entity c

/-- `register_dao_hooks`. -/
def syncHooks : Hooks (Connection ρ) E T := fun _ phase =>
  match phase with
  | .pre => [preHookFunc strategy dbExport]
  | .fail => [failHookFunc strategy dbExport]
  | .post => [postHookFunc strategy dbExport]

/-- What ends a transaction: a commit that succeeds, or a cancel. -/
def TxnEvent.ends : TxnEvent → Bool
  | .commitTxn ok => ok
  | .cancelTxn _ => true
  | _ => false

/-- Every transaction that was begun is ended exactly once. -/
def TxnsEnded : List TxnEvent → Prop
  | [] => True
  | .beginTxn true :: rest => rest.countP TxnEvent.ends = 1
  | _ :: rest => TxnsEnded rest

variable {strategy dbExport} {op : Op} {missed : Prop} {name : String} {db : ρ}

theorem callHooks_singleton {σ : Type} (f : HookFn σ E T) (a0 a1 : Option (Val E T))
    (name : String) (state : σ) : callHooks [f] a0 a1 name state = f a0 a1 name state := rfl

theorem connectionCall_eq {f : ρ → Except T Unit × ρ} {event : Bool → TxnEvent}
    {c c' : Connection ρ} {res : Except T Unit} (h : connectionCall f event c = (res, c')) :
    c'.2 = c.2 ++ [event res.isOk] := by
  cases h
  rfl

theorem cancelTxn_calls (strategy : SyncStrategy ρ T) (c : Connection ρ) :
    ∃ ok, (connectionCall strategy.cancelTxn .cancelTxn c).2.2 = c.2 ++ [.cancelTxn ok] :=
  ⟨_, rfl⟩

theorem entityDeltaWriter_end (entity : Option (Val E T)) (c : Connection ρ) :
    ∃ calls, (entityDeltaWriter strategy entity c).2.2 = c.2 ++ calls
      ∧ calls.countP TxnEvent.ends = 1 := by
  rw [entityDeltaWriter.eq_def]
  cases hdelta : connectionCall strategy.insertDelta .insertDelta c with
  | mk res c₁ =>
  have hcalls := connectionCall_eq hdelta
  cases res with
  | error err =>
    obtain ⟨ok, hcancel⟩ := cancelTxn_calls strategy c₁
    exact ⟨[.insertDelta false, .cancelTxn ok],
      by simp [hcancel, hcalls, Except.isOk, Except.toBool], rfl⟩
  | ok =>
  dsimp only
  cases hcommit : connectionCall strategy.commitTxn .commitTxn c₁ with
  | mk res c₂ =>
  have hcalls₂ := connectionCall_eq hcommit
  cases res with
  | error err =>
    -- a commit that fails is followed by a cancel
    obtain ⟨ok, hcancel⟩ := cancelTxn_calls strategy c₂
    exact ⟨[.insertDelta true, .commitTxn false, .cancelTxn ok],
      by simp [hcancel, hcalls, hcalls₂, Except.isOk, Except.toBool], rfl⟩
  | ok =>
    exact ⟨[.insertDelta true, .commitTxn true],
      by simp [hcalls, hcalls₂, Except.isOk, Except.toBool], rfl⟩

/-- A `:post` or `:fail` hook of an exported entity ends the
transaction once. -/
theorem syncHooks_end (strategy : SyncStrategy ρ T) (hexport : dbExport name = true)
    {phase : Phase} (hphase : phase ≠ .pre) (op : Op) (a0 a1 : Option (Val E T)) (c : Connection ρ) :
    ∃ calls, (callHooks (syncHooks strategy dbExport op phase) a0 a1 name c).2.2 = c.2 ++ calls
      ∧ calls.countP TxnEvent.ends = 1 := by
  cases phase with
  | pre => exact absurd rfl hphase
  | fail =>
    refine ⟨[.cancelTxn (connectionCall strategy.cancelTxn .cancelTxn c).1.isOk], ?_, rfl⟩
    rw [syncHooks, callHooks_singleton, failHookFunc, hexport]
    exact connectionCall_eq rfl
  | post =>
    rw [syncHooks, callHooks_singleton, postHookFunc, hexport]
    exact entityDeltaWriter_end a0 c

/-- The `:pre` hook of an exported entity begins a transaction, and
succeeds when that does. -/
theorem syncHooks_pre (hexport : dbExport name = true) (op : Op) (a0 : Val E T) :
    (preResult (syncHooks strategy dbExport) name (db, []) op a0).2.2
      = [.beginTxn (preSucceeded op
          (preResult (syncHooks strategy dbExport) name (db, []) op a0).1)] := by
  rw [preResult, syncHooks, callHooks_singleton, preHookFunc, hexport]
  cases hbegin : connectionCall strategy.beginTxn .beginTxn (db, []) with
  | mk res c =>
    have hcalls := connectionCall_eq hbegin
    cases res with
    | error err => simpa [preSucceeded, Except.isOk, Except.toBool] using hcalls
    | ok => simpa [preSucceeded, Except.isOk, Except.toBool] using hcalls

theorem syncHooks_untouched (hexport : dbExport name = false) (op : Op) (phase : Phase)
    (a0 a1 : Option (Val E T)) (c : Connection ρ) :
    (callHooks (syncHooks strategy dbExport op phase) a0 a1 name c).2 = c := by
  cases phase <;> simp [syncHooks, callHooks_singleton, preHookFunc, failHookFunc, postHookFunc,
    hexport]

theorem txnsEnded_iff_of_ending {run : Run (Connection ρ) E T}
    (h : Ending (syncHooks strategy dbExport) name (db, []) op missed run) :
    TxnsEnded run.state.2 ↔ (dbExport name = true → ¬ missed) := by
  cases hexport : dbExport name with
  | false =>
    have hcalls : run.state.2 = [] := by
      cases h <;> simp [preResult, syncHooks_untouched hexport]
    simp [hcalls, TxnsEnded]
  | true =>
    cases h with
    | early hmissed => simp [TxnsEnded, hmissed]
    | refused hmissed a0 hpre =>
      simp [syncHooks_pre hexport, hpre, TxnsEnded, hmissed]
    | leftOpen hmissed a0 hpre =>
      simp [syncHooks_pre hexport, hpre, TxnsEnded, hmissed]
    | ended hmissed a0 phase b0 b1 cruds hpre hphase =>
      obtain ⟨calls, hcalls, hend⟩ := syncHooks_end strategy hexport hphase op b0 b1
        (preResult (syncHooks strategy dbExport) name (db, []) op a0).2
      simp [hcalls, syncHooks_pre hexport, hpre, TxnsEnded, hend, hmissed]

end Sync

/-- The hooks of a call are balanced unless the call is one of those
that miss `:fail`; and with the sync hooks every transaction of an
exported entity is ended once in the same cases. -/
theorem dao_hooks_balanced_iff {σ ρ E R T : Type} [ToString T] (hooks : Hooks σ E T)
    (name : String) (state : σ) (strategy : SyncStrategy ρ T) (dbExport : String → Bool) (db : ρ)
    (call : Call E R T) :
    (Balanced call.op (runCall hooks name call ⟨state, []⟩).2.events
        ↔ ¬ MissesFail hooks name state call)
      ∧ (TxnsEnded (runCall (syncHooks strategy dbExport) name call ⟨(db, []), []⟩).2.state.2
        ↔ (dbExport name = true →
          ¬ MissesFail (syncHooks strategy dbExport) name (db, []) call)) :=
  ⟨balanced_iff_of_ending (runCall_ending call), txnsEnded_iff_of_ending (runCall_ending call)⟩

/-! ### An upsert whose write fails -/

/-- The steps of a call on an entity, all of which succeed but the
write. -/
def failingWrite : Steps Nat Nat String where
  types := .ok ()
  entityType := .ok ()
  key := .ok ()
  check := .ok (0, none)
  select := .ok none
  options := .ok ()
  write := .error "connection lost"
  delete := .ok true
  rowToEntity := fun row => .ok row

/-- A strategy on which every call succeeds. -/
def soundStrategy : SyncStrategy Unit String :=
  ⟨fun db => (.ok (), db), fun db => (.ok (), db), fun db => (.ok (), db), fun db => (.ok (), db)⟩

theorem upsert_leaves_transaction_open :
    ¬ Balanced .upsert (runCall (syncHooks soundStrategy fun _ => true) "services"
        (.upsert failingWrite) ⟨((), []), []⟩).2.events
      ∧ ¬ TxnsEnded (runCall (syncHooks soundStrategy fun _ => true) "services"
        (.upsert failingWrite) ⟨((), []), []⟩).2.state.2 := by
  have hcalls : (runCall (syncHooks soundStrategy fun _ => true) "services"
      (.upsert failingWrite) ⟨((), []), []⟩).2 = ⟨((), [.beginTxn true]),
        [.hook .upsert .pre ⟨some .yes, none⟩]⟩ := rfl
  rw [hcalls]
  simp [Balanced, TxnsEnded, preSucceeded]

end KongGateway.Kong.Db

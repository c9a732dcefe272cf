import Mathlib.Data.List.Basic

/-!
# Dao — the write operations of `kong.db.dao` and their hooks

Each operation runs its `:pre` hook, calls the strategy, turns the row
into an entity and runs its `:post` hook; its exits run the `:fail`
hook. The outcomes of the steps (validation, selects, strategy,
`row_to_entity`) are the fields of `Steps`; hooks are any functions
over a state of their own. The options, the workspace id, the entity
read before a write and the cascade entries are passed on to hooks that
do not read them, and are left out.
-/

namespace KongGateway.Kong.Db

inductive Op where
  | insert
  | update
  | upsert
  | delete
  | updateBy
  | upsertBy
  | deleteBy
  deriving DecidableEq, Repr

inductive Phase where
  | pre
  | post
  | fail
  deriving DecidableEq, Repr

/-- What a hook is given or returns: an entity, the value of a unique
field, `true`, an error table or an error text. -/
inductive Val (E T : Type) where
  | entity (e : E)
  | unique (value : String)
  | yes
  | errT (t : T)
  | err (text : String)
  deriving DecidableEq, Repr

/-- The two values a hook returns. -/
structure HookResult (E T : Type) where
  value : Option (Val E T)
  errT : Option T
  deriving DecidableEq, Repr

/-- A hook function: the first two arguments and the schema name. -/
abbrev HookFn (σ E T : Type) :=
  Option (Val E T) → Option (Val E T) → String → σ → HookResult E T × σ

/-- The functions registered for a hook, in order. -/
abbrev Hooks (σ E T : Type) := Op → Phase → List (HookFn σ E T)

inductive CrudEvent where
  | create
  | update
  | delete
  deriving DecidableEq, Repr

inductive Event (E T : Type) where
  | hook (op : Op) (phase : Phase) (result : HookResult E T)
  | crud (event : CrudEvent)
  deriving DecidableEq, Repr

/-- The state of the hooks and what has happened so far. -/
structure Run (σ E T : Type) where
  state : σ
  events : List (Event E T)

/-- What an operation returns, or the error it raises. -/
inductive Result (E T : Type) where
  | value (v : Val E T)
  | nothing
  | failed (err : String) (errT : Option T)
  | raised (err : String)
  deriving DecidableEq, Repr

/-- The outcomes of the steps of one call. A failed step has its error
text and error table. -/
structure Steps (E R T : Type) where
  /-- the type checks, which raise -/
  types : Except String Unit
  /-- `validate_entity_type`, where it comes after the check of the key -/
  entityType : Except String Unit
  /-- `validate_primary_key` or `validate_unique_row_method` -/
  key : Except (String × T) Unit
  /-- `check_insert`, `check_update` or `check_upsert`, with the entity
  read before the write -/
  check : Except (String × T) (E × Option E)
  /-- the `select` of a delete -/
  select : Except (String × T) (Option E)
  /-- `validate_options_value` -/
  options : Except T Unit
  /-- the call of the strategy that writes a row -/
  write : Except T R
  /-- the call of the strategy that deletes, and whether it affected rows -/
  delete : Except T Bool
  rowToEntity : R → Except (String × T) E

section

variable {σ E R T : Type} [ToString T]

def tostring : Option T → String
  | none => "nil"
  | some t => toString t

/-- `wrap_hook`: a hook after a failed one is not run. -/
def wrapHook (f : HookFn σ E T) (acc : Option (HookResult E T)) (a0 a1 : Option (Val E T))
    (name : String) (s : σ) : HookResult E T × σ :=
  match acc with
  | some ⟨none, errT⟩ => (⟨none, errT⟩, s)
  | _ => f a0 a1 name s

/-- The loop of `run_hook`. -/
def runHooks (a0 a1 : Option (Val E T)) (name : String) :
    List (HookFn σ E T) → HookResult E T → σ → HookResult E T × σ
  | [], acc, s => (acc, s)
  | f :: rest, acc, s =>
    let (acc, s) := wrapHook f (some acc) a0 a1 name s
    runHooks a0 a1 name rest acc s

/-- `run_hook`; without functions the first argument is the result. -/
def callHooks (functions : List (HookFn σ E T)) (a0 a1 : Option (Val E T)) (name : String)
    (state : σ) : HookResult E T × σ :=
  match functions with
  | [] => (⟨a0, none⟩, state)
  | f :: rest =>
    let (acc, state) := wrapHook f none a0 a1 name state
    runHooks a0 a1 name rest acc state

/-- `run_hook` within an operation, which notes the result. -/
def runHook (hooks : Hooks σ E T) (op : Op) (phase : Phase) (a0 a1 : Option (Val E T))
    (name : String) (s : Run σ E T) : HookResult E T × Run σ E T :=
  let (result, state) := callHooks (hooks op phase) a0 a1 name s.state
  (result, ⟨state, s.events ++ [Event.hook op phase result]⟩)

/-- `post_crud_event`. -/
def postCrudEvent (event : CrudEvent) (s : Run σ E T) : Run σ E T :=
  { s with events := s.events ++ [.crud event] }

variable (hooks : Hooks σ E T) (name : String) (steps : Steps E R T)

/-- The end of a call whose step failed with an error table only. -/
def failWith (errT : T) (s : Run σ E T) : Result E T × Run σ E T :=
  (.failed (toString errT) (some errT), s)

/-- The end of a call whose hook returned no value. -/
def hookFailed (result : HookResult E T) (s : Run σ E T) : Result E T × Run σ E T :=
  (.failed (tostring result.errT) result.errT, s)

/-- The end of a write: the `:post` hook and the event. -/
def endWrite (op : Op) (row : E) (event : CrudEvent) (s : Run σ E T) : Result E T × Run σ E T :=
  let (result, s) := runHook hooks op .post (some (.entity row)) none name s
  match result.value with
  | none => hookFailed result s
  | some row => (.value row, postCrudEvent event s)

/-- The write of `insert`, `update` and `upsert_by_*`, whose failures
run `:fail` with `entity`; `rowErr` is what it is told of a failed
`row_to_entity`. -/
def writeRow (op : Op) (entity : E) (rowErr : String → T → Val E T) (event : CrudEvent)
    (s : Run σ E T) : Result E T × Run σ E T :=
  match steps.write with
  | .error errT =>
    let (_, s) := runHook hooks op .fail (some (.errT errT)) (some (.entity entity)) name s
    failWith errT s
  | .ok row =>
    match steps.rowToEntity row with
    | .error (err, errT) =>
      let (_, s) := runHook hooks op .fail (some (rowErr err errT)) (some (.entity entity)) name s
      (.failed err (some errT), s)
    | .ok row => endWrite hooks name op row event s

/-- The deletion of `delete` and `delete_by_*`. The `:post` hook runs
with nothing when no row was affected. -/
def deleteRow (op : Op) (entity : E) (s : Run σ E T) : Result E T × Run σ E T :=
  match steps.delete with
  | .error errT =>
    let (_, s) := runHook hooks op .fail (some (.errT errT)) (some (.entity entity)) name s
    failWith errT s
  | .ok false =>
    let (_, s) := runHook hooks op .post none none name s
    (.nothing, s)
  | .ok true =>
    let (result, s) := runHook hooks op .post (some (.entity entity)) none name s
    match result.value with
    | none => hookFailed result s
    | some _ => (.value .yes, postCrudEvent .delete s)

/-- `DAO:insert`. Its `:fail` hook is told the text of a failed
`row_to_entity`, the others the table. -/
def insert (entity : E) (s : Run σ E T) : Result E T × Run σ E T :=
  match steps.types with
  | .error err => (.raised err, s)
  | .ok () =>
    match steps.check with
    | .error (err, errT) => (.failed err (some errT), s)
    | .ok _ =>
      let (ok, s) := runHook hooks .insert .pre (some (.entity entity)) none name s
      match ok.value with
      | none => hookFailed ok s
      | some _ => writeRow hooks name steps .insert entity (fun err _ => .err err) .create s

/-- `DAO:update`. -/
def update (s : Run σ E T) : Result E T × Run σ E T :=
  match steps.types with
  | .error err => (.raised err, s)
  | .ok () =>
    match steps.key with
    | .error (err, errT) => (.failed err (some errT), s)
    | .ok () =>
      match steps.check with
      | .error (err, errT) => (.failed err (some errT), s)
      | .ok (entityToUpdate, _) =>
        let (ok, s) := runHook hooks .update .pre (some (.entity entityToUpdate)) none name s
        match ok.value with
        | none => hookFailed ok s
        | some _ =>
          writeRow hooks name steps .update entityToUpdate (fun _ errT => .errT errT) .update s

/-- The event of an upsert: an update when there was an entity before. -/
def upsertEvent (rbwEntity : Option E) : CrudEvent :=
  if rbwEntity.isSome then .update else .create

/-- `DAO:upsert`. Its failures after `:pre` run no hook. -/
def upsert (s : Run σ E T) : Result E T × Run σ E T :=
  match steps.types with
  | .error err => (.raised err, s)
  | .ok () =>
    match steps.key with
    | .error (err, errT) => (.failed err (some errT), s)
    | .ok () =>
      match steps.check with
      | .error (err, errT) => (.failed err (some errT), s)
      | .ok (entityToUpsert, rbwEntity) =>
        let (ok, s) := runHook hooks .upsert .pre (some (.entity entityToUpsert)) none name s
        match ok.value with
        | none => hookFailed ok s
        | some _ =>
          match steps.write with
          | .error errT => failWith errT s
          | .ok row =>
            match steps.rowToEntity row with
            | .error (err, errT) => (.failed err (some errT), s)
            | .ok row => endWrite hooks name .upsert row (upsertEvent rbwEntity) s

/-- `DAO:delete`. Its `:pre` hook fails by returning an error. -/
def delete (s : Run σ E T) : Result E T × Run σ E T :=
  match steps.types with
  | .error err => (.raised err, s)
  | .ok () =>
    match steps.key with
    | .error (err, errT) => (.failed err (some errT), s)
    | .ok () =>
      match steps.select with
      | .error (err, errT) => (.failed err (some errT), s)
      | .ok none => (.value .yes, s)
      | .ok (some entity) =>
        match steps.options with
        | .error errT => failWith errT s
        | .ok () =>
          let (ok, s) := runHook hooks .delete .pre (some (.entity entity)) none name s
          match ok.errT with
          | some errT => failWith errT s
          | none => deleteRow hooks name steps .delete entity s

/-- `update_by_*`. It checks the update after its `:pre` hook, and a
failed `row_to_entity` runs no hook. -/
def updateBy (uniqueValue : String) (s : Run σ E T) : Result E T × Run σ E T :=
  match steps.types with
  | .error err => (.raised err, s)
  | .ok () =>
    match steps.key with
    | .error (err, errT) => (.failed err (some errT), s)
    | .ok () =>
      match steps.entityType with
      | .error err => (.raised err, s)
      | .ok () =>
        let (ok, s) := runHook hooks .updateBy .pre (some (.unique uniqueValue)) none name s
        match ok.value with
        | none => hookFailed ok s
        | some _ =>
          match steps.check with
          | .error (err, errT) =>
            let (_, s) := runHook hooks .updateBy .fail (some (.errT errT)) none name s
            (.failed err (some errT), s)
          | .ok (entityToUpdate, _) =>
            match steps.write with
            | .error errT =>
              let (_, s) := runHook hooks .updateBy .fail (some (.errT errT))
                (some (.entity entityToUpdate)) name s
              failWith errT s
            | .ok row =>
              match steps.rowToEntity row with
              | .error (err, errT) => (.failed err (some errT), s)
              | .ok row => endWrite hooks name .updateBy row .update s

/-- `upsert_by_*`. -/
def upsertBy (s : Run σ E T) : Result E T × Run σ E T :=
  match steps.types with
  | .error err => (.raised err, s)
  | .ok () =>
    match steps.key with
    | .error (err, errT) => (.failed err (some errT), s)
    | .ok () =>
      match steps.entityType with
      | .error err => (.raised err, s)
      | .ok () =>
        match steps.check with
        | .error (err, errT) => (.failed err (some errT), s)
        | .ok (entityToUpsert, rbwEntity) =>
          let (ok, s) := runHook hooks .upsertBy .pre (some (.entity entityToUpsert)) none name s
          match ok.value with
          | none => hookFailed ok s
          | some _ =>
            writeRow hooks name steps .upsertBy entityToUpsert (fun _ errT => .errT errT)
              (upsertEvent rbwEntity) s

/-- `delete_by_*`. -/
def deleteBy (s : Run σ E T) : Result E T × Run σ E T :=
  match steps.types with
  | .error err => (.raised err, s)
  | .ok () =>
    match steps.key with
    | .error (err, errT) => (.failed err (some errT), s)
    | .ok () =>
      match steps.select with
      | .error (err, errT) => (.failed err (some errT), s)
      | .ok none => (.value .yes, s)
      | .ok (some entity) =>
        let (ok, s) := runHook hooks .deleteBy .pre (some (.entity entity)) none name s
        match ok.value with
        | none => hookFailed ok s
        | some _ => deleteRow hooks name steps .deleteBy entity s

/-- One call of a write operation. -/
inductive Call (E R T : Type) where
  | insert (entity : E) (steps : Steps E R T)
  | update (steps : Steps E R T)
  | upsert (steps : Steps E R T)
  | delete (steps : Steps E R T)
  | updateBy (uniqueValue : String) (steps : Steps E R T)
  | upsertBy (steps : Steps E R T)
  | deleteBy (steps : Steps E R T)

def Call.op : Call E R T → Op
  | .insert .. => .insert
  | .update .. => .update
  | .upsert .. => .upsert
  | .delete .. => .delete
  | .updateBy .. => .updateBy
  | .upsertBy .. => .upsertBy
  | .deleteBy .. => .deleteBy

def runCall (hooks : Hooks σ E T) (name : String) (call : Call E R T) (s : Run σ E T) :
    Result E T × Run σ E T :=
  match call with
  | .insert entity steps => insert hooks name steps entity s
  | .update steps => update hooks name steps s
  | .upsert steps => upsert hooks name steps s
  | .delete steps => delete hooks name steps s
  | .updateBy uniqueValue steps => updateBy hooks name steps uniqueValue s
  | .upsertBy steps => upsertBy hooks name steps s
  | .deleteBy steps => deleteBy hooks name steps s

end

end KongGateway.Kong.Db

import KongGateway.Kong.Db.Schema.Validation

/-!
# Update — validations that are interleaved

`validate_update` changes three texts of `validation_errors` for the time of
a validation and writes back what it has found. The table is shared by all
validations of a worker, which take turns at their yields.
-/

namespace KongGateway.Kong.Db.SchemaValidation

open Bytes Coroutine

/-- The texts that `validate_update` changes. -/
def updateKeys : List Text :=
  [ofText "REQUIRED_FOR_ENTITY_CHECK", ofText "AT_LEAST_ONE_OF",
    ofText "CONDITIONAL_AT_LEAST_ONE_OF"]

/-- How `validate_update` changes them. -/
def updatePatch : Patch Text (Option Text) where
  keys key := updateKeys.contains key
  patch messages key :=
    if key = ofText "REQUIRED_FOR_ENTITY_CHECK" then
      (messages key).map (· ++ ofText " when updating")
    else if key = ofText "AT_LEAST_ONE_OF" ∨ key = ofText "CONDITIONAL_AT_LEAST_ONE_OF" then
      (messages key).map (ofText "when updating, " ++ ·)
    else messages key
  patch_eq messages key h := by
    simp only [updateKeys, List.contains_cons, List.contains_nil, Bool.or_false,
      Bool.or_eq_false_iff, beq_eq_false_iff_ne] at h
    rw [if_neg h.1, if_neg (by rw [not_or]; exact h.2)]

/-- A call that validates an entity. -/
inductive Call where
  | validate (schema : Schema) (input : Value) (fullCheck : Bool)
      (originalInput rbwEntity : Option Value)
  | validateInsert (schema : Schema) (input : Value) (originalInput : Option Value)
  | validateUpdate (schema : Schema) (input : Value) (originalInput rbwEntity : Option Value)

namespace Call

def task : Call → Validation (Option Errors)
  | validate schema input fullCheck originalInput rbwEntity =>
    SchemaValidation.validate schema input fullCheck originalInput rbwEntity
  | validateInsert schema input originalInput =>
    SchemaValidation.validate schema input true originalInput none
  | validateUpdate schema input originalInput rbwEntity =>
    SchemaValidation.validate schema input false originalInput rbwEntity

def isUpdate : Call → Bool
  | validateUpdate .. => true
  | _ => false

def job (call : Call) : Job Text (Option Text) Text (Option Errors) := ⟨call.isUpdate, call.task⟩

/-- The outcome of a call that nothing comes in between. -/
def alone (call : Call) : Except Text (Option Errors) :=
  call.task.run (if call.isUpdate then updatePatch.patch validationErrors else validationErrors)

end Call

/-- A call starts and runs to its first yield, or runs from one yield to the
next. -/
inductive Step where
  | start (id : Nat) (call : Call)
  | resume (id : Nat)

def Step.event : Step → Coroutine.Event Text (Option Text) Text (Option Errors)
  | .start id call => .start id call.job
  | .resume id => .resume id

abbrev Worker := Jobs Text (Option Text) Text (Option Errors)

def step (s : Worker) (next : Step) : Worker := Jobs.step updatePatch s next.event

/-- A call looks at a text that updates change only while no other update is
in progress; an update ends before those that have started before it, and
does not raise an error. -/
def Guard (s : Worker) (next : Step) : Prop := Jobs.Guard updatePatch s next.event

/-- The worker after some steps. -/
def worker (steps : List Step) : Worker := Run.exec step { table := validationErrors } steps

/-- The calls that have ended have the outcome they would have alone, and
when all have ended the texts are the original ones. -/
structure Undisturbed (s : Worker) : Prop where
  outcomes : ∀ (call : Call) outcome, (call.job, outcome) ∈ s.ended → outcome = call.alone
  messages : s.running = [] → s.table = validationErrors

theorem exec_eq (steps : List Step) (s : Worker) :
    Run.exec step s steps = Run.exec (Jobs.step updatePatch) s (steps.map Step.event) := by
  induction steps generalizing s with
  | nil => rfl
  | cons next rest ih => exact ih _

theorem guarded_map {steps : List Step} {s : Worker} (h : Run.Guarded step Guard s steps) :
    Run.Guarded (Jobs.step updatePatch) (Jobs.Guard updatePatch) s (steps.map Step.event) := by
  induction steps generalizing s with
  | nil => trivial
  | cons next rest ih => exact ⟨h.1, ih h.2⟩

theorem validations_undisturbed (steps : List Step)
    (h : Run.Guarded step Guard { table := validationErrors } steps) :
    Undisturbed (worker steps) := by
  obtain ⟨houtcomes, hmessages⟩ := Jobs.undisturbed (guarded_map h)
  unfold worker
  rw [exec_eq]
  exact ⟨fun call outcome hended => houtcomes call.job outcome hended, hmessages⟩

/-! ## Two calls -/

/-- A schema with two strings, one of which must be given. -/
def sampleSchema : Schema :=
  .mk [(ofText "a", .mk {} .string), (ofText "b", .mk {} .string)] none [] none []
    [atLeastOneOf [ofText "a", ofText "b"]] none []

/-- An update that takes a string away. -/
def sampleUpdate : Call :=
  .validateUpdate sampleSchema (.object [(ofText "a", .null)]) none none

/-- An insert that gives one. -/
def sampleInsert : Call :=
  .validateInsert sampleSchema (.object [(ofText "a", .str (ofText "x"))]) none

/-- An insert of a valid entity while an update is in progress. -/
theorem insert_during_update :
    Undisturbed
      (worker [.start 0 sampleUpdate, .start 1 sampleInsert, .resume 1, .resume 0]) :=
  validations_undisturbed _
    ⟨fun _ => Jobs.turnGuard_of_allowed (by decide +kernel),
      fun _ => Jobs.turnGuard_of_allowed (by decide +kernel),
      Jobs.turnGuard_of_allowed (by decide +kernel),
      Jobs.turnGuard_of_allowed (by decide +kernel), trivial⟩

/-- Of two updates, the one that has started first ends first. -/
theorem texts_stay_changed :
    ¬ Undisturbed (worker [.start 0 sampleUpdate, .start 1 sampleUpdate, .resume 0, .resume 1]) := by
  intro h
  have hrunning : (worker [.start 0 sampleUpdate, .start 1 sampleUpdate, .resume 0,
      .resume 1]).running.length = 0 := by decide +kernel
  have htable := congrFun (h.messages (List.eq_nil_of_length_eq_zero hrunning))
    (ofText "AT_LEAST_ONE_OF")
  revert htable
  decide +kernel

end KongGateway.Kong.Db.SchemaValidation

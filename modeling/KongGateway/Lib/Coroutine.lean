import KongGateway.Lib.Run

/-!
# Coroutine — cooperative tasks over a shared table

A task looks up entries of a table, yields to other tasks, and ends with a
result or an error. Tasks run in turns, from one yield to the next. Some
jobs patch entries of the table when they start and write back what they
have found there when they end; when a task of such a job raises an error,
nothing is written back.
-/

/-- A computation that looks up entries of a table and yields. -/
inductive Coroutine (κ τ ε α : Type) where
  | done (result : α)
  | raise (err : ε)
  | look (key : κ) (next : τ → Coroutine κ τ ε α)
  | yield (next : Coroutine κ τ ε α)

namespace Coroutine

variable {κ τ ε α β : Type}

def bind : Coroutine κ τ ε α → (α → Coroutine κ τ ε β) → Coroutine κ τ ε β
  | done result, f => f result
  | raise err, _ => raise err
  | look key next, f => look key fun entry => bind (next entry) f
  | yield next, f => yield (bind next f)

instance : Monad (Coroutine κ τ ε) where
  pure := done
  bind := bind

/-- The outcome of a task when nobody else touches the table. -/
def run (table : κ → τ) : Coroutine κ τ ε α → Except ε α
  | done result => .ok result
  | raise err => .error err
  | look key next => run table (next (table key))
  | yield next => run table next

/-- One turn: the outcome of the task, or the rest of it after a yield. -/
def turn (table : κ → τ) : Coroutine κ τ ε α → Except ε α ⊕ Coroutine κ τ ε α
  | done result => .inl (.ok result)
  | raise err => .inl (.error err)
  | look key next => turn table (next (table key))
  | yield next => .inr next

/-- Whether a task looks at one of the keys in its turn. -/
def looksAt (keys : κ → Bool) (table : κ → τ) : Coroutine κ τ ε α → Bool
  | done _ => false
  | raise _ => false
  | look key next => keys key || looksAt keys table (next (table key))
  | yield _ => false

theorem run_eq_of_turn (table : κ → τ) (task : Coroutine κ τ ε α) :
    run table task = match turn table task with
      | .inl outcome => outcome
      | .inr rest => run table rest := by
  induction task with
  | done _ => rfl
  | raise _ => rfl
  | look key next ih => exact ih (table key)
  | yield _ _ => rfl

/-! ## Tasks that return -/

@[simp] theorem run_pure (table : κ → τ) (result : α) :
    run table (pure result : Coroutine κ τ ε α) = .ok result := rfl

theorem run_bind (table : κ → τ) (task : Coroutine κ τ ε α) (f : α → Coroutine κ τ ε β) :
    run table (task >>= f) = (run table task).bind fun result => run table (f result) := by
  change run table (bind task f) = _
  induction task with
  | done _ => rfl
  | raise _ => rfl
  | look key next ih => exact ih (table key)
  | yield next ih => exact ih

/-- A task that nobody comes in between of returns, with a result that has
the property. -/
def Returns (table : κ → τ) (task : Coroutine κ τ ε α) (P : α → Prop) : Prop :=
  ∃ result, run table task = .ok result ∧ P result

namespace Returns

variable {table : κ → τ} {P Q : α → Prop} {R : β → Prop} {task : Coroutine κ τ ε α}

theorem done {result : α} (h : P result) :
    Returns table (.done result : Coroutine κ τ ε α) P :=
  ⟨result, rfl, h⟩

theorem mono (h : Returns table task P) (himp : ∀ result, P result → Q result) :
    Returns table task Q := by
  obtain ⟨result, hrun, hresult⟩ := h
  exact ⟨result, hrun, himp result hresult⟩

theorem bind {f : α → Coroutine κ τ ε β} (h : Returns table task P)
    (hf : ∀ result, P result → Returns table (f result) R) : Returns table (task >>= f) R := by
  obtain ⟨result, hrun, hresult⟩ := h
  obtain ⟨result', hrun', hresult'⟩ := hf result hresult
  refine ⟨result', ?_, hresult'⟩
  rw [run_bind, hrun]
  exact hrun'

theorem run_eq (h : Returns table task P) :
    Returns table task fun result => run table task = .ok result ∧ P result := by
  obtain ⟨result, hrun, hresult⟩ := h
  exact ⟨result, hrun, hrun, hresult⟩

theorem of_run (h : Returns table task P) {result : α} (hrun : run table task = .ok result) :
    P result := by
  obtain ⟨result', hrun', hresult⟩ := h
  rw [hrun] at hrun'
  cases hrun'
  exact hresult

end Returns

section

variable {table : κ → τ} {P : α → Prop} {R : β → Prop}

@[simp] theorem returns_done {result : α} :
    Returns table (.done result : Coroutine κ τ ε α) P ↔ P result := by
  simp [Returns, run]

@[simp] theorem returns_pure {result : α} :
    Returns table (pure result : Coroutine κ τ ε α) P ↔ P result :=
  returns_done

@[simp] theorem not_returns_raise {err : ε} :
    ¬ Returns table (.raise err : Coroutine κ τ ε α) P := by
  simp [Returns, run]

@[simp] theorem returns_look {key : κ} {next : τ → Coroutine κ τ ε α} :
    Returns table (.look key next) P ↔ Returns table (next (table key)) P :=
  Iff.rfl

@[simp] theorem returns_yield {task : Coroutine κ τ ε α} :
    Returns table (.yield task) P ↔ Returns table task P :=
  Iff.rfl

@[simp] theorem returns_bind {task : Coroutine κ τ ε α} {f : α → Coroutine κ τ ε β} :
    Returns table (task >>= f) R ↔ Returns table task fun result => Returns table (f result) R := by
  constructor
  · rintro ⟨result', hrun', hresult'⟩
    rw [run_bind] at hrun'
    cases hrun : run table task with
    | error err =>
      rw [hrun] at hrun'
      cases hrun'
    | ok result =>
      rw [hrun] at hrun'
      exact ⟨result, hrun, result', hrun', hresult'⟩
  · intro h
    exact h.bind fun _ h => h

@[simp] theorem returns_ite {c : Prop} [Decidable c] {task task' : Coroutine κ τ ε α} :
    Returns table (if c then task else task') P ↔
      (c → Returns table task P) ∧ (¬ c → Returns table task' P) := by
  split <;> simp [*]

theorem returns_eq {task : Coroutine κ τ ε α} {result : α} :
    (Returns table task fun result' => result' = result) ↔ run table task = .ok result := by
  constructor
  · rintro ⟨_, hrun, rfl⟩
    exact hrun
  · intro hrun
    exact ⟨result, hrun, rfl⟩

theorem returns_const {task : Coroutine κ τ ε α} {p : Prop} :
    (Returns table task fun _ => p) ↔ (Returns table task fun _ => True) ∧ p := by
  constructor
  · rintro ⟨result, hrun, hp⟩
    exact ⟨⟨result, hrun, trivial⟩, hp⟩
  · rintro ⟨⟨result, hrun, -⟩, hp⟩
    exact ⟨result, hrun, hp⟩

theorem returns_bind_of_run {task : Coroutine κ τ ε α} {f : α → Coroutine κ τ ε β} {result : α}
    (hrun : run table task = .ok result) :
    Returns table (task >>= f) R ↔ Returns table (f result) R := by
  rw [returns_bind]
  exact ⟨fun h => h.of_run hrun, fun h => ⟨result, hrun, h⟩⟩

theorem returns_iff {task : Coroutine κ τ ε α} : Returns table task P ↔
    (Returns table task fun _ => True) ∧ ∀ result, run table task = .ok result → P result := by
  constructor
  · intro h
    exact ⟨h.mono fun _ _ => trivial, fun result hrun => h.of_run hrun⟩
  · rintro ⟨⟨result, hrun, -⟩, h⟩
    exact ⟨result, hrun, h result hrun⟩

/-- A computation returns where its first part does and the rest does for
what the first part returns. -/
theorem returns_bind_iff {task : Coroutine κ τ ε α} {f : α → Coroutine κ τ ε β} :
    Returns table (task >>= f) R ↔ (Returns table task fun _ => True)
      ∧ ∀ result, run table task = .ok result → Returns table (f result) R :=
  returns_bind.trans returns_iff

end

/-- A turn that does not look at the keys does not depend on their entries. -/
theorem turn_congr {keys : κ → Bool} {table table' : κ → τ}
    (h : ∀ key, keys key = false → table key = table' key) {task : Coroutine κ τ ε α}
    (hlooks : looksAt keys table task = false) : turn table task = turn table' task := by
  induction task with
  | done _ => rfl
  | raise _ => rfl
  | look key next ih =>
    rw [looksAt, Bool.or_eq_false_iff] at hlooks
    have hentry := h key hlooks.1
    rw [turn, turn, ← hentry]
    exact ih _ hlooks.2
  | yield _ _ => rfl

/-! ## Jobs that patch the table -/

/-- A change of some entries. -/
structure Patch (κ τ : Type) where
  keys : κ → Bool
  patch : (κ → τ) → κ → τ
  patch_eq : ∀ table key, keys key = false → patch table key = table key

structure Job (κ τ ε α : Type) where
  patches : Bool
  task : Coroutine κ τ ε α

/-- A job in progress: the table it has found, and the rest of its task. -/
structure Running (κ τ ε α : Type) where
  id : Nat
  job : Job κ τ ε α
  saved : κ → τ
  rest : Coroutine κ τ ε α

/-- The table, the jobs in progress, the last one started first, and the
outcomes of the jobs that have ended. -/
structure Jobs (κ τ ε α : Type) where
  table : κ → τ
  running : List (Running κ τ ε α) := []
  ended : List (Job κ τ ε α × Except ε α) := []

inductive Event (κ τ ε α : Type) where
  | start (id : Nat) (job : Job κ τ ε α)
  | resume (id : Nat)

variable (p : Patch κ τ)

namespace Jobs

/-- The table of a job that runs alone. -/
def tableOf (table : κ → τ) (job : Job κ τ ε α) : κ → τ :=
  if job.patches then p.patch table else table

/-- What a job writes back at its end. -/
def restore (current : Running κ τ ε α) (outcome : Except ε α) (table : κ → τ) : κ → τ :=
  match outcome with
  | .ok _ => if current.job.patches then fun key =>
    if p.keys key then current.saved key else table key
    else table
  | .error _ => table

/-- The jobs in progress around the one with an id. -/
def split (id : Nat) :
    List (Running κ τ ε α) →
      Option (List (Running κ τ ε α) × Running κ τ ε α × List (Running κ τ ε α))
  | [] => none
  | current :: older =>
    if current.id = id then some ([], current, older)
    else (split id older).map fun parts => (current :: parts.1, parts.2.1, parts.2.2)

/-- A job takes its turn. -/
def resume (s : Jobs κ τ ε α) (id : Nat) : Jobs κ τ ε α :=
  match split id s.running with
  | none => s
  | some (newer, current, older) =>
    match current.rest.turn s.table with
    | .inr rest => { s with running := newer ++ { current with rest := rest } :: older }
    | .inl outcome =>
      { table := restore p current outcome s.table
        running := newer ++ older
        ended := (current.job, outcome) :: s.ended }

/-- A job has patched the table and not yet taken its first turn. -/
def push (s : Jobs κ τ ε α) (id : Nat) (job : Job κ τ ε α) : Jobs κ τ ε α :=
  { s with
    table := tableOf p s.table job
    running := ⟨id, job, s.table, job.task⟩ :: s.running }

/-- A step: a job starts with its first turn, or takes another one. -/
def step (s : Jobs κ τ ε α) : Event κ τ ε α → Jobs κ τ ε α
  | .start id job => if (split id s.running).isSome then s else resume p (push p s id job) id
  | .resume id => resume p s id

/-- The turn of a job does not look at patched entries while another job
that patches is in progress, and a job that patches ends with a result and
after those that have started later. -/
def TurnGuard (s : Jobs κ τ ε α) (id : Nat) : Prop :=
  ∀ newer current older, split id s.running = some (newer, current, older) →
    (current.rest.looksAt p.keys s.table = true →
      ∀ other ∈ newer ++ older, other.job.patches = false)
    ∧ ∀ outcome, current.rest.turn s.table = .inl outcome → current.job.patches = true →
      (∃ result, outcome = .ok result) ∧ ∀ other ∈ newer, other.job.patches = false

def Guard (s : Jobs κ τ ε α) : Event κ τ ε α → Prop
  | .start id job => (split id s.running).isSome = false → TurnGuard p (push p s id job) id
  | .resume id => TurnGuard p s id

/-! ## What the jobs in progress have made of the table -/

variable {p}

theorem split_eq {id : Nat} {running newer older : List (Running κ τ ε α)}
    {current : Running κ τ ε α} (h : split id running = some (newer, current, older)) :
    running = newer ++ current :: older := by
  induction running generalizing newer with
  | nil => cases h
  | cons head tail ih =>
    unfold split at h
    split at h
    · cases h
      rfl
    · obtain ⟨parts, hparts, heq⟩ := Option.map_eq_some_iff.mp h
      cases heq
      rw [ih hparts]
      rfl

variable (p) in
/-- The table with the patches of the jobs in progress. -/
def patched (original : κ → τ) : List (Running κ τ ε α) → κ → τ
  | [] => original
  | current :: older => tableOf p (patched original older) current.job

variable (p) in
/-- Every job that patches has found the table of the jobs before it. -/
def Saved (original : κ → τ) : List (Running κ τ ε α) → Prop
  | [] => True
  | current :: older =>
    (current.job.patches = true → current.saved = patched p original older)
      ∧ Saved original older

variable {original : κ → τ} {newer older running : List (Running κ τ ε α)}
  {current : Running κ τ ε α}

theorem tableOf_eq {table : κ → τ} {job : Job κ τ ε α} {key : κ} (h : p.keys key = false) :
    tableOf p table job key = table key := by
  unfold tableOf
  split
  · exact p.patch_eq table key h
  · rfl

theorem patched_eq {key : κ} (h : p.keys key = false) : patched p original running key
    = original key := by
  induction running with
  | nil => rfl
  | cons head tail ih => exact (tableOf_eq h).trans ih

theorem patched_append (h : ∀ other ∈ newer, other.job.patches = false) :
    patched p original (newer ++ running) = patched p original running := by
  induction newer with
  | nil => rfl
  | cons head tail ih =>
    have hhead := h head List.mem_cons_self
    rw [List.cons_append, patched, tableOf, if_neg (by simp [hhead])]
    exact ih fun other hother => h other (List.mem_cons_of_mem head hother)

/-- The table depends on which jobs are in progress, not on how far they are. -/
theorem patched_rest (rest : Coroutine κ τ ε α) :
    patched p original (newer ++ { current with rest := rest } :: older)
      = patched p original (newer ++ current :: older) := by
  induction newer with
  | nil => rfl
  | cons head tail ih =>
    rw [List.cons_append, patched, ih]
    rfl

theorem saved_rest (rest : Coroutine κ τ ε α)
    (h : Saved p original (newer ++ current :: older)) :
    Saved p original (newer ++ { current with rest := rest } :: older) := by
  induction newer with
  | nil => exact h
  | cons head tail ih =>
    exact ⟨fun hpatches => (h.1 hpatches).trans (patched_rest rest).symm, ih h.2⟩

theorem saved_of_append (h : Saved p original (newer ++ running)) : Saved p original running := by
  induction newer with
  | nil => exact h
  | cons head tail ih => exact ih h.2

theorem patched_erase (h : current.job.patches = false) :
    patched p original (newer ++ older) = patched p original (newer ++ current :: older) := by
  induction newer with
  | nil =>
    rw [List.nil_append, List.nil_append, patched, tableOf, if_neg (by simp [h])]
  | cons head tail ih =>
    rw [List.cons_append, patched, ih]
    rfl

theorem saved_erase (h : Saved p original (newer ++ current :: older))
    (hcurrent : current.job.patches = false ∨ ∀ other ∈ newer, other.job.patches = false) :
    Saved p original (newer ++ older) := by
  induction newer with
  | nil => exact h.2
  | cons head tail ih =>
    refine ⟨fun hpatches => ?_, ih h.2 (hcurrent.imp_right fun hnewer other hother =>
      hnewer other (List.mem_cons_of_mem head hother))⟩
    rcases hcurrent with hcurrent | hnewer
    · exact (h.1 hpatches).trans (patched_erase hcurrent).symm
    · rw [hnewer head List.mem_cons_self] at hpatches
      cases hpatches

/-! ## Jobs that do not disturb each other -/

variable (p) in
structure Inv (original : κ → τ) (s : Jobs κ τ ε α) : Prop where
  table : s.table = patched p original s.running
  saved : Saved p original s.running
  rest : ∀ current ∈ s.running, current.rest.run (tableOf p original current.job)
    = current.job.task.run (tableOf p original current.job)
  ended : ∀ job outcome, (job, outcome) ∈ s.ended →
    outcome = job.task.run (tableOf p original job)

theorem turn_eq {s : Jobs κ τ ε α} (hs : s.table = patched p original s.running)
    (hrunning : s.running = newer ++ current :: older)
    (h : current.rest.looksAt p.keys s.table = true →
      ∀ other ∈ newer ++ older, other.job.patches = false) :
    current.rest.turn s.table = current.rest.turn (tableOf p original current.job) := by
  cases hlooks : current.rest.looksAt p.keys s.table with
  | false =>
    refine turn_congr (fun key hkey => ?_) hlooks
    rw [hs, patched_eq hkey, tableOf_eq hkey]
  | true =>
    have hothers := h hlooks
    have hnewer : ∀ other ∈ newer, other.job.patches = false := fun other hother =>
      hothers other (List.mem_append_left older hother)
    have holder : ∀ other ∈ older, other.job.patches = false := fun other hother =>
      hothers other (List.mem_append_right newer hother)
    have htable : patched p original older = original := by
      have happend := @patched_append κ τ ε α p original older [] holder
      rw [List.append_nil] at happend
      exact happend
    rw [hs, hrunning, patched_append hnewer, patched, htable]

theorem inv_resume {s : Jobs κ τ ε α} (hs : Inv p original s) {id : Nat}
    (h : TurnGuard p s id) : Inv p original (resume p s id) := by
  unfold resume
  split
  · exact hs
  · rename_i newer current older hsplit
    obtain ⟨hlooks, hend⟩ := h newer current older hsplit
    have hrunning := split_eq hsplit
    have hmem : current ∈ s.running := by
      rw [hrunning]
      exact List.mem_append_right newer List.mem_cons_self
    have hturn := turn_eq hs.table hrunning hlooks
    have hrun := hs.rest current hmem
    rw [run_eq_of_turn, ← hturn] at hrun
    have hsaved := hs.saved
    rw [hrunning] at hsaved
    split
    · rename_i rest hrest
      rw [hrest] at hrun
      refine ⟨?_, saved_rest rest hsaved, ?_, hs.ended⟩
      · have htable := hs.table
        rw [hrunning] at htable
        exact htable.trans (patched_rest rest).symm
      · intro other hother
        rcases List.mem_append.mp hother with hother | hother
        · exact hs.rest other (by rw [hrunning]; exact List.mem_append_left _ hother)
        · rcases List.mem_cons.mp hother with rfl | hother
          · exact hrun
          · exact hs.rest other (by
              rw [hrunning]
              exact List.mem_append_right newer (List.mem_cons_of_mem current hother))
    · rename_i outcome houtcome
      rw [houtcome] at hrun
      have hothers : ∀ other ∈ newer ++ older, other ∈ s.running := by
        intro other hother
        rw [hrunning]
        rcases List.mem_append.mp hother with hother | hother
        · exact List.mem_append_left _ hother
        · exact List.mem_append_right newer (List.mem_cons_of_mem current hother)
      refine ⟨?_, saved_erase hsaved ?_, fun other hother => hs.rest other (hothers other hother),
        ?_⟩
      · cases hpatches : current.job.patches with
        | false =>
          have hrestore : restore p current outcome s.table = s.table := by
            unfold restore
            rw [hpatches]
            cases outcome <;> rfl
          simp only
          rw [hrestore, patched_erase hpatches, ← hrunning]
          exact hs.table
        | true =>
          obtain ⟨⟨result, rfl⟩, hnewer⟩ := hend outcome houtcome hpatches
          simp only [restore, hpatches, if_true]
          rw [patched_append hnewer, (saved_of_append hsaved).1 hpatches]
          funext key
          split
          · rfl
          · rename_i hkey
            rw [hs.table, patched_eq (by simpa using hkey), patched_eq (by simpa using hkey)]
      · cases hpatches : current.job.patches with
        | false => exact .inl rfl
        | true => exact .inr (hend outcome houtcome hpatches).2
      · intro job result hended
        rcases List.mem_cons.mp hended with heq | hended
        · cases heq
          exact hrun
        · exact hs.ended job result hended

theorem inv_step {s : Jobs κ τ ε α} (hs : Inv p original s) {event : Event κ τ ε α}
    (h : Guard p s event) : Inv p original (step p s event) := by
  cases event with
  | resume id => exact inv_resume hs h
  | start id job =>
    change Inv p original
      (if (split id s.running).isSome then s else resume p (push p s id job) id)
    split
    · exact hs
    · rename_i hfresh
      refine inv_resume ?_ (h (by simpa using hfresh))
      have hsaved : Saved p original (push p s id job).running :=
        ⟨fun _ => hs.table, hs.saved⟩
      refine ⟨?_, hsaved, ?_, hs.ended⟩
      · unfold push
        rw [hs.table]
        rfl
      · intro current hcurrent
        rcases List.mem_cons.mp hcurrent with rfl | hcurrent
        · rfl
        · exact hs.rest current hcurrent

/-- **The rule of undisturbed jobs**: in a guarded run every job ends as it
would alone, and when none is in progress the table is the original one. -/
theorem undisturbed {events : List (Event κ τ ε α)}
    (h : Run.Guarded (step p) (Guard p) { table := original } events) :
    (∀ job outcome, (job, outcome) ∈ (Run.exec (step p) { table := original } events).ended →
      outcome = job.task.run (tableOf p original job))
    ∧ ((Run.exec (step p) { table := original } events).running = [] →
      (Run.exec (step p) { table := original } events).table = original) := by
  have hinit : Inv p original ({ table := original } : Jobs κ τ ε α) :=
    ⟨rfl, trivial, fun _ hcurrent => (nomatch hcurrent), fun _ _ hended => (nomatch hended)⟩
  have hstep : ∀ (s : Jobs κ τ ε α) (event : Event κ τ ε α), Inv p original s →
      Guard p s event → Inv p original (step p s event) :=
    fun _ _ hs hguard => inv_step hs hguard
  have hinv := h.invariant hstep hinit
  refine ⟨hinv.ended, fun hnone => ?_⟩
  rw [hinv.table, hnone]
  rfl

/-! ## Deciding the guard -/

/-- The guard of a turn, as a test. -/
def turnAllowed (p : Patch κ τ) (s : Jobs κ τ ε α) (id : Nat) : Bool :=
  match split id s.running with
  | none => true
  | some (newer, current, older) =>
    (!current.rest.looksAt p.keys s.table
      || (newer ++ older).all fun other => !other.job.patches)
    && match current.rest.turn s.table with
      | .inr _ => true
      | .inl outcome =>
        !current.job.patches || outcome.isOk && newer.all fun other => !other.job.patches

theorem turnGuard_of_allowed {s : Jobs κ τ ε α} {id : Nat} (h : turnAllowed p s id = true) :
    TurnGuard p s id := by
  intro newer current older hsplit
  unfold turnAllowed at h
  rw [hsplit] at h
  simp only [Bool.and_eq_true, Bool.or_eq_true, Bool.not_eq_true', List.all_eq_true] at h
  obtain ⟨hlooks, hend⟩ := h
  refine ⟨fun hlook => ?_, fun outcome houtcome hpatches => ?_⟩
  · rw [hlook] at hlooks
    exact hlooks.resolve_left (by decide)
  · rw [houtcome] at hend
    simp only [Bool.or_eq_true, Bool.not_eq_true', hpatches, Bool.and_eq_true, List.all_eq_true,
      Bool.true_eq_false, false_or] at hend
    refine ⟨?_, hend.2⟩
    cases outcome with
    | ok result => exact ⟨result, rfl⟩
    | error err => cases hend.1

end Jobs

end Coroutine

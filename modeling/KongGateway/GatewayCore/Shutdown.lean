import KongGateway.Lib.Run

/-!
# Shutdown — draining the requests in flight

The model of `InFlightGuard`, of the entry and the exit of
`proxy_handler`, and of `graceful_shutdown_signal`, at the granularity
of their atomic operations. A handler loads `draining`, then counts
itself in; the count goes down when the handler returns, which for a
streamed response is before its body has been sent. The shutdown stores
`draining` and then polls `in_flight` until it reads zero or its
deadline passes.

A drain that reads zero may still miss a request: one that stood between
its check and its count-in when `draining` was stored, or one whose
handler has returned and whose body is still streaming. `Settles` rules
out exactly these two.
-/

namespace KongGateway.GatewayCore

/-! ## The system -/

inductive HandlerPhase where
  | arrived
  | admitted
  | proxying
  | streaming
  | finished
deriving DecidableEq, Repr

inductive ShutdownPhase where
  | serving
  | polling
  | drained
  | timedOut
deriving DecidableEq, Repr

/-- The shared flag and counter, the handlers in the order of their
arrival, and where the shutdown stands. -/
structure Drain where
  draining : Bool
  inFlight : Nat
  handlers : List HandlerPhase
  shutdown : ShutdownPhase
deriving DecidableEq, Repr

/-- One atomic operation: of the handler of request `i`, or of the
shutdown. `reply` is the return of the handler, `poll` one evaluation of
the loop condition. -/
inductive DrainEvent where
  | arrive
  | checkDraining (i : Nat)
  | countIn (i : Nat)
  | reply (i : Nat) (streams : Bool)
  | bodySent (i : Nat)
  | storeDraining
  | poll (deadlinePassed : Bool)
deriving DecidableEq, Repr

namespace Drain

def start : Drain where
  draining := false
  inFlight := 0
  handlers := []
  shutdown := .serving

def step (s : Drain) : DrainEvent → Drain
  | .arrive => { s with handlers := s.handlers ++ [.arrived] }
  | .checkDraining i =>
    { s with handlers := s.handlers.set i (if s.draining then .finished else .admitted) }
  | .countIn i =>
    { s with
      inFlight := s.inFlight + 1
      handlers := s.handlers.set i .proxying }
  | .reply i streams =>
    { s with
      inFlight := s.inFlight - 1
      handlers := s.handlers.set i (if streams then .streaming else .finished) }
  | .bodySent i => { s with handlers := s.handlers.set i .finished }
  | .storeDraining => { s with draining := true, shutdown := .polling }
  | .poll deadlinePassed =>
    if s.inFlight = 0 then { s with shutdown := .drained }
    else if deadlinePassed then { s with shutdown := .timedOut }
    else s

/-- Handlers and the shutdown take their steps in program order. -/
def Possible (s : Drain) : DrainEvent → Prop
  | .arrive => True
  | .checkDraining i => s.handlers[i]? = some .arrived
  | .countIn i => s.handlers[i]? = some .admitted
  | .reply i _ => s.handlers[i]? = some .proxying
  | .bodySent i => s.handlers[i]? = some .streaming
  | .storeDraining => s.shutdown = .serving
  | .poll _ => s.shutdown = .polling

instance (s : Drain) : (event : DrainEvent) → Decidable (s.Possible event)
  | .arrive => inferInstanceAs (Decidable True)
  | .checkDraining _ => inferInstanceAs (Decidable (_ = _))
  | .countIn _ => inferInstanceAs (Decidable (_ = _))
  | .reply _ _ => inferInstanceAs (Decidable (_ = _))
  | .bodySent _ => inferInstanceAs (Decidable (_ = _))
  | .storeDraining => inferInstanceAs (Decidable (_ = _))
  | .poll _ => inferInstanceAs (Decidable (_ = _))

/-- A drain that ended on a zero has left nothing behind. -/
def Complete (s : Drain) : Prop :=
  s.shutdown = .drained → .proxying ∉ s.handlers ∧ .streaming ∉ s.handlers

instance (s : Drain) : Decidable s.Complete :=
  inferInstanceAs (Decidable (_ → _))

/-- No handler is between its check and its count-in when `draining` is
stored, and no body outlives its handler, unless the drain has ended by
its deadline. -/
def Settles (s : Drain) : DrainEvent → Prop
  | .storeDraining => .admitted ∉ s.handlers
  | .reply _ streams => streams = true → s.shutdown = .timedOut
  | _ => True

/-! ## The condition is enough -/

theorem count_set_add {α : Type*} [DecidableEq α] {l : List α} {i : Nat} {old : α}
    (h : l[i]? = some old) (new a : α) :
    (l.set i new).count a + (if old = a then 1 else 0)
      = l.count a + if new = a then 1 else 0 := by
  obtain ⟨hi, rfl⟩ := List.getElem?_eq_some_iff.mp h
  have hle : (if l[i] = a then 1 else 0) ≤ l.count a := by
    split
    · rename_i heq
      rw [Nat.succ_le_iff, List.count_pos_iff, ← heq]
      exact List.getElem_mem hi
    · exact Nat.zero_le _
  rw [List.count_set hi]
  simp only [beq_iff_eq]
  omega

theorem notMem_set {α : Type*} {l : List α} {i : Nat} {new a : α} (h : a ∉ l) (hne : a ≠ new) :
    a ∉ l.set i new := by
  intro hmem
  rcases List.mem_or_eq_of_mem_set hmem with hold | hnew
  · exact h hold
  · exact hne hnew

/-- The counter counts the handlers that run. -/
def Counted (s : Drain) : Prop := s.inFlight = s.handlers.count .proxying

variable {s : Drain}

theorem Counted.step (h : s.Counted) {event : DrainEvent} (hpossible : s.Possible event) :
    (s.step event).Counted := by
  unfold Counted at h ⊢
  cases event with
  | arrive => simp [Drain.step, h]
  | checkDraining i =>
    have hcount := count_set_add hpossible (if s.draining then .finished else .admitted) .proxying
    cases hflag : s.draining <;> simp [Drain.step, hflag, h] at hcount ⊢ <;> omega
  | countIn i =>
    have hcount := count_set_add hpossible .proxying .proxying
    simp [Drain.step, h] at hcount ⊢
    omega
  | reply i streams =>
    have hcount := count_set_add hpossible (if streams then .streaming else .finished) .proxying
    cases streams <;> simp [Drain.step, h] at hcount ⊢ <;> omega
  | bodySent i =>
    have hcount := count_set_add hpossible .finished .proxying
    simp [Drain.step, h] at hcount ⊢
    omega
  | storeDraining => exact h
  | poll deadlinePassed =>
    simp only [Drain.step]
    split
    · exact h
    · split <;> exact h

/-- What a settled run keeps: the flag is up from the signal on, no
handler is admitted after it, and no body is streaming. -/
structure Settled (s : Drain) : Prop where
  counted : s.Counted
  flag : s.draining = true ↔ s.shutdown ≠ .serving
  none_admitted : s.shutdown ≠ .serving → .admitted ∉ s.handlers
  none_streaming : s.shutdown ≠ .timedOut → .streaming ∉ s.handlers
  none_proxying : s.shutdown = .drained → .proxying ∉ s.handlers

theorem Settled.start : start.Settled where
  counted := rfl
  flag := by simp [Drain.start]
  none_admitted := by simp [Drain.start]
  none_streaming := by simp [Drain.start]
  none_proxying := by simp [Drain.start]

theorem Settled.step (h : s.Settled) (event : DrainEvent) (hpossible : s.Possible event)
    (hsettles : s.Settles event) : (s.step event).Settled := by
  have hcounted := h.counted.step hpossible
  cases event with
  | arrive =>
    refine ⟨hcounted, h.flag, ?_, ?_, ?_⟩
    · intro hphase
      simpa [Drain.step] using h.none_admitted hphase
    · intro hphase
      simpa [Drain.step] using h.none_streaming hphase
    · intro hphase
      simpa [Drain.step] using h.none_proxying hphase
  | checkDraining i =>
    refine ⟨hcounted, h.flag, ?_, ?_, ?_⟩
    · -- once the flag is up the check refuses
      intro hphase
      rw [Drain.step, h.flag.mpr hphase]
      exact notMem_set (h.none_admitted hphase) (by decide)
    · intro hphase
      refine notMem_set (h.none_streaming hphase) ?_
      cases s.draining <;> decide
    · intro hphase
      refine notMem_set (h.none_proxying hphase) ?_
      cases s.draining <;> decide
  | countIn i =>
    -- an admitted handler is there only before the signal
    have hserving : s.shutdown = .serving := by
      by_contra hphase
      exact h.none_admitted hphase (List.mem_of_getElem? hpossible)
    refine ⟨hcounted, h.flag, ?_, ?_, ?_⟩
    · exact fun hphase => absurd hserving hphase
    · exact fun hphase => notMem_set (h.none_streaming hphase) (by decide)
    · intro hphase
      rw [show (s.step (.countIn i)).shutdown = s.shutdown from rfl, hserving] at hphase
      cases hphase
  | reply i streams =>
    refine ⟨hcounted, h.flag, ?_, ?_, ?_⟩
    · intro hphase
      refine notMem_set (h.none_admitted hphase) ?_
      cases streams <;> decide
    · intro hphase
      refine notMem_set (h.none_streaming hphase) ?_
      cases streams with
      | true => exact absurd (hsettles rfl) hphase
      | false => decide
    · intro hphase
      refine notMem_set (h.none_proxying hphase) ?_
      cases streams <;> decide
  | bodySent i =>
    refine ⟨hcounted, h.flag, ?_, ?_, ?_⟩
    · exact fun hphase => notMem_set (h.none_admitted hphase) (by decide)
    · exact fun hphase => notMem_set (h.none_streaming hphase) (by decide)
    · exact fun hphase => notMem_set (h.none_proxying hphase) (by decide)
  | storeDraining =>
    have hserving : s.shutdown = .serving := hpossible
    refine ⟨hcounted, ?_, fun _ => hsettles, fun _ => ?_, ?_⟩
    · simp [Drain.step]
    · exact h.none_streaming (by rw [hserving]; decide)
    · simp [Drain.step]
  | poll deadlinePassed =>
    have hpolling : s.shutdown = .polling := hpossible
    have hadmitted := h.none_admitted (by rw [hpolling]; decide)
    have hstreaming := h.none_streaming (by rw [hpolling]; decide)
    have hflag := h.flag.mpr (by rw [hpolling]; decide)
    simp only [Drain.step]
    split
    · -- the zero that was read is the number of running handlers
      rename_i hzero
      have hnone : .proxying ∉ s.handlers := List.count_eq_zero.mp (h.counted.symm.trans hzero)
      exact ⟨h.counted, by simp [hflag], fun _ => hadmitted, fun _ => hstreaming, fun _ => hnone⟩
    · split
      · exact ⟨h.counted, by simp [hflag], fun _ => hadmitted, fun hphase => absurd rfl hphase,
          fun hphase => by cases hphase⟩
      · exact h

theorem Settled.complete (h : s.Settled) : s.Complete := fun hphase =>
  ⟨h.none_proxying hphase, h.none_streaming (by rw [hphase]; decide)⟩

/-! ## The condition is needed -/

theorem exists_replies (h : s.Counted) :
    ∃ replies, Run.Guarded Drain.step Possible s replies
      ∧ (Run.exec Drain.step s replies).inFlight = 0
      ∧ (Run.exec Drain.step s replies).shutdown = s.shutdown
      ∧ ∀ (i : Nat) (phase : HandlerPhase), phase ≠ .proxying → s.handlers[i]? = some phase →
          (Run.exec Drain.step s replies).handlers[i]? = some phase := by
  generalize hn : s.inFlight = n
  induction n generalizing s with
  | zero => exact ⟨[], trivial, hn, rfl, fun _ _ _ hget => hget⟩
  | succ n ih =>
    have hmem : HandlerPhase.proxying ∈ s.handlers := by
      rw [← List.count_pos_iff, ← h, hn]
      exact Nat.succ_pos n
    obtain ⟨i, hi⟩ := List.mem_iff_getElem?.mp hmem
    have hpossible : s.Possible (.reply i false) := hi
    obtain ⟨replies, hguard, hzero, hshut, hkept⟩ := ih (h.step hpossible)
      (by simp [Drain.step, hn])
    refine ⟨.reply i false :: replies, ⟨hpossible, hguard⟩, hzero, hshut, ?_⟩
    intro j phase hphase hget
    refine hkept j phase hphase ?_
    have hne : i ≠ j := by
      rintro rfl
      rw [hi] at hget
      exact hphase (Option.some.inj hget).symm
    rw [Drain.step, List.getElem?_set_ne hne, hget]

/-- From a polling state the shutdown can end with everybody else where
they are. -/
theorem exists_drained (h : s.Counted) (hpolling : s.shutdown = .polling) :
    ∃ events, Run.Guarded Drain.step Possible s events
      ∧ (Run.exec Drain.step s events).shutdown = .drained
      ∧ ∀ (i : Nat) (phase : HandlerPhase), phase ≠ .proxying → s.handlers[i]? = some phase →
          (Run.exec Drain.step s events).handlers[i]? = some phase := by
  obtain ⟨replies, hguard, hzero, hshut, hkept⟩ := exists_replies h
  refine ⟨replies ++ [DrainEvent.poll false], ?_, ?_, ?_⟩
  · exact Run.guarded_append.mpr ⟨hguard, hshut.trans hpolling, trivial⟩
  · simp [Run.exec_append, Drain.step, hzero]
  · intro i phase hphase hget
    have hafter := hkept i phase hphase hget
    simpa [Run.exec_append, Drain.step, hzero] using hafter

/-- A step that does not settle can be followed by a drain that reads
zero and leaves a request behind. -/
theorem Settled.exists_incomplete (h : s.Settled) {event : DrainEvent}
    (hpossible : s.Possible event) (hsettles : ¬ s.Settles event) :
    ∃ rest, Run.Guarded Drain.step Possible (s.step event) rest
      ∧ ¬ (Run.exec Drain.step (s.step event) rest).Complete := by
  have hcounted := h.counted.step hpossible
  cases event with
  | storeDraining =>
    -- the handler between check and count-in starts proxying after the drain
    obtain ⟨i, hi⟩ := List.mem_iff_getElem?.mp (not_not.mp hsettles)
    obtain ⟨events, hguard, hdrained, hkept⟩ := exists_drained hcounted rfl
    have hadmitted := hkept i .admitted (by decide) hi
    refine ⟨events ++ [DrainEvent.countIn i], ?_, fun hcomplete => ?_⟩
    · exact Run.guarded_append.mpr ⟨hguard, hadmitted, trivial⟩
    · rw [Run.exec_append] at hcomplete
      refine (hcomplete hdrained).1 (List.mem_iff_getElem?.mpr ⟨i, ?_⟩)
      exact List.getElem?_set_self (List.getElem?_eq_some_iff.mp hadmitted).1
  | reply i streams =>
    have hstreams : streams = true ∧ s.shutdown ≠ .timedOut := by
      simpa [Settles] using hsettles
    obtain ⟨rfl, hopen⟩ := hstreams
    have hstreaming : (s.step (.reply i true)).handlers[i]? = some .streaming :=
      List.getElem?_set_self (List.getElem?_eq_some_iff.mp hpossible).1
    -- the drain ends while the body is on its way
    have hleft : ∀ t : Drain, t.shutdown = .drained → t.handlers[i]? = some .streaming →
        ¬ t.Complete := fun t hdrained hget hcomplete =>
      (hcomplete hdrained).2 (List.mem_iff_getElem?.mpr ⟨i, hget⟩)
    cases hphase : s.shutdown with
    | timedOut => exact absurd hphase hopen
    | drained =>
      exact absurd (List.mem_of_getElem? hpossible) (h.none_proxying hphase)
    | polling =>
      obtain ⟨events, hguard, hdrained, hkept⟩ := exists_drained hcounted hphase
      exact ⟨events, hguard, hleft _ hdrained (hkept i .streaming (by decide) hstreaming)⟩
    | serving =>
      have hstored : (s.step (.reply i true)).Possible .storeDraining := hphase
      obtain ⟨events, hguard, hdrained, hkept⟩ := exists_drained (hcounted.step hstored) rfl
      exact ⟨.storeDraining :: events, ⟨hstored, hguard⟩,
        hleft _ hdrained (hkept i .streaming (by decide) hstreaming)⟩
  | _ => exact absurd trivial hsettles

end Drain

/-- **Drain completeness.** In every run whose steps settle, a drain
that ends on a zero leaves no request proxying or streaming; and once
such a run takes a step that does not settle, it can be continued into
a drain that does. -/
theorem drain_complete_of_settles (events : List DrainEvent)
    (hrun : Run.Guarded Drain.step (fun s event => s.Possible event ∧ s.Settles event)
      .start events) :
    (Run.exec Drain.step .start events).Complete
      ∧ ∀ event, (Run.exec Drain.step .start events).Possible event →
        ¬ (Run.exec Drain.step .start events).Settles event →
        ∃ rest, Run.Guarded Drain.step Drain.Possible .start (events ++ event :: rest)
          ∧ ¬ (Run.exec Drain.step .start (events ++ event :: rest)).Complete := by
  have hsettled : (Run.exec Drain.step .start events).Settled :=
    hrun.invariant (fun s event h hguard => h.step event hguard.1 hguard.2) Drain.Settled.start
  refine ⟨hsettled.complete, ?_⟩
  intro event hpossible hsettles
  obtain ⟨rest, hguard, hincomplete⟩ := hsettled.exists_incomplete hpossible hsettles
  refine ⟨rest, ?_, ?_⟩
  · exact Run.guarded_append.mpr ⟨hrun.mono fun _ _ hboth => hboth.1, hpossible, hguard⟩
  · rw [Run.exec_append]
    exact hincomplete

/-- A request is answered before the signal comes. -/
theorem drain_after_last_reply :
    (Run.exec Drain.step .start [.arrive, .checkDraining 0, .countIn 0, .reply 0 false,
      .storeDraining, .poll false]).Complete := by
  refine (drain_complete_of_settles _ ?_).1
  refine ⟨⟨trivial, trivial⟩, ⟨rfl, trivial⟩, ⟨rfl, trivial⟩, ⟨rfl, ?_⟩, ⟨rfl, ?_⟩, ⟨rfl, trivial⟩,
    trivial⟩
  · intro hstreams
    cases hstreams
  · show HandlerPhase.admitted ∉ [HandlerPhase.finished]
    decide

/-- A request passes the check, the signal comes, the poll reads zero,
and only then the request is counted in and proxied. -/
theorem drain_misses_late_count_in :
    let events : List DrainEvent :=
      [.arrive, .checkDraining 0, .storeDraining, .poll false, .countIn 0]
    Run.Guarded Drain.step Drain.Possible .start events
      ∧ (Run.exec Drain.step .start events).shutdown = .drained
      ∧ (Run.exec Drain.step .start events).handlers = [.proxying]
      ∧ ¬ (Run.exec Drain.step .start events).Complete := by
  decide

end KongGateway.GatewayCore

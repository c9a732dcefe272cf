import KongGateway.Kong.Clustering.Rpc

/-!
# Answers — every call gets its own answer

A future is either open, with its callback registered and no response to
it arrived, or answered, with the callback gone after one run. The
identifiers of a transport are never used twice, so a response reaches
the future it is for and no other.
-/

namespace KongGateway.Kong.Clustering.Rpc

variable {V : Type}

/-! ## Responses that were built by a peer -/

/-- A response carries a result, or an error with its message. -/
def Response.Built (r : Response V) : Prop := r.result.isSome ∨ r.error.isSome

theorem reply_response {id : Id} {reply : Reply V} {r : Response V}
    (h : reply.response id = some r) : r.id = some id ∧ r.Built := by
  cases reply with
  | result v =>
    obtain rfl := Option.some.inj h
    exact ⟨rfl, .inl rfl⟩
  | error code msg =>
    cases msg with
    | other => cases h
    | _ =>
      obtain rfl := Option.some.inj h
      exact ⟨rfl, .inr rfl⟩

/-! ## The log of arrivals -/

section Log

variable {f : Future V} {log : List (Transport × Response V)}

/-- A response for the future. -/
def Future.isFor (f : Future V) (arrival : Transport × Response V) : Bool :=
  arrival.1 = f.transport ∧ arrival.2.id = some f.id

/-- The first response for the future since it was started. -/
def Future.first (f : Future V) (log : List (Transport × Response V)) :
    Option (Transport × Response V) :=
  (log.drop f.started).find? f.isFor

theorem Future.answer_of_open (h : f.ended = none) :
    f.answer log = (f.first log).map Prod.snd := by
  simp only [Future.answer, Future.first, h, Option.getD_none, List.take_length]
  rfl

theorem Future.answer_append_of_ended {n : Nat} (h : f.ended = some n) (hn : n ≤ log.length)
    (arrival : Transport × Response V) : f.answer (log ++ [arrival]) = f.answer log := by
  simp only [Future.answer, h, Option.getD_some]
  rw [List.take_append_of_le_length hn]

theorem Future.first_append (hstarted : f.started ≤ log.length)
    (arrival : Transport × Response V) :
    f.first (log ++ [arrival])
      = (f.first log).or (if f.isFor arrival then some arrival else none) := by
  rw [Future.first, Future.first, List.drop_append_of_le_length hstarted, List.find?_append]
  cases hfor : f.isFor arrival <;> simp [hfor]

end Log

/-! ## The invariant -/

/-- The future holds what the response says. -/
def Future.Holds (f : Future V) (r : Response V) : Prop :=
  (r.result.isSome ∧ f.state = .succeed ∧ f.result = r.result)
    ∨ (r.result = none ∧ f.state = .errored ∧ f.error = r.error)

/-- The callback is registered and nothing has arrived. -/
structure Future.Open (s : Calls V) (c : Nat) (f : Future V) : Prop where
  registered : s.interest.get (f.transport, f.id) = some c
  runs : f.runs = 0
  state : f.state = .inProgress
  sema : f.sema = 0
  nothing : f.first s.arrivals = none

/-- The callback has run with the first response. -/
structure Future.Answered (s : Calls V) (f : Future V) : Prop where
  unregistered : s.interest.get (f.transport, f.id) = none
  runs : f.runs = 1
  sema : f.ended = none → f.sema = 1
  holds : ∃ transport r, f.first s.arrivals = some (transport, r) ∧ r.Built ∧ f.Holds r

/-- The caller is where it should be. -/
def Future.InPhase (s : Calls V) (f : Future V) : Prop :=
  match f.phase with
  | .enqueuing => f.ended = none
  | .waiting => f.ended = none
  | .returned out => f.ended.isSome ∧ out = match f.answer s.arrivals with
      | some r => r.outcome
      | none => .error "timeout"
  | .notSent => f.ended.isSome
  | .waitFailed => False
  | .noMessage => False

structure Future.Sound (s : Calls V) (c : Nat) (f : Future V) : Prop where
  used : ∃ n < s.sequence f.transport, f.id = .number n
  started : f.started ≤ s.arrivals.length
  ended : ∀ n, f.ended = some n → n ≤ s.arrivals.length
  status : f.Open s c ∨ f.Answered s
  inPhase : f.InPhase s

structure Calls.Inv (s : Calls V) : Prop where
  sound : ∀ c f, s.futures.get c = some f → f.Sound s c
  distinct : ∀ c c' f f', s.futures.get c = some f → s.futures.get c' = some f' →
    f.transport = f'.transport → f.id = f'.id → c = c'
  registered : ∀ transport id c, s.interest.get (transport, id) = some c →
    ∃ f, s.futures.get c = some f ∧ f.transport = transport ∧ f.id = id

/-! ## What a sound future gives -/

theorem Future.Holds.outcome {f : Future V} {r : Response V} (h : f.Holds r) (hbuilt : r.Built) :
    f.outcome = .returned r.outcome := by
  rcases h with ⟨hresult, hstate, hf⟩ | ⟨hresult, hstate, hf⟩
  · obtain ⟨v, hv⟩ := Option.isSome_iff_exists.mp hresult
    simp [Future.outcome, Response.outcome, hstate, hf, hv]
  · have herror : r.error.isSome := by
      rcases hbuilt with hres | herr
      · rw [hresult] at hres
        cases hres
      · exact herr
    obtain ⟨e, he⟩ := Option.isSome_iff_exists.mp herror
    simp only [Future.outcome, Response.outcome, hstate, hf, he, hresult]

theorem Future.Sound.settled {s : Calls V} {c : Nat} {f : Future V} (hget : s.futures.get c = some f)
    (h : f.Sound s c) : f.Settled s c := by
  have hphase := h.inPhase
  unfold Future.InPhase at hphase
  refine ⟨?_, ?_, ?_, ?_, ?_⟩
  · intro hp
    rw [hp] at hphase
    exact hphase
  · intro hp
    rw [hp] at hphase
    exact hphase
  · rcases h.status with hopen | hanswered
    · rw [hopen.runs]
      exact Nat.zero_le 1
    · rw [hanswered.runs]
  · intro out hp
    rw [hp] at hphase
    exact hphase.2
  · intro hp r hr
    rw [hp] at hphase
    dsimp only at hphase
    rw [Future.answer_of_open hphase] at hr
    obtain ⟨⟨transport, r'⟩, hfirst, rfl⟩ := Option.map_eq_some_iff.mp hr
    rcases h.status with hopen | hanswered
    · rw [hopen.nothing] at hfirst
      cases hfirst
    · obtain ⟨transport', r'', hfirst', hbuilt, hholds⟩ := hanswered.holds
      obtain ⟨-, rfl⟩ := Prod.mk.inj (Option.some.inj (hfirst.symm.trans hfirst'))
      refine ⟨({ f with sema := 0 } : Future V).finish s.arrivals.length f.outcome, ?_,
        hholds.outcome hbuilt⟩
      simp only [Calls.step, hget, hp, hanswered.sema hphase]
      exact LuaTable.get_set_self _ _ _

/-! ## Steps of one call -/

section OneCall

variable {s s' : Calls V} {c : Nat} {f f' : Future V}

theorem Future.Sound.congr (h : f.Sound s c) (hinterest : s'.interest = s.interest)
    (hsequence : s'.sequence = s.sequence) (harrivals : s'.arrivals = s.arrivals) :
    f.Sound s' c := by
  refine ⟨?_, ?_, ?_, ?_, ?_⟩
  · rw [hsequence]
    exact h.used
  · rw [harrivals]
    exact h.started
  · rw [harrivals]
    exact h.ended
  · rcases h.status with hopen | hanswered
    · refine .inl ⟨?_, hopen.runs, hopen.state, hopen.sema, ?_⟩
      · rw [hinterest]
        exact hopen.registered
      · rw [harrivals]
        exact hopen.nothing
    · refine .inr ⟨?_, hanswered.runs, hanswered.sema, ?_⟩
      · rw [hinterest]
        exact hanswered.unregistered
      · rw [harrivals]
        exact hanswered.holds
  · unfold Future.InPhase
    rw [harrivals]
    exact h.inPhase

theorem Future.InPhase.not_ended (h : f.InPhase s)
    (hphase : f.phase = .enqueuing ∨ f.phase = .waiting) : f.ended = none := by
  unfold Future.InPhase at h
  rcases hphase with hphase | hphase
  · rw [hphase] at h
    exact h
  · rw [hphase] at h
    exact h

/-- A call that goes on keeps its transport and identifier, and so do the
others. -/
theorem Calls.get_set_same (hget : s.futures.get c = some f)
    (htransport : f'.transport = f.transport) (hid : f'.id = f.id) {c₁ : Nat} {g : Future V}
    (hg : (s.futures.set c (some f')).get c₁ = some g) :
    ∃ g', s.futures.get c₁ = some g' ∧ g.transport = g'.transport ∧ g.id = g'.id := by
  rcases LuaTable.get_set_some_cases hg with ⟨rfl, rfl⟩ | ⟨-, hg⟩
  · exact ⟨f, hget, htransport, hid⟩
  · exact ⟨g, hg, rfl, rfl⟩

theorem Calls.Inv.distinct_set (h : s.Inv) (hget : s.futures.get c = some f)
    (htransport : f'.transport = f.transport) (hid : f'.id = f.id) (c₁ c₂ : Nat)
    (g₁ g₂ : Future V) (hg₁ : (s.futures.set c (some f')).get c₁ = some g₁)
    (hg₂ : (s.futures.set c (some f')).get c₂ = some g₂) (ht : g₁.transport = g₂.transport)
    (hi : g₁.id = g₂.id) : c₁ = c₂ := by
  obtain ⟨g₁', hg₁', ht₁, hi₁⟩ := Calls.get_set_same hget htransport hid hg₁
  obtain ⟨g₂', hg₂', ht₂, hi₂⟩ := Calls.get_set_same hget htransport hid hg₂
  exact h.distinct c₁ c₂ g₁' g₂' hg₁' hg₂' (ht₁.symm.trans (ht.trans ht₂))
    (hi₁.symm.trans (hi.trans hi₂))

theorem Calls.Inv.registered_set (h : s.Inv) (hget : s.futures.get c = some f)
    (htransport : f'.transport = f.transport) (hid : f'.id = f.id) {transport : Transport}
    {id : Id} {c₁ : Nat} (hinterest : s.interest.get (transport, id) = some c₁) :
    ∃ g, (s.futures.set c (some f')).get c₁ = some g ∧ g.transport = transport ∧ g.id = id := by
  obtain ⟨g, hg, ht, hi⟩ := h.registered transport id c₁ hinterest
  by_cases heq : c₁ = c
  · subst heq
    obtain rfl := Option.some.inj (hget.symm.trans hg)
    exact ⟨f', LuaTable.get_set_self _ _ _, htransport.trans ht, hid.trans hi⟩
  · exact ⟨g, (LuaTable.get_set_ne _ heq _).trans hg, ht, hi⟩

theorem Calls.Inv.set (h : s.Inv) (hget : s.futures.get c = some f)
    (htransport : f'.transport = f.transport) (hid : f'.id = f.id) (hsound : f'.Sound s c) :
    (s.set c f').Inv := by
  refine ⟨?_, h.distinct_set hget htransport hid, fun transport id c₁ hinterest =>
    h.registered_set hget htransport hid hinterest⟩
  intro c₁ g hg
  rcases LuaTable.get_set_some_cases hg with ⟨rfl, rfl⟩ | ⟨-, hg⟩
  · exact hsound.congr rfl rfl rfl
  · exact (h.sound c₁ g hg).congr rfl rfl rfl

theorem Future.Sound.answer_cases (h : f.Sound s c) (hended : f.ended = none) :
    (f.Open s c ∧ f.answer s.arrivals = none)
      ∨ (f.Answered s ∧ ∃ r, f.answer s.arrivals = some r ∧ r.Built ∧ f.Holds r) := by
  rw [Future.answer_of_open hended]
  rcases h.status with hopen | hanswered
  · exact .inl ⟨hopen, by rw [hopen.nothing]; rfl⟩
  · obtain ⟨transport, r, hfirst, hbuilt, hholds⟩ := hanswered.holds
    exact .inr ⟨hanswered, r, by rw [hfirst]; rfl, hbuilt, hholds⟩

theorem Future.Sound.finish (h : f.Sound s c) {phase : CallPhase V} {sema : Nat}
    (hsema : f.Open s c → sema = 0)
    (hphase : (({ f with sema := sema } : Future V).finish s.arrivals.length phase).InPhase s) :
    (({ f with sema := sema } : Future V).finish s.arrivals.length phase).Sound s c := by
  refine ⟨h.used, h.started, ?_, ?_, hphase⟩
  · intro n hn
    exact Nat.le_of_eq (Option.some.inj hn).symm
  · rcases h.status with hopen | hanswered
    · exact .inl ⟨hopen.registered, hopen.runs, hopen.state, hsema hopen, hopen.nothing⟩
    · exact .inr ⟨hanswered.unregistered, hanswered.runs, fun hended => absurd hended (by
        simp [Future.finish]), hanswered.holds⟩

theorem Future.answer_finish (hended : f.ended = none) (sema : Nat) (phase : CallPhase V) :
    (({ f with sema := sema } : Future V).finish s.arrivals.length phase).answer s.arrivals
      = f.answer s.arrivals := by
  simp only [Future.answer, Future.finish, hended, Option.getD_none, Option.getD_some]
  rfl

theorem Calls.Inv.enqueued (h : s.Inv) {ok : Bool} (htimely : s.Timely (.enqueued c ok)) :
    (s.step (.enqueued c ok)).Inv := by
  dsimp only [Calls.step]
  cases hget : s.futures.get c with
  | none => exact h
  | some f =>
    have hsound := h.sound c f hget
    dsimp only
    split
    · rename_i hphase
      have hended := hsound.inPhase.not_ended (.inl hphase)
      cases ok with
      | true =>
        rcases hsound.answer_cases hended with ⟨hopen, -⟩ | ⟨-, r, hr, -⟩
        · have hwait : f.beginWait s.arrivals.length = { f with phase := .waiting } := by
            rw [Future.beginWait, if_pos hopen.state]
          rw [if_pos rfl, hwait]
          refine h.set hget rfl rfl ⟨hsound.used, hsound.started, hsound.ended, .inl ?_, hended⟩
          exact ⟨hopen.registered, hopen.runs, hopen.state, hopen.sema, hopen.nothing⟩
        · have hnone := htimely f hget rfl
          rw [hr] at hnone
          cases hnone
      | false =>
        rw [if_neg (by simp)]
        exact h.set hget rfl rfl (hsound.finish (fun hopen => hopen.sema) rfl)
    · exact h

theorem Calls.Inv.wake (h : s.Inv) : (s.step (.wake c)).Inv := by
  dsimp only [Calls.step]
  cases hget : s.futures.get c with
  | none => exact h
  | some f =>
    have hsound := h.sound c f hget
    dsimp only
    split
    · rename_i sema hphase hsema
      have hended := hsound.inPhase.not_ended (.inr hphase)
      have hnotOpen : ¬ f.Open s c := by
        intro hopen
        have hzero := hopen.sema
        omega
      refine h.set hget rfl rfl (hsound.finish (fun hopen => absurd hopen hnotOpen) ?_)
      rcases hsound.answer_cases hended with ⟨hopen, -⟩ | ⟨-, r, hr, hbuilt, hholds⟩
      · exact absurd hopen hnotOpen
      · rw [hholds.outcome hbuilt]
        refine ⟨rfl, ?_⟩
        rw [Future.answer_finish hended, hr]
    · exact h

theorem Calls.Inv.timeout (h : s.Inv) : (s.step (.timeout c)).Inv := by
  dsimp only [Calls.step]
  cases hget : s.futures.get c with
  | none => exact h
  | some f =>
    have hsound := h.sound c f hget
    dsimp only
    split
    · rename_i hphase hsema
      have hended := hsound.inPhase.not_ended (.inr hphase)
      refine h.set hget rfl rfl (hsound.finish (fun hopen => hopen.sema) ?_)
      rcases hsound.answer_cases hended with ⟨-, hnone⟩ | ⟨hanswered, -⟩
      · refine ⟨rfl, ?_⟩
        rw [Future.answer_finish hended, hnone]
      · have hone := hanswered.sema hended
        omega
    · exact h

end OneCall

/-! ## A new call -/

section NewCall

variable {s : Calls V} {c : Nat}

/-- The future of a call that has just been made. -/
structure Future.Fresh (s : Calls V) (via : Transport) (f : Future V) : Prop where
  transport : f.transport = via
  id : f.id = .number (s.sequence via)
  state : f.state = .inProgress
  sema : f.sema = 0
  runs : f.runs = 0
  started : f.started = s.arrivals.length
  ended : ∀ n, f.ended = some n → n = s.arrivals.length
  phase : (f.phase = .enqueuing ∧ f.ended = none) ∨ (f.phase = .waiting ∧ f.ended = none)
    ∨ (f.phase = .notSent ∧ f.ended.isSome)

/-- The calls with a new one, as `start` leaves them. -/
def Calls.started (s : Calls V) (c : Nat) (transport : Transport) (f : Future V) : Calls V :=
  { s with
    interest := s.interest.set (transport, .number (s.sequence transport)) (some c)
    sequence := Function.update s.sequence transport (s.sequence transport + 1)
    futures := s.futures.set c (some f) }

theorem Calls.start_eq (s : Calls V) (c : Nat) (transport : Transport) (sent : Bool) :
    ∃ f, f.Fresh s transport ∧ s.start c transport sent = s.started c transport f := by
  refine ⟨_, ?_, rfl⟩
  cases transport with
  | concentrator => exact ⟨rfl, rfl, rfl, rfl, rfl, rfl, (fun n hn => by cases hn),
      .inl ⟨rfl, rfl⟩⟩
  | socket n =>
    cases sent with
    | true =>
      exact ⟨rfl, rfl, rfl, rfl, rfl, rfl, (fun n hn => by cases hn),
        .inr (.inl ⟨rfl, rfl⟩)⟩
    | false =>
      exact ⟨rfl, rfl, rfl, rfl, rfl, rfl, fun n hn => (Option.some.inj hn).symm,
        .inr (.inr ⟨rfl, rfl⟩)⟩

theorem Calls.Inv.new_id (h : s.Inv) (transport : Transport) {c' : Nat} {g : Future V}
    (hg : s.futures.get c' = some g) :
    (g.transport, g.id) ≠ (transport, Id.number (s.sequence transport)) := by
  intro heq
  obtain ⟨n, hn, hid⟩ := (h.sound c' g hg).used
  obtain ⟨rfl, hid'⟩ := Prod.mk.inj heq
  rw [hid] at hid'
  have hint := Id.number.inj hid'
  omega

theorem Future.Fresh.sound {transport : Transport} {f : Future V} (hfresh : f.Fresh s transport) :
    f.Sound (s.started c transport f) c := by
  refine ⟨⟨s.sequence transport, ?_, hfresh.id⟩, Nat.le_of_eq hfresh.started,
    fun n hn => Nat.le_of_eq (hfresh.ended n hn), .inl ⟨?_, hfresh.runs, hfresh.state,
      hfresh.sema, ?_⟩, ?_⟩
  · rw [hfresh.transport]
    simp [Calls.started]
  · rw [hfresh.transport, hfresh.id]
    exact LuaTable.get_set_self _ _ _
  · show f.first s.arrivals = none
    rw [Future.first, hfresh.started, List.drop_length]
    rfl
  · unfold Future.InPhase
    rcases hfresh.phase with ⟨hp, hended⟩ | ⟨hp, hended⟩ | ⟨hp, hended⟩
    · rw [hp]
      exact hended
    · rw [hp]
      exact hended
    · rw [hp]
      exact hended

theorem Future.Sound.started_other {transport : Transport} {f g : Future V} {c' : Nat}
    (hsound : g.Sound s c')
    (hother : (g.transport, g.id) ≠ (transport, Id.number (s.sequence transport))) :
    g.Sound (s.started c transport f) c' := by
  have hinterest : (s.started c transport f).interest.get (g.transport, g.id)
      = s.interest.get (g.transport, g.id) := LuaTable.get_set_ne _ hother _
  refine ⟨?_, hsound.started, hsound.ended, ?_, hsound.inPhase⟩
  · obtain ⟨n, hn, hid⟩ := hsound.used
    refine ⟨n, ?_, hid⟩
    dsimp only [Calls.started]
    by_cases heq : g.transport = transport
    · rw [heq, Function.update_self]
      rw [heq] at hn
      omega
    · rw [Function.update_of_ne heq]
      exact hn
  · rcases hsound.status with hopen | hanswered
    · exact .inl ⟨hinterest.trans hopen.registered, hopen.runs, hopen.state, hopen.sema,
        hopen.nothing⟩
    · exact .inr ⟨hinterest.trans hanswered.unregistered, hanswered.runs, hanswered.sema,
        hanswered.holds⟩

theorem Calls.Inv.start (h : s.Inv) (hnew : s.futures.get c = none) (transport : Transport)
    (sent : Bool) : (s.start c transport sent).Inv := by
  obtain ⟨f, hfresh, hstart⟩ := Calls.start_eq s c transport sent
  rw [hstart]
  have hkey : (f.transport, f.id) = (transport, Id.number (s.sequence transport)) := by
    rw [hfresh.transport, hfresh.id]
  refine ⟨?_, ?_, ?_⟩
  · intro c' g hg
    rcases LuaTable.get_set_some_cases hg with ⟨rfl, rfl⟩ | ⟨-, hg⟩
    · exact hfresh.sound
    · exact (h.sound c' g hg).started_other (h.new_id transport hg)
  · intro c₁ c₂ g₁ g₂ hg₁ hg₂ ht hi
    have hpair : (g₁.transport, g₁.id) = (g₂.transport, g₂.id) := by rw [ht, hi]
    rcases LuaTable.get_set_some_cases hg₁ with ⟨hc₁, hf₁⟩ | ⟨-, hg₁'⟩
    · rcases LuaTable.get_set_some_cases hg₂ with ⟨hc₂, -⟩ | ⟨-, hg₂'⟩
      · rw [hc₁, hc₂]
      · rw [hf₁] at hpair
        exact absurd (hpair.symm.trans hkey) (h.new_id transport hg₂')
    · rcases LuaTable.get_set_some_cases hg₂ with ⟨-, hf₂⟩ | ⟨-, hg₂'⟩
      · rw [hf₂] at hpair
        exact absurd (hpair.trans hkey) (h.new_id transport hg₁')
      · exact h.distinct c₁ c₂ g₁ g₂ hg₁' hg₂' ht hi
  · intro t id c' hinterest
    dsimp only [Calls.started] at hinterest
    rw [LuaTable.get_set] at hinterest
    split at hinterest
    · rename_i heq
      obtain rfl := Option.some.inj hinterest
      obtain ⟨rfl, rfl⟩ := Prod.mk.inj (hkey.trans heq.symm)
      exact ⟨f, LuaTable.get_set_self _ _ _, rfl, rfl⟩
    · obtain ⟨g, hg, ht, hi⟩ := h.registered t id c' hinterest
      have hne : c' ≠ c := by
        rintro rfl
        rw [hnew] at hg
        cases hg
      exact ⟨g, (LuaTable.get_set_ne _ hne _).trans hg, ht, hi⟩

end NewCall

/-! ## A response -/

section Respond

variable {s : Calls V} {c : Nat} {f : Future V} {transport : Transport} {id : Id}
  {r : Response V}

/-- The calls once a response is in the log. -/
def Calls.log (s : Calls V) (transport : Transport) (r : Response V) : Calls V :=
  { s with arrivals := s.arrivals ++ [(transport, r)] }

theorem Future.InPhase.log (h : f.InPhase s) (transport : Transport) (r : Response V) (hended : ∀ n, f.ended = some n →
    n ≤ s.arrivals.length) : f.InPhase (s.log transport r) := by
  unfold Future.InPhase at h ⊢
  cases hphase : f.phase with
  | returned out =>
    rw [hphase] at h
    obtain ⟨hsome, hout⟩ := h
    obtain ⟨n, hn⟩ := Option.isSome_iff_exists.mp hsome
    refine ⟨hsome, ?_⟩
    rw [Calls.log, Future.answer_append_of_ended hn (hended n hn)]
    exact hout
  | _ =>
    rw [hphase] at h
    exact h

theorem Future.Sound.log (h : f.Sound s c) (transport : Transport) (r : Response V)
    (hlate : f.isFor (transport, r) = false ∨ f.Answered s) {s' : Calls V} (hinterest : s'.interest.get (f.transport, f.id)
      = s.interest.get (f.transport, f.id))
    (hsequence : s'.sequence = s.sequence)
    (harrivals : s'.arrivals = s.arrivals ++ [(transport, r)]) : f.Sound s' c := by
  refine ⟨?_, ?_, ?_, ?_, ?_⟩
  · rw [hsequence]
    exact h.used
  · rw [harrivals, List.length_append]
    exact Nat.le_add_right_of_le h.started
  · intro n hn
    rw [harrivals, List.length_append]
    exact Nat.le_add_right_of_le (h.ended n hn)
  · rcases h.status with hopen | hanswered
    · refine .inl ⟨hinterest.trans hopen.registered, hopen.runs, hopen.state, hopen.sema, ?_⟩
      rcases hlate with hother | hanswered
      · rw [harrivals, Future.first_append h.started, hopen.nothing, hother]
        rfl
      · have hrun := hanswered.runs
        rw [hopen.runs] at hrun
        cases hrun
    · refine .inr ⟨hinterest.trans hanswered.unregistered, hanswered.runs, hanswered.sema, ?_⟩
      obtain ⟨t, r', hfirst, hbuilt, hholds⟩ := hanswered.holds
      refine ⟨t, r', ?_, hbuilt, hholds⟩
      rw [harrivals, Future.first_append h.started, hfirst]
      rfl
  · have hlog := h.inPhase.log transport r h.ended
    unfold Future.InPhase at hlog ⊢
    rw [harrivals]
    exact hlog

theorem Future.Sound.callback (h : f.Sound s c) (hopen : f.Open s c) (hbuilt : r.Built)
    (hfor : f.isFor (transport, r) = true) {s' : Calls V}
    (hinterest : s'.interest.get (f.transport, f.id) = none)
    (hsequence : s'.sequence = s.sequence)
    (harrivals : s'.arrivals = s.arrivals ++ [(transport, r)]) : (f.callback r).Sound s' c := by
  have hfields : (f.callback r).transport = f.transport ∧ (f.callback r).id = f.id
      ∧ (f.callback r).started = f.started ∧ (f.callback r).ended = f.ended
      ∧ (f.callback r).phase = f.phase ∧ (f.callback r).runs = f.runs + 1
      ∧ (f.callback r).sema = f.sema + 1 := by
    unfold Future.callback
    split <;> exact ⟨rfl, rfl, rfl, rfl, rfl, rfl, rfl⟩
  obtain ⟨htransport, hid, hstarted, hended, hphase, hruns, hsema⟩ := hfields
  have hholds : (f.callback r).Holds r := by
    unfold Future.callback
    split
    · rename_i hsome
      exact .inl ⟨hsome, rfl, rfl⟩
    · rename_i hnone
      exact .inr ⟨by simpa using hnone, rfl, rfl⟩
  refine ⟨?_, ?_, ?_, .inr ⟨?_, ?_, ?_, transport, r, ?_, hbuilt, hholds⟩, ?_⟩
  · rw [htransport, hid, hsequence]
    exact h.used
  · rw [hstarted, harrivals, List.length_append]
    exact Nat.le_add_right_of_le h.started
  · intro n hn
    rw [hended] at hn
    rw [harrivals, List.length_append]
    exact Nat.le_add_right_of_le (h.ended n hn)
  · rw [htransport, hid]
    exact hinterest
  · rw [hruns, hopen.runs]
  · intro _
    rw [hsema, hopen.sema]
  · have hfirst : (f.callback r).first s'.arrivals = f.first s'.arrivals := by
      unfold Future.first Future.isFor
      rw [htransport, hid, hstarted]
    rw [hfirst, harrivals, Future.first_append h.started, hopen.nothing, hfor]
    rfl
  · have hlog := h.inPhase.log transport r h.ended
    have hanswer : (f.callback r).answer s'.arrivals = f.answer (s.arrivals ++ [(transport, r)]) := by
      unfold Future.answer
      rw [harrivals, htransport, hid, hstarted, hended]
    unfold Future.InPhase at hlog ⊢
    rw [hphase, hended, hanswer]
    exact hlog

theorem Calls.Inv.process (h : s.Inv) (hid : r.id = some id) (hbuilt : r.Built) :
    ((s.log transport r).process transport id r).Inv := by
  have hfor : ∀ {g : Future V}, g.isFor (transport, r) = true
      ↔ (g.transport, g.id) = (transport, id) := by
    intro g
    simp only [Future.isFor, hid, decide_eq_true_eq, Option.some.injEq, Prod.mk.injEq]
    exact ⟨fun heq => ⟨heq.1.symm, heq.2.symm⟩, fun heq => ⟨heq.1.symm, heq.2.symm⟩⟩
  cases hinterest : s.interest.get (transport, id) with
  | none =>
    have hprocess : (s.log transport r).process transport id r = s.log transport r := by
      simp only [Calls.process, Calls.log, hinterest]
    rw [hprocess]
    refine ⟨?_, h.distinct, h.registered⟩
    intro c g hg
    have hsound := h.sound c g hg
    refine hsound.log transport r ?_ rfl rfl rfl
    cases hmatch : g.isFor (transport, r) with
    | false => exact .inl rfl
    | true =>
      rcases hsound.status with hopen | hanswered
      · have hregistered := hopen.registered
        rw [hfor.mp hmatch] at hregistered
        cases hinterest.symm.trans hregistered
      · exact .inr hanswered
  | some c =>
    obtain ⟨f, hget, ht, hi⟩ := h.registered transport id c hinterest
    have hkey : (f.transport, f.id) = (transport, id) := by rw [ht, hi]
    have hsound := h.sound c f hget
    have hopen : f.Open s c := by
      rcases hsound.status with hopen | hanswered
      · exact hopen
      · have hnone := hanswered.unregistered
        rw [hkey] at hnone
        cases hnone.symm.trans hinterest
    have hprocess : (s.log transport r).process transport id r
        = { s.log transport r with
            interest := s.interest.set (transport, id) none
            futures := s.futures.set c (some (f.callback r)) } := by
      simp only [Calls.process, Calls.log, hinterest, hget]
      rfl
    have hcallback : (f.callback r).transport = f.transport ∧ (f.callback r).id = f.id := by
      unfold Future.callback
      split <;> exact ⟨rfl, rfl⟩
    rw [hprocess]
    refine ⟨?_, h.distinct_set hget hcallback.1 hcallback.2, ?_⟩
    · intro c' g hg
      rcases LuaTable.get_set_some_cases hg with ⟨rfl, rfl⟩ | ⟨hne, hg⟩
      · refine hsound.callback hopen hbuilt (hfor.mpr hkey) ?_ rfl rfl
        rw [hkey]
        exact LuaTable.get_set_self _ _ _
      · -- another call has another identifier
        have hother : (g.transport, g.id) ≠ (transport, id) := by
          intro heq
          obtain ⟨ht', hi'⟩ := Prod.mk.inj (heq.trans hkey.symm)
          exact hne (h.distinct c' c g f hg hget ht' hi')
        refine (h.sound c' g hg).log transport r (.inl ?_)
          (LuaTable.get_set_ne _ hother _) rfl rfl
        rw [← Bool.not_eq_true, hfor]
        exact hother
    · intro t i c' hregistered
      dsimp only at hregistered
      rw [LuaTable.get_set] at hregistered
      split at hregistered
      · cases hregistered
      · exact h.registered_set hget hcallback.1 hcallback.2 hregistered

end Respond

/-! ## Every run -/

theorem Calls.Inv.init : ({} : Calls V).Inv := by
  refine ⟨fun c f hget => ?_, fun c c' f f' hget => ?_, fun transport id c hget => ?_⟩
  · rw [LuaTable.get_empty] at hget
    cases hget
  · rw [LuaTable.get_empty] at hget
    cases hget
  · rw [LuaTable.get_empty] at hget
    cases hget

theorem Calls.Inv.step {s : Calls V} (h : s.Inv) (input : CallInput V) (htimely : s.Timely input) :
    (s.step input).Inv := by
  cases input with
  | call c transport sent =>
    dsimp only [Calls.step]
    split
    · rename_i hnew
      exact h.start hnew transport sent
    · exact h
  | enqueued c ok => exact h.enqueued htimely
  | respond transport id reply =>
    dsimp only [Calls.step]
    cases hreply : reply.response id with
    | none => exact h
    | some r =>
      obtain ⟨hid, hbuilt⟩ := reply_response hreply
      exact h.process hid hbuilt
  | wake c => exact h.wake
  | timeout c => exact h.timeout

/-- In every run in which no response overtakes the query of its request,
every call of every transport is settled by its own answer. -/
theorem calls_end_with_own_answer (inputs : List (CallInput V))
    (h : Run.Guarded Calls.step Calls.Timely {} inputs) (c : Nat) (f : Future V)
    (hget : (Run.exec Calls.step {} inputs).futures.get c = some f) :
    f.Settled (Run.exec Calls.step {} inputs) c := by
  have hinv : (Run.exec Calls.step ({} : Calls V) inputs).Inv :=
    Run.Guarded.invariant (fun s input hs htimely => hs.step input htimely) Calls.Inv.init h
  exact (hinv.sound c f hget).settled hget

/-- Two calls with the same identifier over two transports, one answered
with an error. -/
def twoTransports : List (CallInput Nat) :=
  [.call 0 (.socket 1) true, .call 1 .concentrator true, .enqueued 1 true,
    .respond (.socket 1) (.number 0) (.result 7),
    .respond .concentrator (.number 0) (.error .serverError (.text "no")), .wake 0, .wake 1]

theorem two_transports_answered :
    ∃ f, (Run.exec Calls.step {} twoTransports).futures.get 1 = some f
      ∧ f.phase = .returned (.error "no")
      ∧ f.Settled (Run.exec Calls.step {} twoTransports) 1 := by
  have htimely : Run.Guarded Calls.step Calls.Timely {} twoTransports := by
    refine ⟨trivial, trivial, ?_, trivial, trivial, trivial, trivial, trivial⟩
    intro f _ _
    change (f.answer []).isNone
    simp [Future.answer]
  exact ⟨_, rfl, rfl, calls_end_with_own_answer twoTransports htimely 1 _ rfl⟩

/-- The response comes before the query of its request has returned, and
`wait` finds the future in a state it does not expect. -/
theorem response_overtakes_query :
    ¬ ∀ f, (Run.exec Calls.step ({} : Calls Nat)
        [.call 0 .concentrator true, .respond .concentrator (.number 0) (.result 7),
          .enqueued 0 true]).futures.get 0 = some f →
      f.Settled (Run.exec Calls.step ({} : Calls Nat)
        [.call 0 .concentrator true, .respond .concentrator (.number 0) (.result 7),
          .enqueued 0 true]) 0 := by
  intro h
  exact (h _ rfl).noAssertion rfl

end KongGateway.Kong.Clustering.Rpc

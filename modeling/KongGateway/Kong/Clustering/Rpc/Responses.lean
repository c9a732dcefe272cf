import Mathlib.Data.List.Perm.Basic
import KongGateway.Kong.Clustering.Rpc.Socket

/-!
# Responses — requests and the messages that answer them

A message is seen through the identifiers it carries. A single request
calls for one response with its identifier; a batch calls for one message
with an entry for each of its requests and for each of its items that is
no object, the latter without an identifier.
-/

namespace KongGateway.Kong.Clustering.Rpc

variable {V : Type}

/-! ## Runs -/

/-- A socket, with the frames the read thread has taken so far. -/
structure Connection (V : Type) where
  socket : Socket V := {}
  received : List (Frame V) := []

/-- A frame is read, or a timer fires. -/
inductive Input (V : Type) where
  | frame (f : Frame V)
  | timer (k : Nat) (premature : Bool) (outcome : Outcome V)

namespace Connection

/-- `_dispatch` as a timer calls it. -/
def fire (s : Socket V) (k : Nat) (premature : Bool) (outcome : Outcome V) : Socket V :=
  match s.timers[k]? with
  | none => s
  | some payload =>
    let s' := { s with timers := s.timers.eraseIdx k }
    if premature then s' else (s'.dispatch none payload outcome).1

/-- Frames are read until one is not handled. -/
def step (env : Socket.Env) (c : Connection V) : Input V → Connection V
  | .frame f =>
    if c.socket.reading then
      let (s, status) := c.socket.receive env f
      { socket := { s with reading := status = .handled }, received := c.received ++ [f] }
    else c
  | .timer k premature outcome => { c with socket := fire c.socket k premature outcome }

end Connection

/-! ## What is called for -/

/-- The identifiers of a message. Single messages without one are pings,
pongs and notices about frames that could not be read. -/
inductive Shape where
  | single (id : Id)
  | batch (ids : List (Option Id))
  deriving DecidableEq, Repr

def Message.shape : Message V → Option Shape
  | .response r => r.id.map .single
  | .batch rs => some (.batch (rs.map Response.id))

/-- What a dispatch that waits on its timer is going to push. -/
def Payload.shape (payload : Payload V) : Option Shape := payload.id.map .single

/-- The identifier of a request. -/
def Payload.request (payload : Payload V) : Option Id := payload.method.bind fun _ => payload.id

/-- The identifier in the answer to an item of a batch, if the item calls
for one. -/
def Item.answered : Item V → Option (Option Id)
  | .object payload => payload.request.map some
  | _ => some none

def Frame.expected : Frame V → List Shape
  | .single a =>
    match a.item with
    | .object payload => (payload.request.map Shape.single).toList
    | _ => []
  | .batch arrivals =>
    let ids := arrivals.filterMap fun a => a.item.answered
    if ids.isEmpty then [] else [.batch ids]

/-- **One to one**: what was pushed and what the timers are going to push
is what the frames call for. -/
def Connection.OneToOne (c : Connection V) : Prop :=
  (c.socket.outgoing.filterMap Message.shape ++ c.socket.timers.filterMap Payload.shape).Perm
    (c.received.flatMap Frame.expected)

/-! ## When it is met -/

/-- The callback is reached and returns; where a response is due, with a
result or an error that can be put in words. -/
def Dispatches (payload : Payload V) (outcome : Outcome V) : Prop :=
  (∃ args, payload.params = some (.table args))
    ∧ match payload.id with
      | none => outcome ≠ .raised
      | some id => (answer id outcome).isSome

/-- An item of a batch that is a JSON-RPC object whose callback, if there
is one, is dispatched. -/
def Arrival.Proper (env : Socket.Env) (a : Arrival V) : Prop :=
  ∃ payload, a.item = .object payload ∧ payload.jsonrpc = some version
    ∧ ∀ method, payload.method = some method → env.registered method →
        Dispatches payload a.outcome

/-- A single item is a JSON-RPC object whose identifier can be formatted
as a number; in a batch that calls for a message every item is proper. -/
def Frame.Proper (env : Socket.Env) : Frame V → Prop
  | .single a => ∀ payload, a.item = .object payload → payload.jsonrpc = some version
      ∧ ∀ method, payload.method = some method → env.registered method → env.formats payload.id
  | .batch arrivals => (∃ a ∈ arrivals, a.item.answered ≠ none) →
      ∀ a ∈ arrivals, a.Proper env

/-- The timer of a request fires before the worker exits, and its callback
is dispatched. -/
def Input.Proper (env : Socket.Env) (c : Connection V) : Input V → Prop
  | .frame f => f.Proper env
  | .timer k premature outcome => ∀ payload, c.socket.timers[k]? = some payload →
      payload.id ≠ none → premature = false ∧ Dispatches payload outcome

/-! ## Dispatching -/

section Dispatch

variable (s : Socket V) (collection : Option (List (Response V))) {payload : Payload V}
  {outcome : Outcome V}

/-- A notification leaves everything as it is, whatever its callback
does. -/
theorem dispatch_of_notification (outcome : Outcome V) (hid : payload.id = none) :
    ∃ status, s.dispatch collection payload outcome = (s, collection, status) := by
  unfold Socket.dispatch
  split
  · rw [hid]
    cases outcome with
    | raised => exact ⟨_, rfl⟩
    | _ => exact ⟨_, rfl⟩
  · exact ⟨_, rfl⟩

theorem dispatch_of_handled_notification (hid : payload.id = none)
    (h : Dispatches payload outcome) :
    s.dispatch collection payload outcome = (s, collection, .handled) := by
  obtain ⟨⟨args, hparams⟩, houtcome⟩ := h
  rw [hid] at houtcome
  unfold Socket.dispatch
  rw [hparams, hid]
  cases outcome with
  | raised => exact absurd rfl houtcome
  | _ => rfl

/-- A request that is dispatched pushes one response with its identifier. -/
theorem dispatch_of_request {id : Id} (hid : payload.id = some id)
    (h : Dispatches payload outcome) :
    ∃ r : Response V, r.id = some id ∧ s.dispatch collection payload outcome
      = Socket.handled (s.pushResponse collection r) .handled := by
  obtain ⟨⟨args, hparams⟩, houtcome⟩ := h
  rw [hid] at houtcome
  obtain ⟨r, hr⟩ := Option.isSome_iff_exists.mp houtcome
  refine ⟨r, answer_id hr, ?_⟩
  unfold Socket.dispatch
  rw [hparams, hid]
  cases outcome with
  | raised => cases hr
  | _ =>
    dsimp only
    rw [hr]

end Dispatch

/-! ## Items of a batch -/

section Batch

variable (env : Socket.Env) (s : Socket V) (collected : List (Response V))

/-- Two sockets with the same messages, pushed and to come. -/
def Socket.SameMessages (s s' : Socket V) : Prop :=
  s'.outgoing = s.outgoing ∧ s'.timers = s.timers

theorem Socket.SameMessages.refl (s : Socket V) : s.SameMessages s := ⟨rfl, rfl⟩

theorem Socket.SameMessages.trans {s s' s'' : Socket V} (h : s.SameMessages s')
    (h' : s'.SameMessages s'') : s.SameMessages s'' :=
  ⟨h'.1.trans h.1, h'.2.trans h.2⟩

theorem processRpcMsg_of_unanswered {a : Arrival V} (h : a.item.answered = none) :
    ∃ s' status, s.processRpcMsg env (some collected) a = (s', some collected, status)
      ∧ s.SameMessages s' := by
  unfold Socket.processRpcMsg
  cases hitem : a.item with
  | scalar _ => simp [hitem, Item.answered] at h
  | array => simp [hitem, Item.answered] at h
  | object payload =>
    have hrequest : payload.request = none := by simpa [hitem, Item.answered] using h
    dsimp only [Item.table]
    split
    · exact ⟨s, _, rfl, .refl s⟩
    · cases hmethod : payload.method with
      | none =>
        cases payload.id with
        | none => exact ⟨s, _, rfl, .refl s⟩
        | some id => exact ⟨_, _, rfl, rfl, rfl⟩
      | some method =>
        have hid : payload.id = none := by simpa [Payload.request, hmethod] using hrequest
        dsimp only [Socket.invoke]
        rw [hid]
        split
        · exact ⟨s, _, rfl, .refl s⟩
        · obtain ⟨status, hdispatch⟩ := dispatch_of_notification s (some collected)
            a.outcome hid
          exact ⟨s, status, hdispatch, .refl s⟩

theorem processRpcMsg_of_proper {a : Arrival V} (h : a.Proper env) :
    ∃ s' rs, s.processRpcMsg env (some collected) a = (s', some (collected ++ rs), .handled)
      ∧ s.SameMessages s' ∧ rs.map Response.id = a.item.answered.toList := by
  obtain ⟨payload, hitem, hversion, hdispatches⟩ := h
  unfold Socket.processRpcMsg
  rw [hitem]
  dsimp only [Item.table]
  rw [if_neg (not_not.mpr hversion)]
  cases hmethod : payload.method with
  | none =>
    have hanswered : (Item.object payload).answered = none := by
      simp [Item.answered, Payload.request, hmethod]
    cases payload.id with
    | none => exact ⟨s, [], by simp, .refl s, by simp [hanswered]⟩
    | some id => exact ⟨{ s with interest := s.interest.erase id }, [], by simp, ⟨rfl, rfl⟩,
        by simp [hanswered]⟩
  | some method =>
    have hanswered : (Item.object payload).answered = payload.id.map some := by
      simp [Item.answered, Payload.request, hmethod]
    dsimp only [Socket.invoke]
    by_cases hregistered : env.registered method
    · rw [hregistered]
      have hd := hdispatches method hmethod hregistered
      cases hid : payload.id with
      | none =>
        refine ⟨s, [], ?_, .refl s, by simp [hanswered, hid]⟩
        simpa using dispatch_of_handled_notification s (some collected) hid hd
      | some id =>
        obtain ⟨r, hr, hdispatch⟩ := dispatch_of_request s (some collected) hid hd
        exact ⟨s, [r], hdispatch, .refl s, by simp [hanswered, hid, hr]⟩
    · rw [Bool.not_eq_true] at hregistered
      rw [hregistered]
      cases hid : payload.id with
      | none => exact ⟨s, [], by simp, .refl s, by simp [hanswered, hid]⟩
      | some id => exact ⟨s, [{ id := some id
                                error := some ⟨ErrorCode.methodNotFound.code,
                                  ErrorCode.methodNotFound.message⟩ }],
          rfl, .refl s, by simp [hanswered, hid]⟩

theorem processBatch_of_unanswered {arrivals : List (Arrival V)}
    (h : ∀ a ∈ arrivals, a.item.answered = none) :
    ∃ s' status, s.processBatch env collected arrivals = (s', collected, status)
      ∧ s.SameMessages s' := by
  induction arrivals generalizing s with
  | nil => exact ⟨s, _, rfl, .refl s⟩
  | cons a rest ih =>
    obtain ⟨s₁, status, hmsg, hsame⟩ := processRpcMsg_of_unanswered env s collected
      (h a List.mem_cons_self)
    rw [Socket.processBatch, hmsg]
    cases status with
    | handled =>
      obtain ⟨s₂, status, hrest, hsame'⟩ := ih s₁
        fun b hb => h b (List.mem_cons_of_mem a hb)
      exact ⟨s₂, status, hrest, hsame.trans hsame'⟩
    | _ => exact ⟨s₁, _, rfl, hsame⟩

/-- The loop collects the responses the items call for, in their order. -/
theorem processBatch_of_proper {arrivals : List (Arrival V)} (h : ∀ a ∈ arrivals, a.Proper env) :
    ∃ s' rs, s.processBatch env collected arrivals = (s', collected ++ rs, .handled)
      ∧ s.SameMessages s'
      ∧ rs.map Response.id = arrivals.filterMap fun a => a.item.answered := by
  induction arrivals generalizing s collected with
  | nil => exact ⟨s, [], by simp [Socket.processBatch], .refl s, rfl⟩
  | cons a rest ih =>
    obtain ⟨s₁, rs₁, hmsg, hsame, hids⟩ := processRpcMsg_of_proper env s collected
      (h a List.mem_cons_self)
    obtain ⟨s₂, rs₂, hrest, hsame', hids'⟩ := ih s₁ (collected ++ rs₁)
      fun b hb => h b (List.mem_cons_of_mem a hb)
    refine ⟨s₂, rs₁ ++ rs₂, ?_, hsame.trans hsame', ?_⟩
    · rw [Socket.processBatch, hmsg, ← List.append_assoc]
      exact hrest
    · rw [List.map_append, hids, hids', List.filterMap_cons]
      cases a.item.answered <;> simp

end Batch

/-! ## Frames -/

section Frames

variable (env : Socket.Env)

/-- What a socket has pushed and is going to push. -/
def Socket.shapes (s : Socket V) : List Shape :=
  s.outgoing.filterMap Message.shape ++ s.timers.filterMap Payload.shape

theorem Socket.SameMessages.shapes_eq {s s' : Socket V} (h : s.SameMessages s') :
    s'.shapes = s.shapes := by
  rw [Socket.shapes, Socket.shapes, h.1, h.2]

theorem shapes_push (s : Socket V) (r : Response V) :
    (s.pushResponse none r).1.shapes.Perm (s.shapes ++ (r.id.map Shape.single).toList) := by
  have hshape : [Message.response r].filterMap Message.shape = (r.id.map Shape.single).toList := by
    cases hid : r.id <;> simp [Message.shape, hid]
  dsimp only [Socket.pushResponse, Socket.shapes]
  rw [List.filterMap_append, hshape, List.append_assoc, List.append_assoc]
  exact List.perm_append_comm.append_left _

theorem receive_single (s : Socket V) {a : Arrival V} (h : (Frame.single a).Proper env) :
    (s.receive env (.single a)).1.shapes.Perm (s.shapes ++ (Frame.single a).expected) := by
  cases hitem : a.item with
  | scalar truthy =>
    have hexpected : (Frame.single a).expected = [] := by simp [Frame.expected, hitem]
    cases truthy with
    | true => simp [Socket.receive, hexpected, hitem]
    | false =>
      rw [hexpected, Socket.receive, hitem]
      exact shapes_push s _
  | array => simp [Socket.receive, Socket.processRpcMsg, Item.table, Frame.expected, hitem]
  | object payload =>
    obtain ⟨hversion, hformats⟩ := h payload hitem
    have hreceive : (s.receive env (.single a)).1 = (s.processRpcMsg env none a).1 := by
      simp [Socket.receive, hitem]
    have hexpected : (Frame.single a).expected = (payload.request.map Shape.single).toList := by
      simp [Frame.expected, hitem]
    rw [hreceive, hexpected]
    unfold Socket.processRpcMsg
    rw [hitem]
    dsimp only [Item.table]
    rw [if_neg (not_not.mpr hversion)]
    cases hmethod : payload.method with
    | none =>
      have hrequest : payload.request = none := by simp [Payload.request, hmethod]
      rw [hrequest]
      cases payload.id <;> simp [Socket.shapes]
    | some method =>
      have hrequest : payload.request = payload.id := by simp [Payload.request, hmethod]
      rw [hrequest]
      dsimp only [Socket.invoke]
      by_cases hregistered : env.registered method
      · rw [hregistered, hformats method hmethod hregistered]
        cases a.timer with
        | true =>
          cases hid : payload.id <;>
            simp [Socket.shapes, List.filterMap_append, Payload.shape, hid]
        | false =>
          cases hid : payload.id with
          | none => simp
          | some id => exact shapes_push s _
      · rw [Bool.not_eq_true] at hregistered
        rw [hregistered]
        cases hid : payload.id with
        | none => simp
        | some id => exact shapes_push s _

theorem receive_batch (s : Socket V) {arrivals : List (Arrival V)}
    (h : (Frame.batch arrivals).Proper env) :
    (s.receive env (.batch arrivals)).1.shapes.Perm
      (s.shapes ++ (Frame.batch arrivals).expected) := by
  cases arrivals with
  | nil => exact shapes_push s _
  | cons a rest =>
    by_cases hanswered : ∃ b ∈ a :: rest, b.item.answered ≠ none
    · obtain ⟨s', rs, hbatch, hsame, hids⟩ := processBatch_of_proper env s [] (h hanswered)
      obtain ⟨b, hb, hcalls⟩ := hanswered
      have hne : (a :: rest).filterMap (fun b => b.item.answered) ≠ [] := by
        intro hnil
        exact hcalls (List.filterMap_eq_nil_iff.mp hnil b hb)
      have hrs : rs.isEmpty = false := by
        cases rs with
        | nil => exact absurd hids.symm hne
        | cons _ _ => rfl
      have hreceive : (s.receive env (.batch (a :: rest))).1
          = { s' with outgoing := s'.outgoing ++ [.batch rs] } := by
        simp [Socket.receive, hbatch, hrs]
      have hexpected : (Frame.batch (a :: rest)).expected = [.batch (rs.map Response.id)] := by
        rw [hids, Frame.expected]
        exact if_neg (by rw [List.isEmpty_iff]; exact hne)
      rw [hreceive, hexpected, ← hsame.shapes_eq, Socket.shapes, Socket.shapes,
        List.filterMap_append, List.append_assoc, List.append_assoc]
      exact List.perm_append_comm.append_left _
    · have hquiet : ∀ b ∈ a :: rest, b.item.answered = none := by
        intro b hb
        by_contra hne
        exact hanswered ⟨b, hb, hne⟩
      obtain ⟨s', status, hbatch, hsame⟩ := processBatch_of_unanswered env s [] hquiet
      have hreceive : (s.receive env (.batch (a :: rest))).1 = s' := by
        cases status <;> simp [Socket.receive, hbatch]
      have hexpected : (Frame.batch (a :: rest)).expected = [] := by
        rw [Frame.expected]
        exact if_pos (by rw [List.isEmpty_iff]; exact List.filterMap_eq_nil_iff.mpr hquiet)
      rw [hreceive, hexpected, List.append_nil, hsame.shapes_eq]

theorem receive_shapes (s : Socket V) {f : Frame V} (h : f.Proper env) :
    (s.receive env f).1.shapes.Perm (s.shapes ++ f.expected) := by
  cases f with
  | single a => exact receive_single env s h
  | batch arrivals => exact receive_batch env s h

end Frames

/-! ## Timers -/

theorem fire_shapes {s : Socket V} {k : Nat} {premature : Bool} {outcome : Outcome V}
    (h : ∀ payload, s.timers[k]? = some payload → payload.id ≠ none →
      premature = false ∧ Dispatches payload outcome) :
    (Connection.fire s k premature outcome).shapes.Perm s.shapes := by
  unfold Connection.fire
  cases hk : s.timers[k]? with
  | none => exact .refl _
  | some payload =>
    have hlt : k < s.timers.length := (List.getElem?_eq_some_iff.mp hk).1
    have hget : s.timers[k] = payload := (List.getElem?_eq_some_iff.mp hk).2
    have hsplit : s.timers.Perm (payload :: s.timers.eraseIdx k) := by
      rw [← hget]
      exact (List.getElem_cons_eraseIdx_perm hlt).symm
    have hshapes : s.shapes.Perm
        (({ s with timers := s.timers.eraseIdx k } : Socket V).shapes
          ++ payload.shape.toList) := by
      refine ((hsplit.filterMap Payload.shape).append_left _).trans ?_
      dsimp only [Socket.shapes]
      rw [List.append_assoc]
      refine List.Perm.append_left _ ?_
      rw [List.filterMap_cons]
      cases payload.shape with
      | none => simp
      | some shape => exact (List.perm_append_singleton shape _).symm
    refine List.Perm.trans ?_ hshapes.symm
    dsimp only
    cases hid : payload.id with
    | none =>
      have hshape : payload.shape = none := by simp [Payload.shape, hid]
      rw [hshape, Option.toList_none, List.append_nil]
      split
      · exact .refl _
      · obtain ⟨status, hdispatch⟩ := dispatch_of_notification
          { s with timers := s.timers.eraseIdx k } none outcome hid
        rw [hdispatch]
    | some id =>
      obtain ⟨hmature, hdispatches⟩ := h payload hk (by simp [hid])
      obtain ⟨r, hr, hdispatch⟩ := dispatch_of_request
        { s with timers := s.timers.eraseIdx k } none hid hdispatches
      have hshape : payload.shape = r.id.map .single := by simp [Payload.shape, hid, hr]
      rw [hmature, hdispatch, hshape]
      exact shapes_push _ r

/-! ## Every run -/

theorem OneToOne.step {env : Socket.Env} {c : Connection V} {input : Input V}
    (h : c.OneToOne) (hproper : input.Proper env c) : (c.step env input).OneToOne := by
  cases input with
  | frame f =>
    unfold Connection.step
    dsimp only
    split
    · have hreceive := receive_shapes env c.socket hproper
      unfold Connection.OneToOne
      rw [List.flatMap_append]
      refine hreceive.trans ?_
      rw [List.flatMap_singleton]
      exact h.append_right _
    · exact h
  | timer k premature outcome => exact (fire_shapes hproper).trans h

/-- In every run of proper inputs, the messages pushed and to come are
those the frames call for: a response for each single request, a message
for each batch with requests. -/
theorem responses_match_requests (env : Socket.Env) (inputs : List (Input V))
    (h : Run.Guarded (Connection.step env) (fun c i => Input.Proper env c i) {} inputs) :
    (Run.exec (Connection.step env) {} inputs).OneToOne :=
  Run.Guarded.invariant (fun _ _ hc hproper => OneToOne.step hc hproper) (.refl _) h

/-- A request for a method of the connection. -/
def request (id : Int) : Payload Nat :=
  { id := some (.number id), method := some "kong.debug.v1.get", params := some (.table []) }

/-- One method is registered, and no string is a number. -/
def oneMethod : Socket.Env := ⟨fun method => method = "kong.debug.v1.get", fun _ => false⟩

/-- A single request and a batch with a request, a response and a
notification nobody has a callback for. -/
theorem responses_match_two_frames :
    ∃ inputs : List (Input Nat), inputs.length = 3
      ∧ (Run.exec (Connection.step oneMethod) {} inputs).received.length = 2
      ∧ (Run.exec (Connection.step oneMethod) {} inputs).OneToOne := by
  refine ⟨[.frame (.single ⟨.object (request 1), .raised, true⟩),
    .frame (.batch [⟨.object (request 2), .failed .missing, true⟩,
      ⟨.object { id := some (.number 0), result := some 7 }, .raised, true⟩,
      ⟨.object { method := some "kong.debug.v1.set" }, .raised, true⟩]),
    .timer 0 false (.returned 5)], rfl, by decide, ?_⟩
  refine responses_match_requests oneMethod _ ⟨?_, ?_, ?_, trivial⟩
  · intro payload hitem
    obtain rfl := Item.object.inj hitem
    exact ⟨rfl, fun _ _ _ => rfl⟩
  · intro _ a ha
    simp only [List.mem_cons, List.not_mem_nil, or_false] at ha
    rcases ha with rfl | rfl | rfl
    · exact ⟨_, rfl, rfl, fun _ _ _ => ⟨⟨[], rfl⟩, rfl⟩⟩
    · exact ⟨_, rfl, rfl, fun _ hmethod => absurd hmethod (by simp)⟩
    · refine ⟨_, rfl, rfl, fun method hmethod hregistered => ?_⟩
      obtain rfl := Option.some.inj hmethod
      exact absurd hregistered (by decide)
  · intro payload hpayload _
    obtain rfl : request 1 = payload := Option.some.inj (Eq.trans (by decide) hpayload)
    exact ⟨rfl, ⟨[], rfl⟩, rfl⟩

/-- In a batch of a request and a number, the answer to the number goes
out on its own, and the message of the batch has one entry. -/
theorem number_is_answered_outside_batch :
    ¬ (Run.exec (Connection.step oneMethod) {}
      [.frame (.batch [⟨.object (request 1), .returned 5, true⟩,
        ⟨.scalar true, .raised, true⟩])]).OneToOne := by
  intro h
  have hmem : Shape.batch [some (.number 1)] ∈ [Shape.batch [some (.number 1), none]] :=
    h.subset (by decide)
  exact absurd hmem (by decide)

end KongGateway.Kong.Clustering.Rpc

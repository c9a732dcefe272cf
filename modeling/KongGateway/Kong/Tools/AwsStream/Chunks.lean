import KongGateway.Kong.Tools.AwsStream.Messages

/-!
# AwsStream — chunks

The event reader of `kong.llm.drivers.shared` adds each chunk of a response
to its parser and takes messages out while there is a complete one. No
method puts digits into the buffer, and a message takes some out, so the
loop ends.
-/

namespace KongGateway.Kong.Tools.AwsStream

open Bytes Numerals

/-! ## The buffer does not grow -/

def Shrinks {α : Type} (m : Method α) : Prop :=
  ∀ s a s', m s = .ok (a, s') → s'.chunk.length ≤ s.chunk.length

section

variable {α β : Type}

theorem Shrinks.bind {m : Method α} {f : α → Method β} (hm : Shrinks m) (hf : ∀ a, Shrinks (f a)) :
    Shrinks (m >>= f) := by
  intro s b s'' h
  obtain ⟨a, s', hrun, hrest⟩ := bind_eq_ok h
  exact (hf a s' b s'' hrest).trans (hm s a s' hrun)

theorem shrinks_pure (a : α) : Shrinks (pure a : Method α) := by
  intro s a' s' h
  cases h
  exact le_rfl

theorem shrinks_throw (raised : String) : Shrinks (throw raised : Method α) := by
  intro s a s' h
  cases h

theorem shrinks_get : Shrinks (get : Method Stream) := by
  intro s a s' h
  cases h
  exact le_rfl

theorem shrinks_liftM (r : Except String α) : Shrinks (liftM r : Method α) := by
  cases r with
  | error raised => exact shrinks_throw raised
  | ok a => exact shrinks_pure a

end

theorem shrinks_nextBytes (count : Option Int) : Shrinks (nextBytes count) := by
  match count with
  | none => exact shrinks_throw _
  | some (.negSucc k) => exact shrinks_throw _
  | some (.ofNat n) =>
    intro s a s' h
    rw [Int.ofNat_eq_natCast, nextBytes_eq] at h
    split at h
    all_goals
      cases h
      dsimp only
      rw [List.length_drop]
      omega

theorem shrinks_nextUtf8 (count : Option Int) : Shrinks (nextUtf8 count) := by
  refine (shrinks_nextBytes count).bind ?_
  intro found
  cases found with
  | error err => exact shrinks_throw _
  | ok utfBytes => exact shrinks_liftM _

theorem shrinks_nextInt (size : Nat) : Shrinks (nextInt size) := by
  rw [nextInt]
  split
  · exact shrinks_pure _
  · refine (shrinks_nextBytes _).bind ?_
    intro found
    cases found with
    | error err => exact shrinks_pure _
    | ok int => exact shrinks_pure _

theorem shrinks_firstInt (size : Nat) : Shrinks (firstInt size) := by
  refine (shrinks_nextInt size).bind ?_
  intro found
  cases found with
  | error err => exact shrinks_pure _
  | ok n => exact shrinks_pure _

theorem shrinks_headerExtractor (type : Option Nat) : Shrinks (headerExtractor type) := by
  unfold headerExtractor
  split
  · exact shrinks_pure _
  · exact shrinks_pure _
  · exact (shrinks_firstInt 16).bind fun len => (shrinks_nextUtf8 _).bind fun value => shrinks_pure _
  · exact shrinks_throw _

theorem shrinks_readHeader : Shrinks readHeader :=
  (shrinks_firstInt 8).bind fun _ => (shrinks_nextUtf8 _).bind fun _ =>
    (shrinks_firstInt 8).bind fun type => (shrinks_headerExtractor type).bind fun _ => shrinks_pure _

theorem shrinks_readHeaders (need read : Nat) (t : LuaTable Text HeaderValue) :
    Shrinks (readHeaders need read t) := by
  induction hmeasure : need - read using Nat.strong_induction_on generalizing read t with
  | _ m ih =>
    rw [readHeaders]
    split
    · refine shrinks_readHeader.bind ?_
      rintro ⟨key, value, n⟩
      exact ih _ (by omega) _ _ rfl
    · exact shrinks_pure t

theorem nextInt_lt {s s' : Stream} {found : Option Nat × Text}
    (h : nextInt 32 s = .ok (.ok found, s')) : s'.chunk.length < s.chunk.length := by
  obtain ⟨r, s₁, hbytes, hret⟩ := bind_eq_ok h
  rw [nextBytes_eq] at hbytes
  split at hbytes
  · cases hbytes
    cases hret
  · rename_i hlength
    cases hbytes
    cases hret
    dsimp only
    rw [List.length_take] at hlength
    rw [List.length_drop]
    omega

theorem nextMessage_lt {s s' : Stream} {message : Message}
    (h : nextMessage s = .ok (.ok message, s')) : s'.chunk.length < s.chunk.length := by
  obtain ⟨s₀, s₁, hget, h⟩ := bind_eq_ok h
  cases hget
  split at h
  · cases h
  obtain ⟨first, s₁, hfirst, h⟩ := bind_eq_ok h
  cases first with
  | error err => cases h
  | ok first =>
    refine lt_of_le_of_lt ?_ (nextInt_lt hfirst)
    obtain ⟨second, s₂, hsecond, h⟩ := bind_eq_ok h
    have hle := shrinks_nextInt 32 s₁ second s₂ hsecond
    match second with
    | .error err => cases h
    | .ok (none, _) => cases h
    | .ok (some need, _) =>
      refine le_trans ?_ hle
      refine Shrinks.bind (shrinks_nextInt 32) ?_ s₂ _ s' h
      intro _
      refine (shrinks_readHeaders need 0 ∅).bind fun headers => shrinks_get.bind fun st => ?_
      split
      · exact shrinks_throw _
      · refine (shrinks_nextUtf8 _).bind fun body => (shrinks_nextInt 32).bind fun _ => ?_
        intro s a s' hmodify
        cases hmodify
        exact le_rfl

/-! ## The loop over the messages -/

/-- The loop over the messages of a parser. -/
def drain (s : Stream) : Except String (List Message × Stream) :=
  if s.hasCompleteMessage = true then
    match _hrun : nextMessage s with
    | .error raised => .error raised
    | .ok (.error _, s') => .ok ([], s')
    | .ok (.ok message, s') => (drain s').map fun (messages, s'') => (message :: messages, s'')
  else
    .ok ([], s)
termination_by s.chunk.length
decreasing_by exact nextMessage_lt _hrun

theorem drain_of_incomplete {b : Text} (h : Incomplete b) : drain (holds b 0) = .ok ([], holds b 0) := by
  have hcomplete : ¬ (holds b 0).hasCompleteMessage = true := by
    rw [hasCompleteMessage_holds]
    exact not_not_intro h
  rw [drain, if_neg hcomplete]

theorem drain_of_ok {s s' : Stream} {message : Message} (hcomplete : s.hasCompleteMessage = true)
    (h : nextMessage s = .ok (.ok message, s')) :
    drain s = (drain s').map fun (messages, s'') => (message :: messages, s'') := by
  rw [drain, if_pos hcomplete]
  split
  · rename_i hrun
    rw [h] at hrun
    cases hrun
  · rename_i hrun
    rw [h] at hrun
    cases hrun
  · rename_i hrun
    rw [h] at hrun
    cases hrun
    rfl

theorem drain_stream (done todo : List Frame) {p : Text} (hp : Framing.Partial Frame.encode p todo) :
    drain (holds (Framing.stream Frame.encode done ++ p) 0)
      = .ok (done.map Frame.message, holds p 0) := by
  induction done with
  | nil => exact drain_of_incomplete (incomplete_of_start hp)
  | cons f done ih =>
    have hrun := nextMessage_encode f (Framing.stream Frame.encode done ++ p)
    have hcomplete := complete_encode f (Framing.stream Frame.encode done ++ p)
    rw [Framing.stream_cons, List.append_assoc,
      drain_of_ok ((hasCompleteMessage_holds _ 0).mpr hcomplete) hrun, ih]
    rfl

/-! ## Chunks -/

/-- The chunks of a response, each added to the parser before the loop. -/
def readChunks (chunks : List Text) (parser : Stream) : Except String (List Message × Stream) :=
  Framing.feed (fun s chunk => s.add chunk false) drain chunks parser

theorem decodes : Framing.Decodes Frame.encode Frame.message (fun s chunk => Stream.add s chunk false)
    drain (fun b => holds b 0) where
  add_holds := fun b c => add_holds b c 0
  drain_holds := fun done todo _ hp => drain_stream done todo hp

/-- What is read of a message as it was sent. -/
def Frame.Reads (f : Frame) (message : Message) : Prop :=
  message.body = f.body
    ∧ ∀ k v, message.headers.get k = some v ↔ ∃ h ∈ f.headers, h.key = k ∧ h.value = v

theorem Frame.reads_message (f : Frame) : f.Reads f.message :=
  ⟨rfl, fun k v => get_setHeaders f.distinct k v⟩

/-- The messages do not depend on how their bytes are cut. -/
theorem readChunks_frames (frames : List Frame) (chunks : List Text)
    (h : chunks.flatten = (frames.map Frame.encode).flatten) :
    ∃ messages, readChunks chunks (Stream.new [] false) = .ok (messages, Stream.new [] false)
      ∧ List.Forall₂ Frame.Reads frames messages := by
  have hstart : Framing.Partial Frame.encode [] frames := by
    cases frames with
    | nil => exact Or.inl ⟨rfl, rfl⟩
    | cons f rest =>
      refine Or.inr ⟨f, rest, rfl, List.nil_prefix, ?_⟩
      intro hnil
      have hlength := f.length_encode
      rw [← hnil, List.length_nil, Frame.total] at hlength
      omega
  refine ⟨frames.map Frame.message, decodes.feed hstart h, ?_⟩
  rw [List.forall₂_map_right_iff]
  exact List.forall₂_same.mpr fun f _ => f.reads_message

theorem readChunks_cut :
    ∃ messages, readChunks [[0, 0, 0, 19, 0, 0, 0, 3, 1, 2, 3, 4, 1], [107, 0, 5, 6], [7, 8]]
        (Stream.new [] false) = .ok (messages, Stream.new [] false)
      ∧ List.Forall₂ Frame.Reads [⟨[⟨[107], .bool true, by decide, fun _ h => nomatch h⟩],
          [1, 2, 3, 4], [], [5, 6, 7, 8], by decide, rfl, rfl, by decide⟩] messages :=
  readChunks_frames _ _ (by decide)

end KongGateway.Kong.Tools.AwsStream

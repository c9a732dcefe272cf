import Mathlib.Data.List.Infix

/-!
# Framing — frames cut into chunks

A stream of frames arrives in chunks that are cut anywhere. What has come
is whole frames and the start of one more. A decoder that takes the whole
frames out of what it holds and keeps the start of the next gives the same
frames however the stream is cut.
-/

namespace Framing

variable {φ α : Type*} (enc : φ → List α)

/-- The frames one behind the other. -/
def stream (frames : List φ) : List α := (frames.map enc).flatten

@[simp] theorem stream_cons (f : φ) (frames : List φ) :
    stream enc (f :: frames) = enc f ++ stream enc frames := rfl

/-- The start of the first of some frames, without its end. -/
def Partial (p : List α) (frames : List φ) : Prop :=
  (p = [] ∧ frames = []) ∨ ∃ f rest, frames = f :: rest ∧ p <+: enc f ∧ p ≠ enc f

variable {enc}

/-- What has come of a stream is whole frames and the start of the next. -/
theorem exists_whole {frames : List φ} {b rest : List α} (h : b ++ rest = stream enc frames) :
    ∃ done todo p, frames = done ++ todo ∧ b = stream enc done ++ p ∧ Partial enc p todo
      ∧ p ++ rest = stream enc todo := by
  induction frames generalizing b with
  | nil =>
    obtain ⟨rfl, rfl⟩ := List.append_eq_nil_iff.mp h
    exact ⟨[], [], [], rfl, rfl, Or.inl ⟨rfl, rfl⟩, rfl⟩
  | cons f frames ih =>
    rw [stream_cons] at h
    have hf : enc f <+: enc f ++ stream enc frames := List.prefix_append _ _
    have hb : b <+: enc f ++ stream enc frames := h ▸ List.prefix_append b rest
    by_cases hlength : (enc f).length ≤ b.length
    · obtain ⟨b', rfl⟩ := List.prefix_of_prefix_length_le hf hb hlength
      rw [List.append_assoc] at h
      obtain ⟨done, todo, p, rfl, rfl, hp, hrest⟩ := ih (List.append_cancel_left h)
      exact ⟨f :: done, todo, p, rfl, by rw [stream_cons, List.append_assoc], hp, hrest⟩
    · have hstart := List.prefix_of_prefix_length_le hb hf (by omega)
      refine ⟨[], f :: frames, b, rfl, rfl, Or.inr ⟨f, frames, rfl, hstart, ?_⟩, h⟩
      rintro rfl
      exact hlength le_rfl

/-! ## Decoders -/

section

variable {σ μ ε : Type*}

/-- Each chunk is added, and what can be decoded is taken out. -/
def feed (add : σ → List α → σ) (drain : σ → Except ε (List μ × σ)) :
    List (List α) → σ → Except ε (List μ × σ)
  | [], s => .ok ([], s)
  | chunk :: chunks, s =>
    match drain (add s chunk) with
    | .error raised => .error raised
    | .ok (out, s') =>
      match feed add drain chunks s' with
      | .error raised => .error raised
      | .ok (more, s'') => .ok (out ++ more, s'')

/-- A decoder that holds bytes, and takes the whole frames out of them. -/
structure Decodes (enc : φ → List α) (msg : φ → μ) (add : σ → List α → σ)
    (drain : σ → Except ε (List μ × σ)) (holds : List α → σ) : Prop where
  add_holds : ∀ b c, add (holds b) c = holds (b ++ c)
  drain_holds : ∀ done todo p, Partial enc p todo →
    drain (holds (stream enc done ++ p)) = .ok (done.map msg, holds p)

theorem Decodes.feed {msg : φ → μ} {add : σ → List α → σ} {drain : σ → Except ε (List μ × σ)}
    {holds : List α → σ} (h : Decodes enc msg add drain holds) {chunks : List (List α)}
    {frames : List φ} {p : List α} (hp : Partial enc p frames)
    (hchunks : p ++ chunks.flatten = stream enc frames) :
    Framing.feed add drain chunks (holds p) = .ok (frames.map msg, holds []) := by
  induction chunks generalizing frames p with
  | nil =>
    rw [List.flatten_nil, List.append_nil] at hchunks
    rcases hp with ⟨rfl, rfl⟩ | ⟨f, rest, rfl, hstart, hne⟩
    · rfl
    · rw [stream_cons] at hchunks
      have hlength := hstart.length_le
      rw [hchunks, List.length_append] at hlength
      have hrest : stream enc rest = [] := List.length_eq_zero_iff.mp (by omega)
      rw [hrest, List.append_nil] at hchunks
      exact absurd hchunks hne
  | cons chunk chunks ih =>
    rw [List.flatten_cons, ← List.append_assoc] at hchunks
    obtain ⟨done, todo, p', rfl, hb, hp', hrest⟩ := exists_whole hchunks
    have hmore := ih hp' hrest
    rw [Framing.feed, h.add_holds, hb, h.drain_holds done todo p' hp']
    dsimp only
    rw [hmore, List.map_append]

end

end Framing

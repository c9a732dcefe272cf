import KongGateway.Kong.Llm.JsonArray
import KongGateway.Kong.Llm.Sse

/-!
# JsonStream — JSON objects streamed in chunks

`frame_to_events`. Of a JSON stream the iterator's state is kept from one
frame to the next: for the flat format always, for the array only up to its
closing bracket. What is still to be read of a text is described by the
objects in it that have not been yielded, and a frame leads from one such
description to the next.
-/

namespace KongGateway.Kong.Llm

open Bytes Numerals JsonArray

namespace JsonStream

/-- `_CONST.GEMINI_STREAM_CONTENT_TYPE` -/
def geminiStreamContentType : List Byte := ofText "application/json"

/-- `_CONST.AWS_STREAM_CONTENT_TYPE` -/
def awsStreamContentType : List Byte := ofText "application/vnd.amazon.eventstream"

/-- `_CONST.SSE_CONTENT_TYPE` -/
def sseContentType : List Byte := ofText "text/event-stream"

/-- `_CONST.SSE_TERMINATOR` -/
def sseTerminator : List Byte := ofText "[DONE]"

/-- What `frame_to_events` keeps in `kong.ctx.plugin`; `σ` is the state of
the parser of AWS streams. -/
structure Ctx (σ : Type) where
  geminiState : Option State := none
  flatJsonState : Option State := none
  awsStreamParser : σ
  sse : Sse.Kept := {}

def dataEvent (data : List Byte) : Event := { data := some data }

theorem scan_shorter {kind : JsonArrayType} {c : Counters} {passing eof : Bool}
    {scanned rest element : List Byte} {state : State}
    (h : scan kind c passing eof scanned rest = (some element, state)) :
    state.rest.length < rest.length := by
  induction rest generalizing c passing eof scanned with
  | nil => cases h
  | cons char rest ih =>
    rw [scan] at h
    dsimp only at h
    repeat' split at h
    all_goals first
      | exact Nat.lt_succ_of_lt (ih h)
      | cases h; exact Nat.lt_succ_self _

/-- The elements that the iterator gives for a frame, and the state to be
kept. At the end of the array none is. -/
def geminiElements (state : State) : List (List Byte) × Option State :=
  match h : next .gemini state with
  | (none, state') => ([], if state'.eof then none else some state')
  | (some element, state') =>
    if state'.eof then ([element], none)
    else
      have := scan_shorter h
      let rest := geminiElements state'
      (element :: rest.1, rest.2)
termination_by state.rest.length

/-- The same for flat JSON: the state is kept in any case. -/
def flatElements (state : State) : List (List Byte) × State :=
  match h : next .flatJson state with
  | (none, state') => ([], state')
  | (some element, state') =>
    have := scan_shorter h
    let rest := flatElements state'
    (element :: rest.1, rest.2)
termination_by state.rest.length

/-- The events of a frame; the terminator follows the end of the array. -/
def geminiEvents (state : State) : List Event × Option State :=
  let (elements, kept) := geminiElements state
  (elements.map dataEvent ++ (if kept.isNone then [dataEvent sseTerminator] else []), kept)

/-- The part of `frame_to_events` for the Gemini content type. A text that
is not JSON is only logged. -/
def geminiFrame (kept : Option State) (frame : List Byte) :
    Except String (List Event × Option State) := do
  let state ← jsonArrayIterator .gemini frame kept
  return geminiEvents state

/-- The part for flat JSON. -/
def flatFrame (kept : Option State) (frame : List Byte) :
    Except String (List Event × Option State) := do
  let state ← jsonArrayIterator .flatJson frame kept
  let (elements, kept) := flatElements state
  return (elements.map dataEvent, some kept)

variable {σ : Type}

/-- `awsFrame` is the part for AWS streams. An empty frame gives no table. -/
def frameToEvents (awsFrame : σ → List Byte → List Event × σ) (ctx : Ctx σ)
    (frame contentType : List Byte) : Except String (List Event × Ctx σ) :=
  if frame = [] then .ok ([], ctx)
  else if contentType = geminiStreamContentType then do
    let (events, kept) ← geminiFrame ctx.geminiState frame
    return (events, { ctx with geminiState := kept })
  else if contentType = awsStreamContentType then
    let (events, kept) := awsFrame ctx.awsStreamParser frame
    .ok (events, { ctx with awsStreamParser := kept })
  else if contentType ≠ sseContentType
      ∧ (ctx.flatJsonState.isSome ∨ (frame.dropWhile isSpace).head? = some openBrace) then do
    let (events, kept) ← flatFrame ctx.flatJsonState frame
    return (events, { ctx with flatJsonState := kept })
  else
    let (events, kept) := Sse.frameToEvents ctx.sse frame
    .ok (events.getD [], { ctx with sse := kept })

/-- Calls with the chunks in order, and the events together. -/
def streamToEvents (awsFrame : σ → List Byte → List Event × σ) (contentType : List Byte) :
    Ctx σ → List (List Byte) → Except String (List Event)
  | _, [] => .ok []
  | ctx, chunk :: chunks => do
    let (events, ctx) ← frameToEvents awsFrame ctx chunk contentType
    let rest ← streamToEvents awsFrame contentType ctx chunks
    return events ++ rest

/-! ## The texts -/

/-- Objects with commas and whitespace between them. -/
inductive ArrayItems : List (List Byte) → List Byte → Prop
  | last {b o a : List Byte} : Blank b → IsObject o → Blank a → ArrayItems [o] (b ++ o ++ a)
  | cons {b o a text : List Byte} {objects : List (List Byte)} : Blank b → IsObject o → Blank a
      → ArrayItems objects text → ArrayItems (o :: objects) (b ++ o ++ a ++ comma :: text)

/-- Objects written as one JSON array. -/
inductive ArrayText : List (List Byte) → List Byte → Prop
  | empty {before b after : List Byte} : Blank before → Blank b → Blank after
      → ArrayText [] (before ++ openBracket :: (b ++ closeBracket :: after))
  | items {before text after : List Byte} {objects : List (List Byte)} : Blank before
      → ArrayItems objects text → Blank after
      → ArrayText objects (before ++ openBracket :: (text ++ closeBracket :: after))

/-- Objects each followed by the end of a line. -/
inductive FlatText : List (List Byte) → List Byte → Prop
  | nil : FlatText [] []
  | cons {o lineEnd text : List Byte} {objects : List (List Byte)} : IsObject o
      → lineEnd ∈ [[newline], [carriageReturn], [carriageReturn, newline]]
      → FlatText objects text → FlatText (o :: objects) (o ++ lineEnd ++ text)

/-! ## Elements of a frame -/

section

variable {state' : State} {rest element : List Byte}

theorem geminiElements_none (h : scan .gemini top false false [] rest = (none, state')) :
    geminiElements ⟨true, rest, false⟩ = ([], if state'.eof then none else some state') := by
  change next .gemini ⟨true, rest, false⟩ = _ at h
  rw [geminiElements]
  split
  · rename_i h'
    rw [h] at h'
    cases h'
    rfl
  · rename_i h'
    rw [h] at h'
    cases h'

theorem geminiElements_some
    (h : scan .gemini top false false [] rest = (some element, state')) :
    geminiElements ⟨true, rest, false⟩ = if state'.eof then ([element], none)
      else (element :: (geminiElements state').1, (geminiElements state').2) := by
  change next .gemini ⟨true, rest, false⟩ = _ at h
  rw [geminiElements]
  split
  · rename_i h'
    rw [h] at h'
    cases h'
  · rename_i h'
    rw [h] at h'
    cases h'
    rfl

theorem flatElements_none (h : scan .flatJson top false false [] rest = (none, state')) :
    flatElements ⟨true, rest, false⟩ = ([], state') := by
  change next .flatJson ⟨true, rest, false⟩ = _ at h
  rw [flatElements]
  split
  · rename_i h'
    rw [h] at h'
    cases h'
    rfl
  · rename_i h'
    rw [h] at h'
    cases h'

theorem flatElements_some
    (h : scan .flatJson top false false [] rest = (some element, state')) :
    flatElements ⟨true, rest, false⟩
      = (element :: (flatElements state').1, (flatElements state').2) := by
  change next .flatJson ⟨true, rest, false⟩ = _ at h
  rw [flatElements]
  split
  · rename_i h'
    rw [h] at h'
    cases h'
  · rename_i h'
    rw [h] at h'
    cases h'
    rfl

end

/-! ## Where a frame ends -/

theorem cut_object {u v b o a rest : List Byte} {char : Byte}
    (h : u ++ v = b ++ (o ++ (a ++ char :: rest))) :
    (∃ b', b = u ++ b' ∧ v = b' ++ (o ++ (a ++ char :: rest)))
      ∨ (∃ p p', p ≠ [] ∧ p' ≠ [] ∧ o = p ++ p' ∧ u = b ++ p ∧ v = p' ++ (a ++ char :: rest))
      ∨ (∃ a' a'', a = a' ++ a'' ∧ u = b ++ o ++ a' ∧ v = a'' ++ char :: rest)
      ∨ ∃ u', u = b ++ o ++ a ++ char :: u' ∧ rest = u' ++ v := by
  rcases List.append_eq_append_iff.mp h with ⟨b', hb, hv⟩ | ⟨c, hu, hc⟩
  · exact .inl ⟨b', hb, hv⟩
  subst hu
  rcases List.append_eq_append_iff.mp hc with ⟨d, hd, hrest⟩ | ⟨p', ho, hv⟩
  · subst hd
    rcases List.append_eq_append_iff.mp hrest with ⟨d', hd, hchar⟩ | ⟨a'', ha, hv⟩
    · subst hd
      cases d' with
      | nil =>
        exact .inr (.inr (.inl ⟨a, [], by simp, by simp, hchar.symm⟩))
      | cons x d' =>
        rw [List.cons_append, List.cons.injEq] at hchar
        exact .inr (.inr (.inr ⟨d', by simp [hchar.1], hchar.2⟩))
    · exact .inr (.inr (.inl ⟨d, a'', ha, by simp, hv⟩))
  · by_cases hp : c = []
    · subst hp
      rw [List.nil_append] at ho
      exact .inl ⟨[], by simp, by rw [List.nil_append, ho, hv]⟩
    · by_cases hp' : p' = []
      · subst hp'
        rw [List.append_nil] at ho
        subst ho
        exact .inr (.inr (.inl ⟨[], a, by simp, by simp, hv⟩))
      · exact .inr (.inl ⟨c, p', hp, hp', ho, rfl, hv⟩)

/-- Whitespace is skipped at the start of a frame: a description that a
byte of it can be taken from still holds of what follows. -/
theorem skip_blank {P : List Byte → Prop}
    (hstep : ∀ c s, isSpace c = true → P (c :: s) → P s) (u v : List Byte) (h : P (u ++ v)) :
    P (u.dropWhile isSpace ++ v) := by
  induction u with
  | nil => exact h
  | cons c u ih =>
    rw [List.dropWhile_cons]
    split
    · rename_i hc
      exact ih (hstep c _ hc h)
    · exact h

/-! ## The Gemini array -/

theorem mem_sepChars_gemini {c : Byte} : c ∈ sepChars .gemini ↔ c = comma := List.mem_singleton

theorem between_gemini {b : List Byte} (h : Blank b) : Between .gemini b := by
  intro c hc
  refine ⟨h c hc, ?_⟩
  rw [mem_sepChars_gemini]
  rintro rfl
  exact absurd (h comma hc) (by decide)

/-- What is to be read of the array when no object has been begun. -/
inductive Remaining : List (List Byte) → List Byte → Prop
  | closing {a after : List Byte} : Blank a → Blank after
      → Remaining [] (a ++ closeBracket :: after)
  | last {b o a after : List Byte} : Blank b → IsObject o → Blank a → Blank after
      → Remaining [o] (b ++ (o ++ (a ++ closeBracket :: after)))
  | cons {b o a rest : List Byte} {objects : List (List Byte)} : Blank b → IsObject o → Blank a
      → Remaining objects rest → Remaining (o :: objects) (b ++ (o ++ (a ++ comma :: rest)))

/-- What is to be read behind an object that another one follows. -/
inductive AwaitsComma : List (List Byte) → List Byte → Prop
  | intro {a rest : List Byte} {objects : List (List Byte)} : Blank a → Remaining objects rest
      → AwaitsComma objects (a ++ comma :: rest)

/-- What is to be read when `kept` has been kept and `more` is to come. -/
def Pending (objects : List (List Byte)) (kept more : List Byte) : Prop :=
  Remaining objects (kept ++ more) ∨ (kept = [] ∧ AwaitsComma objects more)

theorem ArrayItems.remaining {objects : List (List Byte)} {text after : List Byte}
    (h : ArrayItems objects text) (hafter : Blank after) :
    Remaining objects (text ++ closeBracket :: after) := by
  induction h with
  | last hb ho ha => simpa using Remaining.last hb ho ha hafter
  | cons hb ho ha _ ih => simpa using Remaining.cons hb ho ha ih

theorem ArrayText.remaining {objects : List (List Byte)} {text : List Byte}
    (h : ArrayText objects text) : ∃ before rest, Blank before ∧ Remaining objects rest
      ∧ text = before ++ openBracket :: rest := by
  cases h with
  | empty hbefore hb hafter => exact ⟨_, _, hbefore, .closing hb hafter, rfl⟩
  | items hbefore hitems hafter => exact ⟨_, _, hbefore, hitems.remaining hafter, rfl⟩

theorem not_blank_of_bracket (s t : List Byte) : ¬ Blank (s ++ closeBracket :: t) := by
  intro h
  exact absurd (h closeBracket (by simp)) (by decide)

theorem not_blank_of_comma (s t : List Byte) : ¬ Blank (s ++ comma :: t) := by
  intro h
  exact absurd (h comma (by simp)) (by decide)

section

variable {objects : List (List Byte)} {u v : List Byte}

/-- What `geminiElements` gives of `u` when `v` is still to come: all
objects and the end of the array, or a part of the objects. -/
def Progress (objects : List (List Byte)) (u v : List Byte) : Prop :=
  (geminiElements ⟨true, u, false⟩ = (objects, none) ∧ Blank v)
    ∨ ∃ done objects' kept, objects = done ++ objects'
        ∧ geminiElements ⟨true, u, false⟩ = (done, some ⟨true, kept, false⟩)
        ∧ Pending objects' kept v ∧ ¬ Blank v

theorem Progress.of_none
    (h : scan .gemini top false false [] u = (none, ⟨true, u, false⟩))
    (hpending : Pending objects u v) (hv : ¬ Blank v) : Progress objects u v :=
  .inr ⟨[], objects, u, rfl, geminiElements_none h, hpending, hv⟩

theorem Progress.of_last {o : List Byte}
    (h : scan .gemini top false false [] u = (some o, ⟨true, [], false⟩))
    (hpending : Pending objects [] v) (hv : ¬ Blank v) : Progress (o :: objects) u v := by
  refine .inr ⟨[o], objects, [], rfl, ?_, hpending, hv⟩
  rw [geminiElements_some h, geminiElements_none (scan_nil top false)]
  rfl

theorem Progress.of_comma {o rest : List Byte}
    (h : scan .gemini top false false [] u = (some o, ⟨true, rest, false⟩))
    (hrest : Progress objects rest v) : Progress (o :: objects) u v := by
  have hu := geminiElements_some h
  rw [if_neg Bool.false_ne_true] at hu
  rcases hrest with ⟨hrest, hv⟩ | ⟨done, objects', kept, rfl, hrest, hpending, hv⟩
  · rw [hrest] at hu
    exact .inl ⟨hu, hv⟩
  · rw [hrest] at hu
    exact .inr ⟨o :: done, objects', kept, rfl, hu, hpending, hv⟩

/-- **A frame of the array**: what it leaves to be read is described again,
or the array has ended. -/
theorem progress_of_pending (h : Pending objects u v) : Progress objects u v := by
  induction hn : u.length using Nat.strongRecOn generalizing objects u with
  | ind n ih =>
    subst hn
    rcases h with h | ⟨rfl, ⟨ha, hrest⟩⟩
    swap
    · exact .of_none (scan_nil top false) (.inr ⟨rfl, .intro ha hrest⟩)
        (not_blank_of_comma _ _)
    generalize htext : u ++ v = text at h
    have hpending : Pending objects u v := .inl (htext ▸ h)
    cases h with
    | closing ha hafter =>
      rename_i a after
      rcases List.append_eq_append_iff.mp htext with ⟨b', rfl, rfl⟩ | ⟨c, rfl, hc⟩
      · exact .of_none (scan_between_all (between_gemini ha.left) (by simp [Blank]))
          hpending (not_blank_of_bracket _ _)
      · cases c with
        | nil =>
          rw [List.append_nil] at hpending ⊢
          rw [List.nil_append] at hc
          exact .of_none (scan_between_all (between_gemini ha) (by simp [Blank])) hpending
            (hc ▸ not_blank_of_bracket [] _)
        | cons x c =>
          rw [List.cons_append, List.cons.injEq] at hc
          obtain ⟨rfl, rfl⟩ := hc
          have hscan : (scan .gemini top false false [] (a ++ closeBracket :: c)).1 = none
              ∧ _ := scan_empty_closing (between_gemini ha) hafter.left
          refine .inl ⟨?_, hafter.right⟩
          rw [geminiElements_none (Prod.ext hscan.1 rfl)]
          exact congrArg (Prod.mk []) (if_pos hscan.2)
    | last hb ho ha hafter =>
      rename_i b o a after
      rcases cut_object htext with ⟨b', rfl, rfl⟩ | ⟨p, p', hp, hp', rfl, rfl, rfl⟩
        | ⟨a', a'', rfl, rfl, rfl⟩ | ⟨u', rfl, rfl⟩
      · refine .of_none (scan_between_all (between_gemini hb.left) (by simp [Blank]))
          hpending ?_
        simpa using not_blank_of_bracket (b' ++ o ++ a) after
      · refine .of_none (scan_part (between_gemini hb) ho hp hp' rfl) hpending ?_
        simpa using not_blank_of_bracket (p' ++ a) after
      · exact .of_last
          (scan_object_last (between_gemini hb) ho (between_gemini ha.left))
          (.inl (.closing ha.right hafter)) (not_blank_of_bracket _ _)
      · refine .inl ⟨?_, hafter.right⟩
        exact geminiElements_some
          (scan_object_closing (between_gemini hb) ho (between_gemini ha) u')
    | cons hb ho ha hrest =>
      rename_i b o a rest objects
      rcases cut_object htext with ⟨b', rfl, rfl⟩ | ⟨p, p', hp, hp', rfl, rfl, rfl⟩
        | ⟨a', a'', rfl, rfl, rfl⟩ | ⟨u', rfl, rfl⟩
      · refine .of_none (scan_between_all (between_gemini hb.left) (by simp [Blank]))
          hpending ?_
        simpa using not_blank_of_comma (b' ++ o ++ a) rest
      · refine .of_none (scan_part (between_gemini hb) ho hp hp' rfl) hpending ?_
        simpa using not_blank_of_comma (p' ++ a) rest
      · exact .of_last
          (scan_object_last (between_gemini hb) ho (between_gemini ha.left))
          (.inr ⟨rfl, .intro ha.right hrest⟩) (not_blank_of_comma _ _)
      · refine .of_comma (scan_object_separator (between_gemini hb) ho (between_gemini ha)
          (List.mem_singleton_self comma) u') ?_
        exact ih u'.length (by simp; omega) (.inl hrest) rfl

/-! ### From frame to frame -/

theorem ne_openBrace_of_isSpace {c : Byte} (h : isSpace c = true) : c ≠ openBrace := by
  rintro rfl
  exact absurd h (by decide)

theorem Remaining.skip {c : Byte} {s : List Byte} (hc : isSpace c = true)
    (h : Remaining objects (c :: s)) : Remaining objects s := by
  generalize htext : c :: s = text at h
  cases h with
  | closing ha hafter =>
    rcases List.cons_eq_append_iff.mp htext with ⟨rfl, hcons⟩ | ⟨a', rfl, rfl⟩
    · cases hcons
      exact absurd hc (by decide)
    · exact .closing (Blank.tail ha) hafter
  | last hb ho ha hafter =>
    rcases List.cons_eq_append_iff.mp htext with ⟨rfl, hcons⟩ | ⟨b', rfl, rfl⟩
    · obtain ⟨inner, -, rfl⟩ := ho.eq_braces
      cases hcons
      exact absurd rfl (ne_openBrace_of_isSpace hc)
    · exact .last (Blank.tail hb) ho ha hafter
  | cons hb ho ha hrest =>
    rcases List.cons_eq_append_iff.mp htext with ⟨rfl, hcons⟩ | ⟨b', rfl, rfl⟩
    · obtain ⟨inner, -, rfl⟩ := ho.eq_braces
      cases hcons
      exact absurd rfl (ne_openBrace_of_isSpace hc)
    · exact .cons (Blank.tail hb) ho ha hrest

theorem AwaitsComma.skip {c : Byte} {s : List Byte} (hc : isSpace c = true)
    (h : AwaitsComma objects (c :: s)) : AwaitsComma objects s := by
  generalize htext : c :: s = text at h
  obtain ⟨ha, hrest⟩ := h
  rcases List.cons_eq_append_iff.mp htext with ⟨rfl, hcons⟩ | ⟨a', rfl, rfl⟩
  · cases hcons
    exact absurd hc (by decide)
  · exact .intro (Blank.tail ha) hrest

theorem geminiElements_comma (rest : List Byte) :
    geminiElements ⟨true, comma :: rest, false⟩ = geminiElements ⟨true, rest, false⟩ := by
  have hlead : scan .gemini top false false [] (comma :: rest) = _ :=
    scan_lead (List.mem_singleton_self comma) rest
  rcases hscan : scan .gemini top false false [] rest with ⟨_ | element, state⟩
  · rw [geminiElements_none hscan, geminiElements_none (hlead.trans hscan)]
  · rw [geminiElements_some hscan, geminiElements_some (hlead.trans hscan)]

theorem Progress.comma (h : Progress objects u v) : Progress objects (comma :: u) v := by
  rw [Progress, geminiElements_comma]
  exact h

theorem progress_of_frame {kept frame : List Byte} (h : Pending objects kept (frame ++ v)) :
    Progress objects ((kept ++ frame).dropWhile isSpace) v := by
  rcases h with h | ⟨rfl, h⟩
  · rw [← List.append_assoc] at h
    exact progress_of_pending (.inl (skip_blank (fun _ _ => Remaining.skip) _ v h))
  · have h := skip_blank (fun _ _ => AwaitsComma.skip) frame v h
    have hhead := List.head?_dropWhile_not isSpace frame
    rw [List.nil_append]
    cases hu : frame.dropWhile isSpace with
    | nil =>
      rw [hu] at h
      exact progress_of_pending (.inr ⟨rfl, h⟩)
    | cons c u =>
      rw [hu] at h hhead
      generalize htext : c :: u ++ v = text at h
      obtain ⟨ha, hrest⟩ := h
      rcases List.cons_eq_append_iff.mp htext with ⟨rfl, hcons⟩ | ⟨a', rfl, -⟩
      · cases hcons
        exact (progress_of_pending (.inl hrest)).comma
      · exact absurd (isSpace_of_isBlank (ha c List.mem_cons_self)) (Bool.eq_false_iff.mp hhead)

end

theorem frameToEvents_gemini (awsFrame : σ → List Byte → List Event × σ) (ctx : Ctx σ) {frame : List Byte} (hne : frame ≠ []) :
    frameToEvents awsFrame ctx frame geminiStreamContentType
      = (geminiFrame ctx.geminiState frame).map
          fun result => (result.1, { ctx with geminiState := result.2 }) := by
  rw [frameToEvents, if_neg hne, if_pos rfl]
  cases geminiFrame ctx.geminiState frame <;> rfl

theorem geminiFrame_kept (kept frame : List Byte) :
    geminiFrame (some ⟨true, kept, false⟩) frame
      = .ok (geminiEvents ⟨true, (kept ++ frame).dropWhile isSpace, false⟩) := rfl

theorem geminiFrame_first {before rest : List Byte} (h : Blank before) :
    geminiFrame none (before ++ openBracket :: rest)
      = .ok (geminiEvents ⟨true, ([] ++ rest).dropWhile isSpace, false⟩) := by
  have hstart : (before ++ openBracket :: rest).dropWhile isSpace = openBracket :: rest :=
    h.dropWhile _
  rw [geminiFrame, jsonArrayIterator]
  simp [start, startChar, hstart]

theorem geminiFrame_blank {frame : List Byte} (h : Blank frame) :
    geminiFrame none frame = .error "Invalid start: expected '['" := by
  have hstart : frame.dropWhile isSpace = [] :=
    List.dropWhile_eq_nil_iff.mpr fun c hc => isSpace_of_isBlank (h c hc)
  rw [geminiFrame, jsonArrayIterator]
  simp [start, startChar, hstart]

section

variable {awsFrame : σ → List Byte → List Event × σ}

theorem streamToEvents_cons_error {ctx : Ctx σ} {chunk contentType : List Byte} {message : String}
    (h : frameToEvents awsFrame ctx chunk contentType = .error message)
    (chunks : List (List Byte)) :
    streamToEvents awsFrame contentType ctx (chunk :: chunks) = .error message := by
  rw [streamToEvents, h]
  rfl

theorem streamToEvents_cons_ok {ctx ctx' : Ctx σ} {chunk contentType : List Byte}
    {events : List Event} (h : frameToEvents awsFrame ctx chunk contentType = .ok (events, ctx'))
    (chunks : List (List Byte)) :
    streamToEvents awsFrame contentType ctx (chunk :: chunks)
      = (streamToEvents awsFrame contentType ctx' chunks).map (events ++ ·) := by
  rw [streamToEvents, h]
  change (do
    let rest ← streamToEvents awsFrame contentType ctx' chunks
    return events ++ rest) = _
  cases streamToEvents awsFrame contentType ctx' chunks <;> rfl

theorem blank_flatten {chunks : List (List Byte)} :
    Blank chunks.flatten ↔ ∀ chunk ∈ chunks, Blank chunk := by
  constructor
  · exact fun h chunk hchunk c hc => h c (List.mem_flatten.mpr ⟨chunk, hchunk, hc⟩)
  · intro h c hc
    obtain ⟨chunk, hchunk, hc⟩ := List.mem_flatten.mp hc
    exact h chunk hchunk c hc

theorem streamToEvents_blank {ctx : Ctx σ} {chunk : List Byte} (hne : chunk ≠ [])
    (hctx : ctx.geminiState = none) (h : Blank chunk) (chunks : List (List Byte)) :
    streamToEvents awsFrame geminiStreamContentType ctx (chunk :: chunks)
      = .error "Invalid start: expected '['" := by
  refine streamToEvents_cons_error ?_ chunks
  rw [frameToEvents_gemini awsFrame ctx hne, hctx, geminiFrame_blank h]
  rfl

/-- The last chunk is not only whitespace. -/
def EndsInArray (chunks : List (List Byte)) : Prop := ∀ chunk ∈ chunks.getLast?, ¬ Blank chunk

/-- **The run of the frames** from one that has been begun on: the objects
and the terminator come out, unless a chunk comes behind the end of the
array. -/
theorem streamToEvents_progress {chunk u : List Byte} {chunks objects : List (List Byte)}
    {ctx : Ctx σ} (hne : ∀ c ∈ chunk :: chunks, c ≠ [])
    (hframe : geminiFrame ctx.geminiState chunk = .ok (geminiEvents ⟨true, u, false⟩))
    (hprogress : Progress objects u chunks.flatten) (hlast : chunks = [] → ¬ Blank chunk) :
    streamToEvents awsFrame geminiStreamContentType ctx (chunk :: chunks)
        = .ok (objects.map dataEvent ++ [dataEvent sseTerminator])
      ↔ EndsInArray (chunk :: chunks) := by
  induction chunks generalizing chunk u objects ctx with
  | nil =>
    have hchunk := frameToEvents_gemini awsFrame ctx (hne chunk List.mem_cons_self)
    rw [hframe] at hchunk
    rw [streamToEvents_cons_ok hchunk]
    rcases hprogress with ⟨hu, -⟩ | ⟨-, -, -, -, -, -, hmore⟩
    · simp [geminiEvents, hu, streamToEvents, Except.map, EndsInArray, hlast]
    · exact absurd (by simp [Blank]) hmore
  | cons next chunks ih =>
    have hchunk := frameToEvents_gemini awsFrame ctx (hne chunk List.mem_cons_self)
    have hne' := fun c hc => hne c (List.mem_cons_of_mem chunk hc)
    rw [hframe] at hchunk
    rw [streamToEvents_cons_ok hchunk]
    have hends : EndsInArray (chunk :: next :: chunks) ↔ EndsInArray (next :: chunks) := by
      rw [EndsInArray, EndsInArray, List.getLast?_cons_cons]
    rw [hends]
    rcases hprogress with ⟨hu, hmore⟩ | ⟨done, objects', kept, rfl, hu, hpending, hmore⟩
    · -- the array has ended and the state is forgotten: the next frame begins another one
      rw [blank_flatten] at hmore
      rw [streamToEvents_blank (hne' next List.mem_cons_self) (by simp [geminiEvents, hu])
        (hmore next List.mem_cons_self)]
      constructor
      · intro h
        cases h
      · intro h
        obtain ⟨last, hlast⟩ := Option.ne_none_iff_exists'.mp
          (mt List.getLast?_eq_none_iff.mp (List.cons_ne_nil next chunks))
        exact absurd (hmore last (List.mem_of_getLast? hlast)) (h last hlast)
    · have hkept : (geminiEvents ⟨true, u, false⟩).2 = some ⟨true, kept, false⟩ := by
        rw [geminiEvents, hu]
      have hrest := @ih next _ objects' { ctx with geminiState := some ⟨true, kept, false⟩ } hne'
        (geminiFrame_kept kept next) (progress_of_frame hpending) (by
          rintro rfl
          simpa using hmore)
      rw [← hrest, hkept]
      simp only [geminiEvents, hu, Option.isNone_some, Bool.false_eq_true, if_false,
        List.append_nil, List.map_append]
      rcases streamToEvents awsFrame geminiStreamContentType
        { ctx with geminiState := some ⟨true, kept, false⟩ } (next :: chunks) with _ | rest
      · simp [Except.map]
      · simp [Except.map]

theorem streamToEvents_array {chunks objects : List (List Byte)} {ctx : Ctx σ}
    (h : ArrayText objects chunks.flatten) (hne : ∀ chunk ∈ chunks, chunk ≠ [])
    (hctx : ctx.geminiState = none) :
    streamToEvents awsFrame geminiStreamContentType ctx chunks
        = .ok (objects.map dataEvent ++ [dataEvent sseTerminator])
      ↔ (∀ chunk ∈ chunks.head?, ¬ Blank chunk) ∧ EndsInArray chunks := by
  obtain ⟨before, rest, hbefore, hrest, htext⟩ := h.remaining
  cases chunks with
  | nil => simp at htext
  | cons chunk chunks =>
    rw [List.flatten_cons] at htext
    have hhead : (∀ c ∈ (chunk :: chunks).head?, ¬ Blank c) ↔ ¬ Blank chunk := by simp
    rw [hhead]
    by_cases hchunk : Blank chunk
    · rw [streamToEvents_blank (hne chunk List.mem_cons_self) hctx hchunk]
      simp [hchunk]
    rcases List.append_eq_append_iff.mp htext with ⟨b', rfl, -⟩ | ⟨c, rfl, hc⟩
    · exact absurd hbefore.left hchunk
    · cases c with
      | nil =>
        rw [List.append_nil] at hchunk
        exact absurd hbefore hchunk
      | cons x u =>
        rw [List.cons_append, List.cons.injEq] at hc
        obtain ⟨rfl, rfl⟩ := hc
        rw [streamToEvents_progress hne (hctx ▸ geminiFrame_first hbefore)
          (progress_of_frame (.inl hrest)) fun _ => hchunk]
        exact (and_iff_right hchunk).symm

end

/-! ## Flat JSON -/

/-- What is to be read of flat JSON: behind an object the end of its line
can still follow. -/
inductive Behind : List (List Byte) → List Byte → Prop
  | intro {lead text : List Byte} {objects : List (List Byte)}
      : (∀ c ∈ lead, c ∈ sepChars .flatJson) → FlatText objects text
      → Behind objects (lead ++ text)

theorem FlatText.behind {objects : List (List Byte)} {text : List Byte}
    (h : FlatText objects text) : Behind objects text :=
  @Behind.intro [] text objects (fun _ hc => nomatch hc) h

theorem mem_sepChars_of_lineEnd {lineEnd : List Byte}
    (h : lineEnd ∈ [[newline], [carriageReturn], [carriageReturn, newline]]) :
    lineEnd ≠ [] ∧ ∀ c ∈ lineEnd, c ∈ sepChars .flatJson := by
  simp only [List.mem_cons, List.not_mem_nil, or_false] at h
  rcases h with rfl | rfl | rfl <;> simp [sepChars]

section

variable {objects : List (List Byte)} {u v : List Byte}

theorem Behind.eq_nil (h : Behind objects []) : objects = [] := by
  generalize htext : ([] : List Byte) = text at h
  obtain ⟨-, hflat⟩ := h
  rw [eq_comm, List.append_eq_nil_iff] at htext
  obtain ⟨-, rfl⟩ := htext
  generalize htext : ([] : List Byte) = text at hflat
  cases hflat with
  | nil => rfl
  | cons ho _ _ =>
    obtain ⟨inner, -, rfl⟩ := ho.eq_braces
    cases htext

theorem Behind.skip {c : Byte} {s : List Byte} (hc : isSpace c = true)
    (h : Behind objects (c :: s)) : Behind objects s := by
  generalize htext : c :: s = text at h
  obtain ⟨hlead, hflat⟩ := h
  rcases List.cons_eq_append_iff.mp htext with ⟨rfl, rfl⟩ | ⟨lead', rfl, rfl⟩
  · generalize htext' : c :: s = text at hflat
    cases hflat with
    | nil => cases htext'
    | cons ho _ _ =>
      obtain ⟨inner, -, rfl⟩ := ho.eq_braces
      cases htext'
      exact absurd rfl (ne_openBrace_of_isSpace hc)
  · exact .intro (fun x hx => hlead x (List.mem_cons_of_mem c hx)) hflat

/-- What `flatElements` gives of `u` when `v` is still to come. -/
def FlatProgress (objects : List (List Byte)) (u v : List Byte) : Prop :=
  ∃ done objects' kept, objects = done ++ objects'
    ∧ flatElements ⟨true, u, false⟩ = (done, ⟨true, kept, false⟩)
    ∧ Behind objects' (kept ++ v) ∧ (v = [] → objects' = [])

theorem FlatProgress.of_none
    (h : scan .flatJson top false false [] u = (none, ⟨true, u, false⟩))
    (hbehind : Behind objects (u ++ v)) (hv : v = [] → objects = []) :
    FlatProgress objects u v :=
  ⟨[], objects, u, rfl, flatElements_none h, hbehind, hv⟩

theorem FlatProgress.of_some {o rest : List Byte}
    (h : scan .flatJson top false false [] u = (some o, ⟨true, rest, false⟩))
    (hrest : FlatProgress objects rest v) : FlatProgress (o :: objects) u v := by
  obtain ⟨done, objects', kept, rfl, hrest, hbehind, hv⟩ := hrest
  refine ⟨o :: done, objects', kept, rfl, ?_, hbehind, hv⟩
  rw [flatElements_some h, hrest]

theorem flatElements_lead {c : Byte} (h : c ∈ sepChars .flatJson) (rest : List Byte) :
    flatElements ⟨true, c :: rest, false⟩ = flatElements ⟨true, rest, false⟩ := by
  have hlead : scan .flatJson top false false [] (c :: rest) = _ := scan_lead h rest
  rcases hscan : scan .flatJson top false false [] rest with ⟨_ | element, state⟩
  · rw [flatElements_none hscan, flatElements_none (hlead.trans hscan)]
  · rw [flatElements_some hscan, flatElements_some (hlead.trans hscan)]

theorem between_nil (kind : JsonArrayType) : Between kind [] := fun _ hc => nomatch hc

/-- **A frame of flat JSON.** -/
theorem flatProgress_of_behind (h : Behind objects (u ++ v)) : FlatProgress objects u v := by
  induction hn : u.length using Nat.strongRecOn generalizing objects u with
  | ind n ih =>
    subst hn
    cases u with
    | nil =>
      refine .of_none (scan_nil top false) h ?_
      rintro rfl
      exact h.eq_nil
    | cons c u =>
      have hbehind := h
      generalize htext : c :: u ++ v = text at h
      obtain ⟨hlead, hflat⟩ := h
      rcases List.cons_eq_append_iff.mp htext with ⟨rfl, rfl⟩ | ⟨lead', rfl, htext'⟩
      · generalize htext' : c :: (u ++ v) = text at hflat
        cases hflat with
        | nil => cases htext'
        | cons ho hend hflat =>
          rename_i o lineEnd text objects
          obtain ⟨hne, hseps⟩ := mem_sepChars_of_lineEnd hend
          cases lineEnd with
          | nil => exact absurd rfl hne
          | cons x tail =>
            rw [List.forall_mem_cons] at hseps
            have hcut : (c :: u) ++ v = [] ++ (o ++ ([] ++ x :: (tail ++ text))) := by
              rw [List.cons_append, htext']
              simp
            rcases cut_object hcut with ⟨b', hb, -⟩ | ⟨p, p', hp, hp', rfl, hu, rfl⟩
              | ⟨a', a'', ha, hu, rfl⟩ | ⟨u', hu, hrest⟩
            · exact absurd hb (by simp)
            · rw [hu]
              rw [hu] at hbehind
              exact .of_none (scan_part (between_nil _) ho hp hp' rfl) hbehind
                fun h => by simp at h
            · obtain ⟨rfl, rfl⟩ := List.append_eq_nil_iff.mp ha.symm
              have hrest : Behind objects (x :: (tail ++ text)) :=
                .intro (List.forall_mem_cons.mpr hseps) hflat
              rw [hu]
              exact .of_some (scan_object_last (between_nil _) ho (between_nil _))
                (ih 0 (Nat.succ_pos _) hrest rfl)
            · have hlt := congrArg List.length hu
              simp only [List.length_append, List.length_cons, List.length_nil] at hlt
              have hrest : Behind objects (u' ++ v) := by
                rw [← hrest]
                exact .intro hseps.2 hflat
              rw [hu]
              exact .of_some
                (scan_object_separator (between_nil _) ho (between_nil _) hseps.1 u')
                (ih u'.length (by rw [List.length_cons]; omega) hrest rfl)
      · rw [List.forall_mem_cons] at hlead
        rw [FlatProgress, flatElements_lead hlead.1]
        have hrest : Behind objects (u ++ v) := by
          rw [← List.append_eq, htext']
          exact .intro hlead.2 hflat
        exact ih u.length (Nat.lt_succ_self _) hrest rfl

theorem flatProgress_of_frame {kept frame : List Byte} (h : Behind objects (kept ++ (frame ++ v))) :
    FlatProgress objects ((kept ++ frame).dropWhile isSpace) v := by
  rw [← List.append_assoc] at h
  exact flatProgress_of_behind (skip_blank (fun _ _ => Behind.skip) _ v h)

end

/-- A content type for which the format of the stream is not known. -/
def Untyped (contentType : List Byte) : Prop :=
  contentType ≠ geminiStreamContentType ∧ contentType ≠ awsStreamContentType
    ∧ contentType ≠ sseContentType

section

variable {awsFrame : σ → List Byte → List Event × σ} {contentType : List Byte}

theorem frameToEvents_flat (awsFrame : σ → List Byte → List Event × σ)
    (htype : Untyped contentType) (ctx : Ctx σ) {frame : List Byte} (hne : frame ≠ [])
    (h : ctx.flatJsonState.isSome ∨ (frame.dropWhile isSpace).head? = some openBrace) :
    frameToEvents awsFrame ctx frame contentType
      = (flatFrame ctx.flatJsonState frame).map
          fun result => (result.1, { ctx with flatJsonState := result.2 }) := by
  rw [frameToEvents, if_neg hne, if_neg htype.1, if_neg htype.2.1, if_pos ⟨htype.2.2, h⟩]
  cases flatFrame ctx.flatJsonState frame <;> rfl

theorem flatFrame_kept (kept frame : List Byte) :
    flatFrame (some ⟨true, kept, false⟩) frame
      = .ok ((flatElements ⟨true, (kept ++ frame).dropWhile isSpace, false⟩).1.map dataEvent,
          some (flatElements ⟨true, (kept ++ frame).dropWhile isSpace, false⟩).2) := rfl

theorem flatFrame_first {frame : List Byte} (h : frame.head? = some openBrace) :
    flatFrame none frame
      = .ok ((flatElements ⟨true, ([] ++ frame).dropWhile isSpace, false⟩).1.map dataEvent,
          some (flatElements ⟨true, ([] ++ frame).dropWhile isSpace, false⟩).2) := by
  cases frame with
  | nil => cases h
  | cons c rest =>
    cases h
    rfl

/-- **The run of the frames** of flat JSON. -/
theorem streamToEvents_flatProgress (htype : Untyped contentType) {chunk u : List Byte}
    {chunks objects : List (List Byte)} {ctx : Ctx σ} (hne : ∀ c ∈ chunk :: chunks, c ≠ [])
    (hflat : ctx.flatJsonState.isSome ∨ (chunk.dropWhile isSpace).head? = some openBrace)
    (hframe : flatFrame ctx.flatJsonState chunk
      = .ok ((flatElements ⟨true, u, false⟩).1.map dataEvent,
          some (flatElements ⟨true, u, false⟩).2))
    (hprogress : FlatProgress objects u chunks.flatten) :
    streamToEvents awsFrame contentType ctx (chunk :: chunks) = .ok (objects.map dataEvent) := by
  obtain ⟨done, objects', kept, rfl, hu, hbehind, hend⟩ := hprogress
  induction chunks generalizing chunk u done objects' kept ctx with
  | nil =>
    have hchunk := frameToEvents_flat awsFrame htype ctx (hne chunk List.mem_cons_self) hflat
    rw [hframe, hu] at hchunk
    rw [streamToEvents_cons_ok hchunk, hend rfl, List.append_nil]
    simp [streamToEvents, Except.map]
  | cons next chunks ih =>
    have hchunk := frameToEvents_flat awsFrame htype ctx (hne chunk List.mem_cons_self) hflat
    rw [hframe, hu] at hchunk
    rw [streamToEvents_cons_ok hchunk]
    obtain ⟨done', objects'', kept', rfl, hu', hbehind', hend'⟩ := flatProgress_of_frame hbehind
    rw [ih (fun c hc => hne c (List.mem_cons_of_mem chunk hc)) (.inl rfl)
      (flatFrame_kept kept next) _ _ _ hu' hbehind' hend']
    simp [Except.map]

theorem streamToEvents_flatJson (htype : Untyped contentType) {chunks objects : List (List Byte)}
    {ctx : Ctx σ} (h : FlatText objects chunks.flatten) (hne : ∀ chunk ∈ chunks, chunk ≠ [])
    (hfirst : ∀ chunk ∈ chunks.head?, chunk.head? = some openBrace)
    (hctx : ctx.flatJsonState = none) :
    streamToEvents awsFrame contentType ctx chunks = .ok (objects.map dataEvent) := by
  have hbehind : Behind objects chunks.flatten := h.behind
  cases chunks with
  | nil =>
    rw [hbehind.eq_nil]
    rfl
  | cons chunk chunks =>
    have hbrace := hfirst chunk rfl
    refine streamToEvents_flatProgress htype hne (.inr ?_) (hctx ▸ flatFrame_first hbrace)
      (flatProgress_of_frame hbehind)
    cases chunk with
    | nil => cases hbrace
    | cons c rest =>
      cases hbrace
      rfl

/-- **Streamed JSON**: however the text is cut, one event comes for each
object, in order. For the array the terminator follows them exactly if the
first and the last chunk are not only whitespace. -/
theorem jsonStream_exact {chunks objects : List (List Byte)} {ctx : Ctx σ}
    (hne : ∀ chunk ∈ chunks, chunk ≠ []) :
    (ctx.geminiState = none → ArrayText objects chunks.flatten →
      (streamToEvents awsFrame geminiStreamContentType ctx chunks
          = .ok (objects.map dataEvent ++ [dataEvent sseTerminator])
        ↔ (∀ chunk ∈ chunks.head?, ¬ Blank chunk) ∧ ∀ chunk ∈ chunks.getLast?, ¬ Blank chunk))
      ∧ (Untyped contentType → ctx.flatJsonState = none → FlatText objects chunks.flatten →
        (∀ chunk ∈ chunks.head?, chunk.head? = some openBrace) →
        streamToEvents awsFrame contentType ctx chunks = .ok (objects.map dataEvent)) :=
  ⟨fun hctx h => streamToEvents_array h hne hctx,
    fun htype hctx h hfirst => streamToEvents_flatJson htype h hne hfirst hctx⟩

end

/-! ### A short stream -/

/-- The empty object. -/
def braces : List Byte := [openBrace, closeBrace]

theorem isObject_braces : IsObject braces :=
  @Derives.emptyObject [] fun _ hc => nomatch hc

theorem arrayText_braces {before : List Byte} (h : Blank before) :
    ArrayText [braces] (before ++ [openBracket, openBrace, closeBrace, closeBracket]) := by
  have hnil : Blank [] := fun _ hc => nomatch hc
  exact .items h (.last hnil isObject_braces hnil) hnil

/-- Nothing is done for AWS streams. -/
def noAws (parser : Unit) (_ : List Byte) : List Event × Unit := ([], parser)

/-- The array in two chunks, and one line. -/
theorem jsonStream_exact_braces :
    streamToEvents noAws geminiStreamContentType { awsStreamParser := () }
        [[openBracket, openBrace], [closeBrace, closeBracket]]
          = .ok [dataEvent braces, dataEvent sseTerminator]
      ∧ streamToEvents noAws (ofText "text/plain") { awsStreamParser := () }
        [[openBrace], [closeBrace, newline]] = .ok [dataEvent braces] := by
  constructor
  · have harray := arrayText_braces (fun _ hc => nomatch hc : Blank [])
    exact ((@jsonStream_exact Unit noAws [] [[openBracket, openBrace], [closeBrace, closeBracket]]
      [braces] { awsStreamParser := () } (by decide +kernel)).1 rfl harray).mpr (by decide +kernel)
  · have hflat : FlatText [braces] [[openBrace], [closeBrace, newline]].flatten :=
      .cons isObject_braces List.mem_cons_self .nil
    exact (jsonStream_exact (by decide +kernel)).2
      ⟨by decide +kernel, by decide +kernel, by decide +kernel⟩ rfl hflat (by decide +kernel)

/-- A space in a chunk of its own before the array. -/
theorem jsonStream_leading_space :
    ArrayText [braces]
        [ofText " ", [openBracket, openBrace, closeBrace, closeBracket]].flatten
      ∧ streamToEvents noAws geminiStreamContentType { awsStreamParser := () }
        [ofText " ", [openBracket, openBrace, closeBrace, closeBracket]]
          = .error "Invalid start: expected '['" := by
  have hspace : Blank (ofText " ") := by decide +kernel
  exact ⟨arrayText_braces hspace, streamToEvents_blank (by decide +kernel) rfl hspace _⟩

end JsonStream

end KongGateway.Kong.Llm

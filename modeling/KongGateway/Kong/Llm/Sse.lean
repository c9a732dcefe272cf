import KongGateway.Lib.Bytes

/-!
# Sse — streamed server-sent events

The SSE part of `frame_to_events`. A frame is read line by line; the line
feed behind a line's end closes an event. What follows the last line that
has a byte behind its end is kept for the next frame, together with the
event that is half read. Both are needed: the kept bytes are a suffix of
all that has come, and the kept event is what the lines since the last
event have set.
-/

namespace KongGateway.Kong.Llm

open Bytes

/-- A message as it is read so far. -/
structure Event where
  event : Option (List Byte) := none
  id : Option (List Byte) := none
  data : Option (List Byte) := none
deriving DecidableEq, Repr

namespace Sse

def newline : Byte := 10
def carriageReturn : Byte := 13
def space : Byte := 32
def colon : Byte := 58

/-- `[\r\n]` -/
def isLineEnd (c : Byte) : Bool := c = newline || c = carriageReturn

/-- What the parser keeps in `kong.ctx.plugin`. -/
structure Kept where
  truncatedFrame : Option (List Byte) := none
  truncatedFrameStruct : Option Event := none
deriving DecidableEq, Repr

def setField (struct : Event) (field value : List Byte) : Event :=
  if field = ofText "event" then { struct with event := some value }
  else if field = ofText "id" then { struct with id := some value }
  else if field = ofText "data" then { struct with data := some value }
  else struct

/-- A line without its end. A colon that is the first byte of the frame
is not looked at. -/
def readLine (atStart : Bool) (struct : Event) (line : List Byte) : Event :=
  match line.dropWhile (· ≠ colon) with
  | [] => struct
  | _ :: after =>
    let field := line.takeWhile (· ≠ colon)
    if atStart && field.isEmpty then struct
    else setField struct field (after.dropWhile (· = space))

theorem length_after_line {frame after : List Byte} {p : Byte → Bool} {c : Byte}
    (h : frame.dropWhile p = c :: after) : after.length < frame.length := by
  have hle := (List.dropWhile_suffix (l := frame) p).length_le
  rw [h, List.length_cons] at hle
  omega

/-- The loop over the lines of a frame, from `start` on: the events, and
what is kept when the loop breaks. -/
def readFrame (atStart : Bool) (struct : Event) (frame : List Byte) :
    List Event × Option (List Byte × Event) :=
  if frame = [] then ([], none)
  else
    match h : frame.dropWhile fun c => !isLineEnd c with
    | [] => ([], some (frame, struct))
    | [_] => ([], some (frame, struct))
    | _ :: next :: after =>
      have hlt := length_after_line h
      have : after.length < frame.length := Nat.lt_of_succ_lt hlt
      let struct := readLine atStart struct (frame.takeWhile fun c => !isLineEnd c)
      if next = newline then
        let rest := readFrame false {} after
        (struct :: rest.1, rest.2)
      else readFrame false struct (next :: after)
termination_by frame.length

/-- `frame_to_events` with the SSE content type; an empty frame gives no
table. -/
def frameToEvents (kept : Kept) (frame : List Byte) : Option (List Event) × Kept :=
  if frame = [] then (none, kept)
  else
    let result := readFrame true (kept.truncatedFrameStruct.getD {})
      (kept.truncatedFrame.getD [] ++ frame)
    (some result.1, ⟨result.2.map Prod.fst, result.2.map Prod.snd⟩)

/-- Calls with the chunks in order: the events together, and what is
kept. -/
def streamToEvents : Kept → List (List Byte) → List Event × Kept
  | kept, [] => ([], kept)
  | kept, chunk :: chunks =>
    let first := frameToEvents kept chunk
    let rest := streamToEvents first.2 chunks
    (first.1.getD [] ++ rest.1, rest.2)

/-! ## Reading on -/

section

variable {struct : Event} {frame : List Byte}

theorem readLine_atStart (atStart : Bool) (struct : Event) (line : List Byte) :
    readLine atStart struct line = readLine false struct line := by
  rw [readLine, readLine]
  split
  · rfl
  · dsimp only
    split
    · rename_i h
      -- the line starts with its colon: no field has an empty name
      rw [Bool.and_eq_true, List.isEmpty_iff] at h
      simp only [h.2, Bool.false_and]
      rfl
    · rfl

theorem readFrame_atStart (atStart : Bool) (struct : Event) (frame : List Byte) :
    readFrame atStart struct frame = readFrame false struct frame := by
  rw [readFrame, readFrame]
  split
  · rfl
  · split <;> first | rfl | simp only [readLine_atStart atStart]

@[simp] theorem readFrame_nil (atStart : Bool) (struct : Event) :
    readFrame atStart struct [] = ([], none) := by
  rw [readFrame, if_pos rfl]

theorem readFrame_kept (hne : frame ≠ [])
    (hend : (frame.dropWhile fun c => !isLineEnd c).length ≤ 1) :
    readFrame false struct frame = ([], some (frame, struct)) := by
  rw [readFrame, if_neg hne]
  split
  · rfl
  · rfl
  · rename_i h
    rw [h] at hend
    simp at hend

theorem readFrame_line {c next : Byte} {after : List Byte}
    (h : frame.dropWhile (fun c => !isLineEnd c) = c :: next :: after) :
    readFrame false struct frame
      = if next = newline then
          (readLine false struct (frame.takeWhile fun c => !isLineEnd c)
              :: (readFrame false {} after).1, (readFrame false {} after).2)
        else readFrame false (readLine false struct (frame.takeWhile fun c => !isLineEnd c))
          (next :: after) := by
  have hne : frame ≠ [] := by
    rintro rfl
    cases h
  rw [readFrame, if_neg hne]
  split
  · rename_i h'
    rw [h] at h'
    cases h'
  · rename_i h'
    rw [h] at h'
    cases h'
  · rename_i h'
    rw [h] at h'
    cases h'
    rfl

end

/-- The unread bytes and the half-read event that a loop leaves. -/
def left (kept : Option (List Byte × Event)) : List Byte × Event := kept.getD ([], {})

theorem dropWhile_append_line {frame after : List Byte} {c : Byte} (more : List Byte)
    (h : frame.dropWhile (fun c => !isLineEnd c) = c :: after) :
    (frame ++ more).dropWhile (fun c => !isLineEnd c) = c :: (after ++ more)
      ∧ (frame ++ more).takeWhile (fun c => !isLineEnd c)
          = frame.takeWhile fun c => !isLineEnd c := by
  constructor
  · rw [List.dropWhile_append, h]
    rfl
  · rw [List.takeWhile_append, if_neg]
    intro hlen
    have hsplit := congrArg List.length
      (List.takeWhile_append_dropWhile (p := fun c => !isLineEnd c) (l := frame))
    rw [List.length_append, h, List.length_cons] at hsplit
    omega

/-- **Reading on from what is left** is reading the whole. -/
theorem readFrame_append {struct : Event} {frame : List Byte} (h : frame ≠ [] ∨ struct = {})
    (more : List Byte) :
    readFrame false struct (frame ++ more)
      = ((readFrame false struct frame).1
            ++ (readFrame false (left (readFrame false struct frame).2).2
                ((left (readFrame false struct frame).2).1 ++ more)).1,
          (readFrame false (left (readFrame false struct frame).2).2
              ((left (readFrame false struct frame).2).1 ++ more)).2) := by
  induction hn : frame.length using Nat.strongRecOn generalizing struct frame with
  | ind n ih =>
    subst hn
    by_cases hne : frame = []
    · subst hne
      obtain rfl : struct = {} := h.resolve_left fun hne => hne rfl
      simp [left]
    · by_cases hend : (frame.dropWhile fun c => !isLineEnd c).length ≤ 1
      · rw [readFrame_kept hne hend]
        rfl
      · obtain ⟨c, next, after, hline⟩ : ∃ c next after,
            frame.dropWhile (fun c => !isLineEnd c) = c :: next :: after := by
          rcases hdrop : frame.dropWhile (fun c => !isLineEnd c) with _ | ⟨c, _ | ⟨next, after⟩⟩
          · simp [hdrop] at hend
          · simp [hdrop] at hend
          · exact ⟨c, next, after, rfl⟩
        obtain ⟨hdrop, htake⟩ := dropWhile_append_line more hline
        have hmore : (frame ++ more).dropWhile (fun c => !isLineEnd c)
            = c :: next :: (after ++ more) := hdrop
        have hlt := length_after_line hline
        rw [List.length_cons] at hlt
        rw [readFrame_line hline, readFrame_line hmore, htake]
        split
        · have hrest := ih after.length (by omega) (.inr rfl) rfl
          rw [hrest]
          rfl
        · exact ih (next :: after).length (by simpa using hlt) (.inl (List.cons_ne_nil _ _)) rfl

/-! ## Chunks -/

/-- What was kept by the loop that left `left kept`. -/
def Kept.of (kept : Option (List Byte × Event)) : Kept :=
  ⟨kept.map Prod.fst, kept.map Prod.snd⟩

theorem frameToEvents_of (kept : Option (List Byte × Event)) {frame : List Byte}
    (hne : frame ≠ []) :
    frameToEvents (.of kept) frame
      = (some (readFrame false (left kept).2 ((left kept).1 ++ frame)).1,
          .of (readFrame false (left kept).2 ((left kept).1 ++ frame)).2) := by
  rw [frameToEvents, if_neg hne]
  simp only [readFrame_atStart true]
  cases kept <;> rfl

/-- Chunks read one after the other behind some bytes: the events so far
and those of the chunks are the events of the whole. -/
theorem streamToEvents_behind {chunks : List (List Byte)} (hne : ∀ chunk ∈ chunks, chunk ≠ [])
    (bytes : List Byte) :
    (readFrame false {} bytes).1 ++ (streamToEvents (.of (readFrame false {} bytes).2) chunks).1
        = (readFrame false {} (bytes ++ chunks.flatten)).1
      ∧ (streamToEvents (.of (readFrame false {} bytes).2) chunks).2
          = .of (readFrame false {} (bytes ++ chunks.flatten)).2 := by
  induction chunks generalizing bytes with
  | nil => simp [streamToEvents]
  | cons chunk chunks ih =>
    have hchunk := hne chunk List.mem_cons_self
    have hread := @readFrame_append {} bytes (.inr rfl) chunk
    obtain ⟨hevents, hkept⟩ := ih (fun c hc => hne c (List.mem_cons_of_mem chunk hc))
      (bytes ++ chunk)
    rw [streamToEvents, frameToEvents_of _ hchunk, List.flatten_cons,
      ← List.append_assoc bytes chunk, ← hevents, ← hkept, hread]
    exact ⟨(List.append_assoc _ _ _).symm, rfl⟩

theorem streamToEvents_eq {chunks : List (List Byte)} (hne : ∀ chunk ∈ chunks, chunk ≠ []) :
    (streamToEvents {} chunks).1 = (readFrame false {} chunks.flatten).1
      ∧ (streamToEvents {} chunks).2 = .of (readFrame false {} chunks.flatten).2 := by
  have h := streamToEvents_behind hne []
  simp only [readFrame_nil, List.nil_append] at h
  exact h

theorem frameToEvents_eq (frame : List Byte) :
    (frameToEvents {} frame).1.getD [] = (readFrame false {} frame).1 := by
  by_cases hne : frame = []
  · subst hne
    rw [readFrame_nil]
    rfl
  · have h := frameToEvents_of none hne
    exact congrArg (fun r => r.1.getD []) h

/-! ## Messages -/

inductive Field
  | event
  | id
  | data
deriving DecidableEq, Repr

def Field.name : Field → List Byte
  | .event => ofText "event"
  | .id => ofText "id"
  | .data => ofText "data"

/-- A message: one or more lines with different fields. -/
structure Message where
  lines : List (Field × List Byte)
  lines_ne : lines ≠ []
  fields_nodup : (lines.map Prod.fst).Nodup
  value_line : ∀ line ∈ lines, ∀ c ∈ line.2, isLineEnd c = false
  value_start : ∀ line ∈ lines, line.2.head? ≠ some space

/-- `field: value\n` -/
def lineBytes (line : Field × List Byte) : List Byte :=
  line.1.name ++ colon :: space :: (line.2 ++ [newline])

def Message.bytes (m : Message) : List Byte := m.lines.flatMap lineBytes ++ [newline]

/-- What the lines of a message say. -/
def Message.event (m : Message) : Event where
  event := m.lines.lookup .event
  id := m.lines.lookup .id
  data := m.lines.lookup .data

/-- An event with one field set. -/
def Field.set (field : Field) (struct : Event) (value : List Byte) : Event :=
  match field with
  | .event => { struct with event := some value }
  | .id => { struct with id := some value }
  | .data => { struct with data := some value }

theorem setField_name (field : Field) (struct : Event) (value : List Byte) :
    setField struct field.name value = field.set struct value := by
  cases field <;> rfl

theorem name_plain (field : Field) :
    colon ∉ field.name ∧ ∀ c ∈ field.name, isLineEnd c = false := by
  cases field <;> decide +kernel

theorem readLine_line (struct : Event) (field : Field) {value : List Byte}
    (hstart : value.head? ≠ some space) :
    readLine false struct (field.name ++ colon :: space :: value) = field.set struct value := by
  have hname : ∀ c ∈ field.name, (decide (c ≠ colon)) = true := by
    intro c hc
    rw [decide_eq_true_eq]
    rintro rfl
    exact (name_plain field).1 hc
  have hdrop : (field.name ++ colon :: space :: value).dropWhile (· ≠ colon)
      = colon :: space :: value := by
    rw [List.dropWhile_append_of_pos hname]
    exact List.dropWhile_cons_of_neg (by simp)
  have htake : (field.name ++ colon :: space :: value).takeWhile (· ≠ colon) = field.name := by
    rw [List.takeWhile_append_of_pos hname, List.takeWhile_cons_of_neg (by simp), List.append_nil]
  have hvalue : (space :: value).dropWhile (· = space) = value := by
    rw [List.dropWhile_cons_of_pos (by simp)]
    cases value with
    | nil => rfl
    | cons c rest =>
      have hc : c ≠ space := fun h => hstart (congrArg some h)
      exact List.dropWhile_cons_of_neg (by simpa using hc)
  rw [readLine, hdrop]
  dsimp only
  rw [htake, hvalue, Bool.false_and]
  exact setField_name field struct value

theorem dropWhile_line (line : Field × List Byte) (hvalue : ∀ c ∈ line.2, isLineEnd c = false)
    (rest : List Byte) :
    (lineBytes line ++ rest).dropWhile (fun c => !isLineEnd c) = newline :: rest
      ∧ (lineBytes line ++ rest).takeWhile (fun c => !isLineEnd c)
          = line.1.name ++ colon :: space :: line.2 := by
  have hplain : ∀ c ∈ line.1.name ++ colon :: space :: line.2, (!isLineEnd c) = true := by
    intro c hc
    rw [Bool.not_eq_true']
    rcases List.mem_append.mp hc with hc | hc
    · exact (name_plain line.1).2 c hc
    · rcases List.mem_cons.mp hc with rfl | hc
      · rfl
      · rcases List.mem_cons.mp hc with rfl | hc
        · rfl
        · exact hvalue c hc
  have hbytes : lineBytes line ++ rest
      = (line.1.name ++ colon :: space :: line.2) ++ newline :: rest := by
    simp [lineBytes]
  rw [hbytes]
  constructor
  · rw [List.dropWhile_append_of_pos hplain]
    rfl
  · rw [List.takeWhile_append_of_pos hplain, List.takeWhile_cons_of_neg (by decide),
      List.append_nil]

/-- **The lines of a message** set the fields one after the other; the
empty line closes the event. -/
theorem readFrame_lines {lines : List (Field × List Byte)} (hne : lines ≠ [])
    (hvalue : ∀ line ∈ lines, ∀ c ∈ line.2, isLineEnd c = false)
    (hstart : ∀ line ∈ lines, line.2.head? ≠ some space) (struct : Event) (rest : List Byte) :
    readFrame false struct (lines.flatMap lineBytes ++ newline :: rest)
      = (lines.foldl (fun s line => line.1.set s line.2) struct :: (readFrame false {} rest).1,
          (readFrame false {} rest).2) := by
  induction lines generalizing struct with
  | nil => exact absurd rfl hne
  | cons line lines ih =>
    have hread := readLine_line struct line.1 (hstart line List.mem_cons_self)
    cases lines with
    | nil =>
      obtain ⟨hdrop, htake⟩ := dropWhile_line line (hvalue line List.mem_cons_self)
        (newline :: rest)
      rw [List.flatMap_cons, List.flatMap_nil, List.append_nil, readFrame_line hdrop, htake,
        hread, if_pos rfl]
      rfl
    | cons line' lines =>
      -- the next line starts with a name
      obtain ⟨c, tail, hc, htail⟩ : ∃ c tail, c ≠ newline
          ∧ (line' :: lines).flatMap lineBytes ++ newline :: rest = c :: tail := by
        rw [List.flatMap_cons, lineBytes]
        cases line'.1 with
        | _ => exact ⟨_, _, by decide, rfl⟩
      obtain ⟨hdrop, htake⟩ := dropWhile_line line (hvalue line List.mem_cons_self) (c :: tail)
      rw [List.flatMap_cons, List.append_assoc, htail, readFrame_line hdrop, htake, hread,
        if_neg hc, ← htail]
      exact ih (List.cons_ne_nil _ _) (fun l hl => hvalue l (List.mem_cons_of_mem _ hl))
        (fun l hl => hstart l (List.mem_cons_of_mem _ hl)) _

theorem lookup_eq_none {lines : List (Field × List Byte)} {field : Field}
    (h : field ∉ lines.map Prod.fst) : lines.lookup field = none := by
  rw [List.lookup_eq_none_iff]
  intro line hline
  rw [bne_iff_ne]
  rintro rfl
  exact h (List.mem_map_of_mem hline)

theorem foldl_set {lines : List (Field × List Byte)} (hnodup : (lines.map Prod.fst).Nodup)
    (struct : Event) :
    lines.foldl (fun s line => line.1.set s line.2) struct
      = { event := (lines.lookup .event).or struct.event
          id := (lines.lookup .id).or struct.id
          data := (lines.lookup .data).or struct.data } := by
  induction lines generalizing struct with
  | nil => rfl
  | cons line lines ih =>
    rw [List.map_cons, List.nodup_cons] at hnodup
    have hnone := lookup_eq_none hnodup.1
    obtain ⟨field, value⟩ := line
    rw [List.foldl_cons, ih hnodup.2]
    cases field <;> simp [Field.set, List.lookup_cons, beq_eq_decide, hnone]

theorem readFrame_messages (messages : List Message) :
    readFrame false {} (messages.flatMap Message.bytes) = (messages.map Message.event, none) := by
  induction messages with
  | nil => exact readFrame_nil false {}
  | cons m messages ih =>
    have hbytes : (m :: messages).flatMap Message.bytes
        = m.lines.flatMap lineBytes ++ newline :: messages.flatMap Message.bytes := by
      simp [Message.bytes]
    rw [hbytes, readFrame_lines m.lines_ne m.value_line m.value_start, ih,
      foldl_set m.fields_nodup]
    simp [Message.event]

/-- **Streamed events.** The chunks of any bytes give the events of the
bytes in one frame; and the bytes of messages give the messages. -/
theorem streamToEvents_exact :
    (∀ chunks : List (List Byte), (∀ chunk ∈ chunks, chunk ≠ []) →
      (streamToEvents {} chunks).1 = (frameToEvents {} chunks.flatten).1.getD [])
    ∧ ∀ (messages : List Message) (chunks : List (List Byte)), (∀ chunk ∈ chunks, chunk ≠ []) →
        chunks.flatten = messages.flatMap Message.bytes →
          (streamToEvents {} chunks).1 = messages.map Message.event
            ∧ (frameToEvents {} (messages.flatMap Message.bytes)).1.getD []
                = messages.map Message.event := by
  refine ⟨fun chunks hne => ?_, fun messages chunks hne hbytes => ⟨?_, ?_⟩⟩
  · rw [(streamToEvents_eq hne).1, frameToEvents_eq]
  · rw [(streamToEvents_eq hne).1, hbytes, readFrame_messages]
  · rw [frameToEvents_eq, readFrame_messages]

def hello : Message where
  lines := [(.id, ofText "1"), (.data, ofText "a: b")]
  lines_ne := by decide
  fields_nodup := by decide
  value_line := by decide +kernel
  value_start := by decide +kernel

/-- A message cut in its first field name. -/
theorem streamToEvents_exact_hello :
    (streamToEvents {} [hello.bytes.take 1, hello.bytes.drop 1]).1
        = (frameToEvents {} [hello.bytes.take 1, hello.bytes.drop 1].flatten).1.getD []
    ∧ (streamToEvents {} [hello.bytes.take 1, hello.bytes.drop 1]).1 = [hello].map Message.event
    ∧ (frameToEvents {} ([hello].flatMap Message.bytes)).1.getD [] = [hello].map Message.event := by
  have hne : ∀ chunk ∈ [hello.bytes.take 1, hello.bytes.drop 1], chunk ≠ [] := by decide +kernel
  have hbytes : [hello.bytes.take 1, hello.bytes.drop 1].flatten = [hello].flatMap Message.bytes := by
    decide +kernel
  exact ⟨streamToEvents_exact.1 _ hne, streamToEvents_exact.2 [hello] _ hne hbytes⟩

end Sse

end KongGateway.Kong.Llm

import KongGateway.Kong.Tools.AwsStream.Headers

/-!
# AwsStream — messages

A message is read when its length, its headers up to the length declared
for them and the checksums behind them are there. Else the reader raises an
error, or takes bytes out of the buffer and returns an error.
-/

namespace KongGateway.Kong.Tools.AwsStream

open Bytes Numerals

theorem nextInt32_of_le {b : Text} (h : 4 ≤ b.length) (rc : Nat) :
    nextInt 32 (holds b rc)
      = .ok (.ok (some (number (b.take 4)), toHex (b.take 4)), holds (b.drop 4) (4 + rc)) :=
  nextInt_of_le (by decide : 0 < 4) h rc

theorem nextInt32_of_lt {b : Text} (h : b.length < 4) (rc : Nat) :
    ∃ err, nextInt 32 (holds b rc) = .ok (.error err, holds [] rc) :=
  nextInt_of_lt (by decide : 0 < 4) h rc

/-! ## The pieces of a message -/

theorem nextMessage_of_incomplete {b : Text} (h : Incomplete b) (rc : Nat) :
    nextMessage (holds b rc)
      = .ok (.error (ofText "not enough bytes in buffer for a complete message"), holds b rc) := by
  have hcomplete : (holds b rc).hasCompleteMessage = false := by
    rw [← Bool.not_eq_true, hasCompleteMessage_holds]
    exact not_not_intro h
  rw [nextMessage, @bind_of_ok _ _ get _ (holds b rc) (holds b rc) _ rfl, if_pos hcomplete]
  rfl

theorem nextMessage_of_le {b : Text} (h : ¬ Incomplete b) (hlength : 12 ≤ b.length) :
    nextMessage (holds b 0) = (do
      let headers ← readHeaders (number ((b.drop 4).take 4)) 0 ∅
      let readCount := (← get).readCount
      let body ← nextUtf8 (some ((declared b : Int) - readCount - 4))
      let _ ← nextInt 32
      modify fun s => { s with readCount := 0 }
      return .ok ⟨headers, body⟩ : Method (Except Text Message)) (holds (b.drop 12) 12) := by
  have hcomplete : ¬ (holds b 0).hasCompleteMessage = false := by
    rw [Bool.not_eq_false, hasCompleteMessage_holds]
    exact h
  have hheaders : 4 ≤ (b.drop 4).length := by
    rw [List.length_drop]
    omega
  have hchecksum : 4 ≤ ((b.drop 4).drop 4).length := by
    rw [List.length_drop, List.length_drop]
    omega
  rw [nextMessage, @bind_of_ok _ _ get _ (holds b 0) (holds b 0) _ rfl, if_neg hcomplete,
    bind_of_ok (nextInt32_of_le (by omega) 0)]
  dsimp only
  rw [bind_of_ok (nextInt32_of_le hheaders _)]
  dsimp only
  rw [bind_of_ok (nextInt32_of_le hchecksum _), List.drop_drop, List.drop_drop]
  rfl

/-- What is read when the headers cover the length declared for them and leave bytes for
the checksum. -/
theorem nextMessage_of_covers {b : Text} (h : ¬ Incomplete b) (hlength : 12 ≤ b.length)
    {headers : List Header} {rest : Text} (hb : b.drop 12 = headerBytes headers ++ rest)
    (hcovers : Covers (number ((b.drop 4).take 4)) headers) {n : Nat}
    (hn : declared b = 12 + (headerBytes headers).length + n + 4) :
    nextMessage (holds b 0)
      = .ok (.ok ⟨setHeaders ∅ headers, rest.take n⟩, holds (rest.drop (n + 4)) 0) := by
  have hrest : n + 4 ≤ rest.length := by
    have hdrop := congrArg List.length hb
    rw [List.length_drop, List.length_append] at hdrop
    have hle : ¬ b.length < declared b := fun hlt => h (Or.inr hlt)
    omega
  have hchecksum : 4 ≤ (rest.drop n).length := by
    rw [List.length_drop]
    omega
  have hcount : (declared b : Int) - (((headerBytes headers).length + 12 : Nat) : Int) - 4
      = (n : Int) := by
    omega
  have hread : readHeaders (number ((b.drop 4).take 4)) 0 ∅ (holds (headerBytes headers ++ rest) 12)
      = .ok (setHeaders ∅ headers, holds rest ((headerBytes headers).length + 12)) :=
    readHeaders_of_covers hcovers ∅ rest 12
  rw [nextMessage_of_le h hlength, hb, bind_of_ok hread,
    @bind_of_ok _ _ get _ (holds rest _) (holds rest _) _ rfl, holds_readCount, hcount,
    bind_of_ok (nextUtf8_of_le (by omega) _), bind_of_ok (nextInt32_of_le hchecksum _),
    List.drop_drop]
  rfl

/-! ## Malformed input -/

/-- A complete message with its lengths, headers up to the length declared for them, and
what the declared length leaves for the checksum. -/
def Readable (b : Text) : Prop :=
  12 ≤ b.length ∧ ∃ headers rest, b.drop 12 = headerBytes headers ++ rest
    ∧ Covers (number ((b.drop 4).take 4)) headers
    ∧ 12 + (headerBytes headers).length + 4 ≤ declared b

/-- A message or an error is returned, and bytes that are not enough stay. -/
def Clean (b : Text) : Prop :=
  ∃ result s', nextMessage (holds b 0) = .ok (result, s')
    ∧ ∀ err, result = .error err → s' = holds b 0

/-- A complete message that ends before its lengths is lost or raises an error. -/
theorem not_clean_of_lt {b : Text} (h : ¬ Incomplete b) (hlength : b.length < 12) : ¬ Clean b := by
  rintro ⟨result, s', hrun, hsame⟩
  have hle : 4 ≤ b.length ∧ declared b ≤ b.length := by
    constructor
    · exact Nat.le_of_not_lt fun hlt => h (Or.inl hlt)
    · exact Nat.le_of_not_lt fun hlt => h (Or.inr hlt)
  have hcomplete : ¬ (holds b 0).hasCompleteMessage = false := by
    rw [Bool.not_eq_false, hasCompleteMessage_holds]
    exact h
  rw [nextMessage, @bind_of_ok _ _ get _ (holds b 0) (holds b 0) _ rfl, if_neg hcomplete,
    bind_of_ok (nextInt32_of_le hle.1 0)] at hrun
  dsimp only at hrun
  by_cases height : (b.drop 4).length < 4
  · -- the length of the headers is missing
    obtain ⟨err, herr⟩ := nextInt32_of_lt height (4 + 0)
    rw [bind_of_ok herr] at hrun
    cases hrun
    have hchunk := congrArg (fun s => s.chunk.length) (hsame err rfl)
    simp only [holds_chunk, length_toHex, List.length_nil] at hchunk
    omega
  · -- the checksum of the lengths is missing
    have hpreamble : ((b.drop 4).drop 4).length < 4 := by
      rw [List.length_drop, List.length_drop]
      omega
    obtain ⟨err, herr⟩ := nextInt32_of_lt hpreamble (4 + (4 + 0))
    rw [bind_of_ok (nextInt32_of_le (Nat.le_of_not_lt height) _)] at hrun
    dsimp only at hrun
    rw [bind_of_ok herr] at hrun
    obtain ⟨headers, s₁, hheaders, hbody⟩ := bind_eq_ok hrun
    obtain ⟨hs, rest, -, hnil, -, rfl⟩ := readHeaders_ok hheaders
    obtain ⟨s₂, s₃, hget, hbody⟩ := bind_eq_ok hbody
    cases hget
    obtain ⟨body, s₄, htext, -⟩ := bind_eq_ok hbody
    obtain ⟨n, hn, -⟩ := nextUtf8_ok htext
    have hcount := Option.some.inj hn
    rw [holds_readCount] at hcount
    have hdeclared : declared b = number (b.take 4) := rfl
    omega

theorem readable_of_clean {b : Text} (h : ¬ Incomplete b) (hclean : Clean b) : Readable b := by
  have hlength : 12 ≤ b.length := Nat.le_of_not_lt fun hlt => not_clean_of_lt h hlt hclean
  obtain ⟨result, s', hrun, -⟩ := hclean
  rw [nextMessage_of_le h hlength] at hrun
  obtain ⟨headers, s₁, hheaders, hbody⟩ := bind_eq_ok hrun
  obtain ⟨hs, rest, hcovers, hdrop, -, rfl⟩ := readHeaders_ok hheaders
  obtain ⟨s₂, s₃, hget, hbody⟩ := bind_eq_ok hbody
  cases hget
  obtain ⟨body, s₄, htext, -⟩ := bind_eq_ok hbody
  obtain ⟨n, hn, -⟩ := nextUtf8_ok htext
  have hcount := Option.some.inj hn
  rw [holds_readCount] at hcount
  refine ⟨hlength, hs, rest, hdrop, hcovers, ?_⟩
  omega

theorem clean_iff (b : Text) : Clean b ↔ Incomplete b ∨ Readable b := by
  constructor
  · intro hclean
    by_cases h : Incomplete b
    · exact Or.inl h
    · exact Or.inr (readable_of_clean h hclean)
  · intro h
    by_cases hincomplete : Incomplete b
    · exact ⟨_, _, nextMessage_of_incomplete hincomplete 0, fun _ _ => rfl⟩
    · obtain ⟨hlength, headers, rest, hdrop, hcovers, hle⟩ := h.resolve_left hincomplete
      have hn : declared b = 12 + (headerBytes headers).length
          + (declared b - (12 + (headerBytes headers).length + 4)) + 4 := by
        omega
      have hrun := nextMessage_of_covers hincomplete hlength hdrop hcovers hn
      refine ⟨_, _, hrun, ?_⟩
      intro err herr
      cases herr

/-- A header of the type for a byte raises an error. -/
theorem byteHeader_not_clean :
    ¬ Clean [0, 0, 0, 20, 0, 0, 0, 4, 0, 0, 0, 0, 1, 107, 2, 5, 0, 0, 0, 0] := by
  rintro ⟨result, s', hrun, -⟩
  have hcomplete : ¬ Incomplete [0, 0, 0, 20, 0, 0, 0, 4, 0, 0, 0, 0, 1, 107, 2, 5, 0, 0, 0, 0] := by
    unfold Incomplete declared
    decide
  rw [nextMessage_of_le hcomplete (by decide)] at hrun
  obtain ⟨headers, s₁, hheaders, -⟩ := bind_eq_ok hrun
  have hraised : readHeader (holds [1, 107, 2, 5, 0, 0, 0, 0] 12)
      = .error "attempt to call a nil value" := by
    rfl
  have hneed : number (([0, 0, 0, 4, 0, 0, 0, 0, 1, 107, 2, 5, 0, 0, 0, 0] : Text).take 4) = 4 := by
    decide
  change readHeaders (number (([0, 0, 0, 4, 0, 0, 0, 0, 1, 107, 2, 5, 0, 0, 0, 0] : Text).take 4)) 0 ∅
    (holds [1, 107, 2, 5, 0, 0, 0, 0] 12) = _ at hheaders
  rw [hneed, readHeaders, if_pos (by decide), bind_of_error hraised] at hheaders
  cases hheaders

/-! ## Frames -/

/-- A message as it is sent, with its two checksums; the lengths fit their fields. -/
structure Frame where
  headers : List Header
  preambleChecksum : Text
  body : Text
  checksum : Text
  distinct : (headers.map Header.key).Nodup
  preamble_length : preambleChecksum.length = 4
  checksum_length : checksum.length = 4
  total_lt : 16 + (headerBytes headers).length + body.length < 256 ^ 4

namespace Frame

variable (f : Frame)

def total : Nat := 16 + (headerBytes f.headers).length + f.body.length

/-- The preamble. -/
def preamble : Text :=
  padded 4 f.total ++ (padded 4 (headerBytes f.headers).length ++ f.preambleChecksum)

def encode : Text := f.preamble ++ (headerBytes f.headers ++ (f.body ++ f.checksum))

/-- The message that is read. -/
def message : Message := ⟨setHeaders ∅ f.headers, f.body⟩

theorem length_total : (padded 4 f.total).length = 4 := length_padded f.total_lt

theorem length_need : (padded 4 (headerBytes f.headers).length).length = 4 := by
  have hlt := f.total_lt
  exact length_padded (by omega)

theorem length_preamble : f.preamble.length = 12 := by
  have htotal := f.length_total
  have hneed := f.length_need
  have hchecksum := f.preamble_length
  rw [preamble, List.length_append, List.length_append]
  omega

theorem length_encode : f.encode.length = f.total := by
  have hpreamble := f.length_preamble
  have hchecksum := f.checksum_length
  rw [encode, total, List.length_append, List.length_append, List.length_append]
  omega

theorem declared_encode (more : Text) : declared (f.encode ++ more) = f.total := by
  rw [declared, encode, preamble, List.append_assoc, List.append_assoc,
    List.take_left' f.length_total, number_padded]

end Frame

theorem covers_headerBytes (headers : List Header) : Covers (headerBytes headers).length headers := by
  induction headers with
  | nil => rfl
  | cons h headers ih =>
    have hpos := length_encodeHeader h
    refine ⟨?_, ?_⟩
    · rw [headerBytes_cons, List.length_append]
      omega
    · rw [headerBytes_cons, List.length_append, Nat.add_sub_cancel_left]
      exact ih

theorem complete_encode (f : Frame) (more : Text) : ¬ Incomplete (f.encode ++ more) := by
  have hlength := f.length_encode
  have hdeclared := f.declared_encode more
  have htotal : f.total = 16 + (headerBytes f.headers).length + f.body.length := rfl
  rw [Incomplete, hdeclared, List.length_append]
  omega

theorem nextMessage_encode (f : Frame) (more : Text) :
    nextMessage (holds (f.encode ++ more) 0) = .ok (.ok f.message, holds more 0) := by
  have hlength := f.length_encode
  have hdeclared := f.declared_encode more
  have htotal : f.total = 16 + (headerBytes f.headers).length + f.body.length := rfl
  have hdrop : (f.encode ++ more).drop 12
      = headerBytes f.headers ++ (f.body ++ (f.checksum ++ more)) := by
    rw [Frame.encode, List.append_assoc, List.drop_left' f.length_preamble, List.append_assoc,
      List.append_assoc]
  have hneed : number (((f.encode ++ more).drop 4).take 4) = (headerBytes f.headers).length := by
    rw [Frame.encode, Frame.preamble, List.append_assoc, List.append_assoc,
      List.drop_left' f.length_total, List.append_assoc, List.take_left' f.length_need,
      number_padded]
  have hrun := @nextMessage_of_covers _ (complete_encode f more) (by rw [List.length_append]; omega) _ _ hdrop
    (by rw [hneed]; exact covers_headerBytes f.headers) f.body.length (by omega)
  rw [hrun, List.take_left, ← List.append_assoc,
    List.drop_left' (by rw [List.length_append, f.checksum_length])]
  rfl

theorem incomplete_of_start {p : Text} {frames : List Frame}
    (h : Framing.Partial Frame.encode p frames) : Incomplete p := by
  rcases h with ⟨rfl, -⟩ | ⟨f, rest, -, ⟨tail, htail⟩, hne⟩
  · exact Or.inl (by decide)
  · by_cases hlength : p.length < 4
    · exact Or.inl hlength
    · right
      have htake : declared p = f.total := by
        have hdeclared := f.declared_encode []
        rwa [List.append_nil, ← htail, declared, List.take_append_of_le_length (by omega)]
          at hdeclared
      have hpos : 0 < tail.length := by
        refine List.length_pos_iff.mpr ?_
        rintro rfl
        exact hne (by rw [← htail, List.append_nil])
      have htotal := f.length_encode
      rw [← htail, List.length_append] at htotal
      omega

/-! ## The table of headers -/

theorem get_setHeaders {headers : List Header} (h : (headers.map Header.key).Nodup)
    (k : Text) (v : HeaderValue) :
    (setHeaders ∅ headers).get k = some v ↔ ∃ hd ∈ headers, hd.key = k ∧ hd.value = v := by
  suffices hall : ∀ t : LuaTable Text HeaderValue, (∀ hd ∈ headers, t.get hd.key = none) →
      ((setHeaders t headers).get k = some v
        ↔ t.get k = some v ∨ ∃ hd ∈ headers, hd.key = k ∧ hd.value = v) by
    have hempty := hall ∅ fun hd _ => LuaTable.get_empty hd.key
    simpa using hempty
  induction headers with
  | nil => simp [setHeaders]
  | cons hd headers ih =>
    intro t hnone
    rw [List.map_cons, List.nodup_cons] at h
    obtain ⟨hfresh, hrest⟩ := h
    have hstep : setHeaders t (hd :: headers) = setHeaders (t.set hd.key (some hd.value)) headers :=
      rfl
    have hnone' : ∀ other ∈ headers,
        (t.set hd.key (some hd.value)).get other.key = none := by
      intro other hother
      have hne : other.key ≠ hd.key := fun heq => hfresh (heq ▸ List.mem_map_of_mem hother)
      rw [LuaTable.get_set_ne t hne]
      exact hnone other (List.mem_cons_of_mem _ hother)
    rw [hstep, ih hrest _ hnone', LuaTable.get_set]
    by_cases hk : k = hd.key
    · subst hk
      have hthis := hnone hd List.mem_cons_self
      rw [if_pos rfl, hthis]
      simp only [Option.some.injEq, List.mem_cons, exists_eq_or_imp, true_and, reduceCtorEq,
        false_or]
    · rw [if_neg hk]
      simp only [List.mem_cons, exists_eq_or_imp, Ne.symm hk, false_and, false_or]

end KongGateway.Kong.Tools.AwsStream

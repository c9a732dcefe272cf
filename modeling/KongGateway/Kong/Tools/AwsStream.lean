import KongGateway.Kong.Tools.Http

/-!
# AwsStream — `kong.tools.aws_stream`

The stream holds a hexadecimal copy of the bytes that have come and counts
what it reads of the current message. `next_message` reads the lengths, the
headers by their types, and the body as what is left of the declared
length. The methods change the stream and may raise an error; `nil` with an
error text is the inner `Except`.
-/

namespace KongGateway.Kong.Tools.AwsStream

open Bytes Numerals

/-- `self`; `chunk` is the string buffer. -/
structure Stream where
  chunk : Text
  readCount : Nat
  deriving DecidableEq

abbrev Method (α : Type) := StateT Stream (Except String) α

/-- `tonumber(s, 16)` on digits. -/
def tonumber16 (s : Text) : Option Nat :=
  if s ≠ [] ∧ s.all isHex = true then some (hexNumber s) else none

/-- `Stream:add` -/
def Stream.add (s : Stream) (chunk : Text) (isHex : Bool) : Stream :=
  { s with chunk := s.chunk ++ if isHex then chunk else toHex chunk }

/-- `Stream:new` -/
def Stream.new (chunk : Text) (isHex : Bool) : Stream :=
  ⟨if isHex then chunk else toHex chunk, 0⟩

/-- `n / 2` as a text. -/
def halfText (n : Nat) : Text := decimal (n / 2) ++ if n % 2 = 1 then ofText ".5" else []

/-- The error of `next_bytes`. -/
def notEnough (count : Nat) (bytes : Text) : Text :=
  ofText "not enough bytes in buffer when trying to read " ++ decimal count
    ++ ofText " bytes, only " ++ halfText bytes.length ++ ofText " bytes available"

/-- `Stream:next_bytes`; `get` on the buffer refuses negative counts. -/
def nextBytes : Option Int → Method (Except Text Text)
  | none => throw "attempt to perform arithmetic on local 'count' (a nil value)"
  | some (.negSucc _) => throw "bad argument #1 to 'get' (number out of range)"
  | some (.ofNat count) => do
    let s ← get
    let bytes := s.chunk.take (count * 2)
    let chunk := s.chunk.drop (count * 2)
    if bytes.length < count * 2 then
      set (⟨chunk, s.readCount⟩ : Stream)
      return .error (notEnough count bytes)
    else
      set (⟨chunk, count + s.readCount⟩ : Stream)
      return .ok bytes

/-- The loop of `next_utf_8` over pairs of digits. -/
def charsOfHex : Text → Except String Text
  | a :: b :: rest =>
    match tonumber16 [a, b] with
    | none => .error "bad argument #1 to 'char' (number expected, got nil)"
    | some n => (charsOfHex rest).map fun chars => Fin.ofNat 256 n :: chars
  | [a] =>
    match tonumber16 [a] with
    | none => .error "bad argument #1 to 'char' (number expected, got nil)"
    | some n => .ok [Fin.ofNat 256 n]
  | [] => .ok []

/-- `Stream:next_utf_8` -/
def nextUtf8 (count : Option Int) : Method Text := do
  match ← nextBytes count with
  | .error _ => throw "attempt to get length of local 'utf_bytes' (a nil value)"
  | .ok utfBytes => liftM (charsOfHex utfBytes)

/-- `Stream:next_int`; the number is `nil` when the buffer had no digits. -/
def nextInt (size : Nat) : Method (Except Text (Option Nat × Text)) := do
  if size < 8 then
    return .error (ofText "cannot work on integers smaller than 8 bits long")
  else
    match ← nextBytes (some ((size / 8 : Nat) : Int)) with
    | .error err => return .error err
    | .ok int => return .ok (tonumber16 int, int)

/-- The first value that `next_int` returns. -/
def firstInt (size : Nat) : Method (Option Nat) := do
  match ← nextInt size with
  | .error _ => return none
  | .ok (n, _) => return n

inductive HeaderValue where
  | bool (b : Bool)
  | text (s : Text)
  deriving DecidableEq

/-- `_HEADER_EXTRACTORS[header_type](self)` -/
def headerExtractor : Option Nat → Method (HeaderValue × Nat)
  | some 0 => return (.bool true, 0)
  | some 1 => return (.bool false, 0)
  | some 7 => do
    let headerValueLen ← firstInt 16
    let value ← nextUtf8 (headerValueLen.map Int.ofNat)
    return (.text value, headerValueLen.getD 0 + 2)
  | _ => throw "attempt to call a nil value"

/-- A pass of the loop over the headers: the key, the value, and the bytes of key
and value. -/
def readHeader : Method (Text × HeaderValue × Nat) := do
  let headerKeyLen ← firstInt 8
  let headerKey ← nextUtf8 (headerKeyLen.map Int.ofNat)
  let headerType ← firstInt 8
  let (headerValue, headerValueLen) ← headerExtractor headerType
  return (headerKey, headerValue, headerKeyLen.getD 0 + headerValueLen)

/-- The loop over the headers. The length of the key and the type are a byte
each. -/
def readHeaders (headersLen headersBytesRead : Nat) (headers : LuaTable Text HeaderValue) :
    Method (LuaTable Text HeaderValue) :=
  if headersBytesRead < headersLen then do
    let (key, value, n) ← readHeader
    readHeaders headersLen (headersBytesRead + 2 + n) (headers.set key (some value))
  else
    return headers
termination_by headersLen - headersBytesRead

/-- `hex_char_to_int` -/
def hexCharToInt (c : Byte) : Int := if c.val < 58 then (c.val : Int) - 48 else (c.val : Int) - 87

/-- The length in the first eight digits. -/
def messageLength (chunk : Text) : Int :=
  (List.range 4).foldl (fun msgLen i =>
    msgLen * 256 + hexCharToInt ((chunk[i * 2]?).getD 0) * 16
      + hexCharToInt ((chunk[i * 2 + 1]?).getD 0)) 0

/-- `Stream:has_complete_message`, with the lengths in digits. -/
def Stream.hasCompleteMessage (s : Stream) : Bool :=
  if s.chunk.length < 8 then false else decide (messageLength s.chunk * 2 ≤ s.chunk.length)

/-- The table of `next_message`. -/
structure Message where
  headers : LuaTable Text HeaderValue
  body : Text

/-- `Stream:next_message` -/
def nextMessage : Method (Except Text Message) := do
  if (← get).hasCompleteMessage = false then
    return .error (ofText "not enough bytes in buffer for a complete message")
  else
    match ← nextInt 32 with
    | .error err => return .error err
    | .ok (msgLen, _) =>
      match ← nextInt 32 with
      | .error err => return .error err
      | .ok (none, _) => throw "attempt to compare nil with number"
      | .ok (some headersLen, _) =>
        let _ ← nextInt 32
        let headers ← readHeaders headersLen 0 ∅
        let readCount := (← get).readCount
        match msgLen with
        | none => throw "attempt to perform arithmetic on local 'msg_len' (a nil value)"
        | some msgLen =>
          let body ← nextUtf8 (some ((msgLen : Int) - readCount - 4))
          let _ ← nextInt 32
          modify fun s => { s with readCount := 0 }
          return .ok ⟨headers, body⟩

/-!
## AwsStream — the methods on bytes

The digits of a stream are those of some bytes; each method is told by
what it takes from these.
-/

/-- The stream that holds bytes. -/
def holds (b : Text) (readCount : Nat) : Stream := ⟨toHex b, readCount⟩

@[simp] theorem holds_chunk (b : Text) (rc : Nat) : (holds b rc).chunk = toHex b := rfl

@[simp] theorem holds_readCount (b : Text) (rc : Nat) : (holds b rc).readCount = rc := rfl

theorem holds_congr {b : Text} {rc rc' : Nat} (h : rc = rc') : holds b rc = holds b rc' :=
  congrArg (holds b) h

theorem add_holds (b c : Text) (rc : Nat) : (holds b rc).add c false = holds (b ++ c) rc := by
  simp only [Stream.add, holds, toHex_append, Bool.false_eq_true, if_false]

theorem take_toHex (b : Text) (n : Nat) : (toHex b).take (n * 2) = toHex (b.take n) := by
  induction n generalizing b with
  | zero => rw [Nat.zero_mul, List.take_zero, List.take_zero]; rfl
  | succ n ih =>
    cases b with
    | nil => rw [List.take_nil]; exact List.take_nil
    | cons c b =>
      have hcount : (n + 1) * 2 = n * 2 + 1 + 1 := by omega
      rw [List.take_succ_cons, toHex_cons, toHex_cons, hcount, List.take_succ_cons,
        List.take_succ_cons, ih]

theorem drop_toHex (b : Text) (n : Nat) : (toHex b).drop (n * 2) = toHex (b.drop n) := by
  have hcut := List.take_append_drop (n * 2) (toHex b)
  rw [take_toHex] at hcut
  have hcut' : toHex (b.take n) ++ toHex (b.drop n) = toHex b := by
    rw [← toHex_append, List.take_append_drop]
  exact List.append_cancel_left (hcut.trans hcut'.symm)

theorem all_isHex_toHex (b : Text) : (toHex b).all isHex = true :=
  List.all_eq_true.mpr fun _ hc => isHex_of_mem_toHex hc

theorem tonumber16_toHex {b : Text} (h : b ≠ []) : tonumber16 (toHex b) = some (number b) := by
  have hne : toHex b ≠ [] := by
    intro hnil
    have hlength := congrArg List.length hnil
    rw [length_toHex] at hlength
    exact h (List.length_eq_zero_iff.mp (by simpa using hlength))
  rw [tonumber16, if_pos ⟨hne, all_isHex_toHex b⟩, hexNumber_toHex]

theorem charsOfHex_toHex (b : Text) : charsOfHex (toHex b) = .ok b := by
  induction b with
  | nil => rfl
  | cons c b ih =>
    have hpair : tonumber16 [hexDigit (c.val / 16), hexDigit (c.val % 16)] = some c.val := by
      have hnumber := tonumber16_toHex (List.cons_ne_nil c [])
      have hone : number [c] = c.val := by simp [number]
      rwa [hone] at hnumber
    rw [toHex_cons, charsOfHex, hpair]
    simp only [ih, Except.map]
    rw [ofNat_eq rfl]

/-! ## Runs of methods -/

section

variable {α β : Type} {m : Method α} {f : α → Method β} {s s' : Stream} {a : α} {raised : String}

theorem bind_of_ok (h : m s = .ok (a, s')) : (m >>= f) s = f a s' := by
  have hbind : (m >>= f) s = (m s >>= fun found => f found.1 found.2) := rfl
  rw [hbind, h]
  rfl

theorem bind_of_error (h : m s = .error raised) : (m >>= f) s = .error raised := by
  have hbind : (m >>= f) s = (m s >>= fun found => f found.1 found.2) := rfl
  rw [hbind, h]
  rfl

theorem bind_eq_ok {r : β × Stream} (h : (m >>= f) s = .ok r) :
    ∃ a s', m s = .ok (a, s') ∧ f a s' = .ok r := by
  cases hm : m s with
  | error raised =>
    rw [bind_of_error hm] at h
    cases h
  | ok found =>
    obtain ⟨a, s'⟩ := found
    rw [bind_of_ok hm] at h
    exact ⟨a, s', rfl, h⟩

end

/-! ## Reading bytes -/

/-- What `next_bytes` does with the buffer. -/
theorem nextBytes_eq (n : Nat) (s : Stream) :
    nextBytes (some (n : Int)) s
      = if (s.chunk.take (n * 2)).length < n * 2 then
          .ok (.error (notEnough n (s.chunk.take (n * 2))), ⟨s.chunk.drop (n * 2), s.readCount⟩)
        else .ok (.ok (s.chunk.take (n * 2)), ⟨s.chunk.drop (n * 2), n + s.readCount⟩) := by
  change nextBytes (some (Int.ofNat n)) s = _
  rw [nextBytes, bind_of_ok rfl]
  split
  · exact bind_of_ok rfl
  · exact bind_of_ok rfl

theorem nextBytes_of_le {b : Text} {n : Nat} (h : n ≤ b.length) (rc : Nat) :
    nextBytes (some (n : Int)) (holds b rc)
      = .ok (.ok (toHex (b.take n)), holds (b.drop n) (n + rc)) := by
  have hlength : ¬ ((holds b rc).chunk.take (n * 2)).length < n * 2 := by
    rw [holds_chunk, take_toHex, length_toHex, List.length_take]
    omega
  rw [nextBytes_eq, if_neg hlength, holds_chunk, take_toHex, drop_toHex]
  rfl

theorem nextBytes_of_lt {b : Text} {n : Nat} (h : b.length < n) (rc : Nat) :
    ∃ err, nextBytes (some (n : Int)) (holds b rc) = .ok (.error err, holds [] rc) := by
  have hlength : ((holds b rc).chunk.take (n * 2)).length < n * 2 := by
    rw [holds_chunk, take_toHex, length_toHex, List.length_take]
    omega
  refine ⟨notEnough n ((holds b rc).chunk.take (n * 2)), ?_⟩
  rw [nextBytes_eq, if_pos hlength, holds_chunk, drop_toHex, List.drop_eq_nil_of_le h.le]
  rfl

theorem nextUtf8_of_le {b : Text} {n : Nat} (h : n ≤ b.length) (rc : Nat) :
    nextUtf8 (some (n : Int)) (holds b rc) = .ok (b.take n, holds (b.drop n) (n + rc)) := by
  rw [nextUtf8, bind_of_ok (nextBytes_of_le h rc)]
  dsimp only
  rw [charsOfHex_toHex]
  rfl

theorem nextUtf8_ok {b v : Text} {rc : Nat} {count : Option Int} {s' : Stream}
    (h : nextUtf8 count (holds b rc) = .ok (v, s')) :
    ∃ n : Nat, count = some (n : Int) ∧ n ≤ b.length ∧ v = b.take n
      ∧ s' = holds (b.drop n) (n + rc) := by
  match count, h with
  | none, h =>
    rw [nextUtf8, bind_of_error rfl] at h
    cases h
  | some (.negSucc k), h =>
    rw [nextUtf8, bind_of_error rfl] at h
    cases h
  | some (.ofNat n), h =>
    by_cases hn : n ≤ b.length
    · have hrun := nextUtf8_of_le hn rc
      rw [Int.ofNat_eq_natCast, hrun] at h
      cases h
      exact ⟨n, rfl, hn, rfl, rfl⟩
    · obtain ⟨err, hrun⟩ := nextBytes_of_lt (Nat.lt_of_not_le hn) rc
      rw [nextUtf8, Int.ofNat_eq_natCast, bind_of_ok hrun] at h
      cases h

theorem nextInt_of_le {b : Text} {k : Nat} (hk : 0 < k) (h : k ≤ b.length) (rc : Nat) :
    nextInt (8 * k) (holds b rc)
      = .ok (.ok (some (number (b.take k)), toHex (b.take k)), holds (b.drop k) (k + rc)) := by
  have hsize : ¬ 8 * k < 8 := by omega
  have hcount : 8 * k / 8 = k := by omega
  have hne : b.take k ≠ [] := by
    intro hnil
    have hlength := congrArg List.length hnil
    rw [List.length_take, List.length_nil] at hlength
    omega
  rw [nextInt, if_neg hsize, hcount, bind_of_ok (nextBytes_of_le h rc)]
  dsimp only
  rw [tonumber16_toHex hne]
  rfl

theorem nextInt_of_lt {b : Text} {k : Nat} (hk : 0 < k) (h : b.length < k) (rc : Nat) :
    ∃ err, nextInt (8 * k) (holds b rc) = .ok (.error err, holds [] rc) := by
  have hsize : ¬ 8 * k < 8 := by omega
  have hcount : 8 * k / 8 = k := by omega
  obtain ⟨err, hrun⟩ := nextBytes_of_lt h rc
  refine ⟨err, ?_⟩
  rw [nextInt, if_neg hsize, hcount, bind_of_ok hrun]
  rfl

theorem firstInt_of_le {b : Text} {k : Nat} (hk : 0 < k) (h : k ≤ b.length) (rc : Nat) :
    firstInt (8 * k) (holds b rc) = .ok (some (number (b.take k)), holds (b.drop k) (k + rc)) := by
  rw [firstInt, bind_of_ok (nextInt_of_le hk h rc)]
  rfl

theorem firstInt_of_lt {b : Text} {k : Nat} (hk : 0 < k) (h : b.length < k) (rc : Nat) :
    firstInt (8 * k) (holds b rc) = .ok (none, holds [] rc) := by
  obtain ⟨err, hrun⟩ := nextInt_of_lt hk h rc
  rw [firstInt, bind_of_ok hrun]
  rfl

/-! ## Complete messages -/

/-- The length that the first four bytes declare. -/
def declared (b : Text) : Nat := number (b.take 4)

/-- There are not as many bytes as declared. -/
def Incomplete (b : Text) : Prop := b.length < 4 ∨ b.length < declared b

theorem hexCharToInt_hexDigit {n : Nat} (h : n < 16) : hexCharToInt (hexDigit n) = n := by
  have hall : ∀ i : Fin 16, hexCharToInt (hexDigit i) = i.val := by decide
  exact hall ⟨n, h⟩

theorem messageLength_toHex {b : Text} (h : 4 ≤ b.length) :
    messageLength (toHex b) = declared b := by
  match b, h with
  | a :: c :: d :: e :: rest, _ =>
    have hdeclared : declared (a :: c :: d :: e :: rest)
        = ((a.val * 256 + c.val) * 256 + d.val) * 256 + e.val := by
      simp only [declared, List.take_succ_cons, List.take_zero, number, List.map_cons,
        List.map_nil, List.reverse_cons, List.reverse_nil, List.nil_append, List.cons_append,
        Nat.ofDigits_cons, Nat.ofDigits_nil]
      omega
    have hdigits : ∀ x : Byte, hexCharToInt (hexDigit (x.val / 16)) * 16
        + hexCharToInt (hexDigit (x.val % 16)) = x.val := by
      intro x
      have hx := x.isLt
      rw [hexCharToInt_hexDigit (by omega), hexCharToInt_hexDigit (by omega)]
      omega
    have ha := hdigits a
    have hc := hdigits c
    have hd := hdigits d
    have he := hdigits e
    rw [hdeclared]
    simp only [messageLength, toHex_cons, List.range_succ, List.range_zero, List.nil_append,
      List.cons_append, List.foldl_cons, Nat.zero_mul, List.foldl_nil, List.getElem?_cons_zero,
      List.getElem?_cons_succ, Option.getD_some]
    push_cast
    omega

theorem hasCompleteMessage_holds (b : Text) (rc : Nat) :
    (holds b rc).hasCompleteMessage = true ↔ ¬ Incomplete b := by
  unfold Stream.hasCompleteMessage Incomplete
  rw [holds_chunk, length_toHex]
  by_cases h : b.length < 4
  · rw [if_pos (by omega)]
    constructor
    · intro hfalse
      cases hfalse
    · exact fun hnot => absurd (Or.inl h) hnot
  · rw [if_neg (by omega), decide_eq_true_eq, messageLength_toHex (by omega), or_iff_right h]
    omega

end KongGateway.Kong.Tools.AwsStream

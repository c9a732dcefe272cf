import KongGateway.Lib.Numerals
import Mathlib.Data.List.DropRight

/-!
# JsonArray — objects cut out of a stream

`json_array_iterator` and the JSON texts it is run on. The iterator counts
brackets outside of strings from the start of an element on. Along a proper
part of an object a brace or a string is open, so that nothing there
delimits; behind the object all counters are back where they were. An
element that is not complete is kept from its start and counted again.
-/

namespace KongGateway.Kong.Llm.JsonArray

open Bytes Numerals

def quote : Byte := 34
def comma : Byte := 44
def colon : Byte := 58
def openBracket : Byte := 91
def backslash : Byte := 92
def closeBracket : Byte := 93
def openBrace : Byte := 123
def closeBrace : Byte := 125
def newline : Byte := 10
def carriageReturn : Byte := 13

/-! ## The iterator -/

/-- `JSON_ARRAY_TYPE` -/
inductive JsonArrayType
  | jsonl
  | gemini
  | flatJson
deriving DecidableEq

/-- `sep_char` and `sep_char2` -/
def sepChars : JsonArrayType → List Byte
  | .jsonl => [newline]
  | .flatJson => [newline, carriageReturn]
  | .gemini => [comma]

def startChar : JsonArrayType → Option Byte
  | .gemini => some openBracket
  | _ => none

/-- The state of an iterator; `rest` is the input from `pos` on. -/
structure State where
  started : Bool := false
  rest : List Byte := []
  eof : Bool := false
deriving DecidableEq, Repr

/-- `^%s*(.-)%s*$` -/
def strip (s : List Byte) : List Byte := (s.dropWhile isSpace).rdropWhile isSpace

structure Counters where
  braceCount : Int := 0
  bracketCount : Int := 0
  inString : Bool := false
  escapeNext : Bool := false
deriving DecidableEq, Repr

namespace Counters

/-- What a byte changes. -/
def count (c : Counters) (char : Byte) : Counters :=
  let inString := if char = quote ∧ c.escapeNext = false then !c.inString else c.inString
  let escapeNext := decide (char = backslash ∧ c.escapeNext = false)
  if inString then { c with inString, escapeNext }
  else if char = openBrace then ⟨c.braceCount + 1, c.bracketCount, inString, escapeNext⟩
  else if char = closeBrace then ⟨c.braceCount - 1, c.bracketCount, inString, escapeNext⟩
  else if char = openBracket then ⟨c.braceCount, c.bracketCount + 1, inString, escapeNext⟩
  else if char = closeBracket then ⟨c.braceCount, c.bracketCount - 1, inString, escapeNext⟩
  else { c with inString, escapeNext }

/-- The byte that has been counted is the closing bracket of the array. -/
def closes (c : Counters) (char : Byte) : Bool :=
  !c.inString && char = closeBracket && c.braceCount = 0 && c.bracketCount = -1

/-- The byte that has been counted is a separator at top level. -/
def separates (c : Counters) (kind : JsonArrayType) (char : Byte) : Bool :=
  !c.inString && char ∈ sepChars kind && c.braceCount = 0 && c.bracketCount = 0

/-- What lies before the delimiter, when there is one at the byte. -/
def upToDelimiter (c : Counters) (kind : JsonArrayType) (scanned : List Byte) (char : Byte)
    (last : Bool) : Option (List Byte) :=
  if c.closes char || c.separates kind char then some scanned
  else if !c.inString && c.braceCount = 0 && c.bracketCount = 0 && last then
    some (scanned ++ [char])
  else none

end Counters

/-- The loop of the iterator. `scanned` lies between `start_pos` and `pos`;
`passing` is set when a byte is stepped over without being counted. -/
def scan (kind : JsonArrayType) (c : Counters) (passing eof : Bool) (scanned : List Byte) :
    List Byte → Option (List Byte) × State
  | [] => (none, ⟨true, scanned, eof⟩)
  | char :: rest =>
    if passing then scan kind c false eof (scanned ++ [char]) rest
    else
      let c := c.count char
      let eof := eof || c.closes char
      -- `delimiter >= start_pos` and `start_pos < len`: a byte lies before this one
      if scanned = [] then
        if c.separates kind char then scan kind c false eof [] rest
        else scan kind c false eof [char] rest
      else
        match c.upToDelimiter kind scanned char rest.isEmpty with
        | none => scan kind c false eof (scanned ++ [char]) rest
        | some element =>
          if strip element = [] then scan kind c true eof (scanned ++ [char]) rest
          else (some (strip element), ⟨true, rest, eof⟩)

theorem scan_nil {kind : JsonArrayType} {eof : Bool} {scanned : List Byte} (c : Counters)
    (passing : Bool) : scan kind c passing eof scanned [] = (none, ⟨true, scanned, eof⟩) := by
  rw [scan]

/-- A call of the iterator. -/
def next (kind : JsonArrayType) (state : State) : Option (List Byte) × State :=
  scan kind {} false state.eof [] state.rest

/-- What is done before the first element: the start character is looked
for. Without one the message has no text to be put together from. -/
def start (kind : JsonArrayType) (state : State) : Except String State :=
  match startChar kind, state.rest.dropWhile isSpace with
  | some _, [] => .error "Invalid start: expected '['"
  | some start, char :: rest =>
    if char = start then .ok ⟨true, rest, state.eof⟩
    else .error "Invalid start: expected '['"
  | none, [] => .error "attempt to concatenate local 'start_char' (a nil value)"
  | none, rest => .ok ⟨true, rest, state.eof⟩

def jsonArrayIterator (kind : JsonArrayType) (input : List Byte) (prevState : Option State) :
    Except String State :=
  let state := prevState.getD {}
  if state.eof then .error "Iterator has reached end of input"
  else do
    let state := { state with rest := state.rest ++ input }
    let state ← if state.started then .ok state else start kind state
    return { state with rest := state.rest.dropWhile isSpace }

/-! ## JSON texts -/

/-- The whitespace of JSON. -/
def isBlank (c : Byte) : Bool := c.val = 32 ∨ c.val = 9 ∨ c.val = 10 ∨ c.val = 13

def Blank (s : List Byte) : Prop := ∀ c ∈ s, isBlank c = true

instance (s : List Byte) : Decidable (Blank s) := inferInstanceAs (Decidable (∀ c ∈ s, _))

def IsDigits (s : List Byte) : Prop := s ≠ [] ∧ ∀ c ∈ s, isDigit c = true

/-- A number: the sign, the integer, the fraction and the exponent. -/
inductive IsNumber : List Byte → Prop
  | intro {sign int frac exp : List Byte} : sign ∈ [[], ofText "-"]
      → int = ofText "0" ∨ (IsDigits int ∧ int.head? ≠ some 48)
      → frac = [] ∨ (∃ digits, IsDigits digits ∧ frac = ofText "." ++ digits)
      → exp = [] ∨ (∃ e sign digits, e ∈ [ofText "e", ofText "E"]
          ∧ sign ∈ [[], ofText "+", ofText "-"] ∧ IsDigits digits ∧ exp = e ++ sign ++ digits)
      → IsNumber (sign ++ int ++ frac ++ exp)

/-- What stands between the quotes of a string. -/
inductive IsChars : List Byte → Prop
  | nil : IsChars []
  | plain {c : Byte} {s : List Byte} : 32 ≤ c.val → c ≠ quote → c ≠ backslash
      → IsChars s → IsChars (c :: s)
  | escape {c : Byte} {s : List Byte} : c ∈ ofText "\"\\/bfnrt"
      → IsChars s → IsChars (backslash :: c :: s)
  | unicode {digits s : List Byte} : digits.length = 4 → (∀ c ∈ digits, isHex c = true)
      → IsChars s → IsChars (backslash :: 117 :: (digits ++ s))

inductive IsString : List Byte → Prop
  | intro {chars : List Byte} : IsChars chars → IsString (quote :: (chars ++ [quote]))

/-- The symbols of the grammar. -/
inductive Symbol
  | value
  | elements
  | members
  | object

/-- The texts of a symbol. Values and members come without the whitespace
around them. -/
inductive Derives : Symbol → List Byte → Prop
  | word {s : List Byte} : s ∈ [ofText "true", ofText "false", ofText "null"]
      → Derives .value s
  | number {s : List Byte} : IsNumber s → Derives .value s
  | string {s : List Byte} : IsString s → Derives .value s
  | ofObject {s : List Byte} : Derives .object s → Derives .value s
  | emptyArray {b : List Byte} : Blank b
      → Derives .value (openBracket :: (b ++ [closeBracket]))
  | array {s : List Byte} : Derives .elements s
      → Derives .value (openBracket :: (s ++ [closeBracket]))
  | emptyObject {b : List Byte} : Blank b
      → Derives .object (openBrace :: (b ++ [closeBrace]))
  | object {s : List Byte} : Derives .members s
      → Derives .object (openBrace :: (s ++ [closeBrace]))
  | element {b s a : List Byte} : Blank b → Derives .value s → Blank a
      → Derives .elements (b ++ s ++ a)
  | elements {b s a t : List Byte} : Blank b → Derives .value s → Blank a
      → Derives .elements t → Derives .elements (b ++ s ++ a ++ comma :: t)
  | member {b k c d s a : List Byte} : Blank b → IsString k → Blank c → Blank d
      → Derives .value s → Blank a → Derives .members (b ++ k ++ c ++ colon :: (d ++ s ++ a))
  | members {b k c d s a t : List Byte} : Blank b → IsString k → Blank c → Blank d
      → Derives .value s → Blank a → Derives .members t
      → Derives .members (b ++ k ++ c ++ colon :: (d ++ s ++ a) ++ comma :: t)

/-- The text of a JSON object. -/
abbrev IsObject (s : List Byte) : Prop := Derives .object s

/-! ## Open texts -/

namespace Counters

/-- A string or a brace is open. -/
def Open (c : Counters) : Prop := c.inString = true ∨ 1 ≤ c.braceCount

def run (c : Counters) (s : List Byte) : Counters := s.foldl count c

/-- Something is open behind each byte. -/
def OpenAlong (c : Counters) : List Byte → Prop
  | [] => True
  | char :: s => (c.count char).Open ∧ OpenAlong (c.count char) s

@[simp] theorem run_nil (c : Counters) : c.run [] = c := rfl

@[simp] theorem run_cons (c : Counters) (char : Byte) (s : List Byte) :
    c.run (char :: s) = (c.count char).run s := rfl

theorem run_append (c : Counters) (s t : List Byte) : c.run (s ++ t) = (c.run s).run t := by
  rw [run, run, run, List.foldl_append]

theorem openAlong_append {c : Counters} {s t : List Byte} :
    c.OpenAlong (s ++ t) ↔ c.OpenAlong s ∧ (c.run s).OpenAlong t := by
  induction s generalizing c with
  | nil => simp [OpenAlong]
  | cons char s ih =>
    rw [List.cons_append, OpenAlong, OpenAlong, ih, run_cons, and_assoc]

variable {c : Counters} {kind : JsonArrayType} {char : Byte}

theorem closes_of_open (h : c.Open) : c.closes char = false := by
  rw [closes]
  rcases h with h | h
  · simp [h]
  · have hne : c.braceCount ≠ 0 := by omega
    simp [hne]

theorem separates_of_open (h : c.Open) : c.separates kind char = false := by
  rw [separates]
  rcases h with h | h
  · simp [h]
  · have hne : c.braceCount ≠ 0 := by omega
    simp [hne]

theorem upToDelimiter_of_open (h : c.Open) {scanned : List Byte} {last : Bool} :
    c.upToDelimiter kind scanned char last = none := by
  rw [upToDelimiter, closes_of_open h, separates_of_open h]
  rcases h with h | h
  · simp [h]
  · have hne : c.braceCount ≠ 0 := by omega
    simp [hne]

end Counters

/-- The counters outside of strings. -/
abbrev outside (braces brackets : Int) : Counters := ⟨braces, brackets, false, false⟩

/-- Inside of braces a text leaves the counters as they were, and the
braces stay open. -/
def Keeps (s : List Byte) : Prop :=
  ∀ braces brackets : Int, 1 ≤ braces → (outside braces brackets).OpenAlong s
    ∧ (outside braces brackets).run s = outside braces brackets

theorem Keeps.append {s t : List Byte} (hs : Keeps s) (ht : Keeps t) : Keeps (s ++ t) := by
  intro braces brackets h
  have h1 := hs braces brackets h
  have h2 := ht braces brackets h
  rw [Counters.openAlong_append, Counters.run_append, h1.2]
  exact ⟨⟨h1.1, h2.1⟩, h2.2⟩

/-- A byte that the counters do not look at. -/
def isPlain (c : Byte) : Bool :=
  c ∉ [quote, backslash, openBrace, closeBrace, openBracket, closeBracket]

theorem count_plain {c : Byte} (h : isPlain c = true) (braces brackets : Int) :
    (outside braces brackets).count c = outside braces brackets := by
  simp only [isPlain, List.mem_cons, List.not_mem_nil, or_false, not_or,
    decide_eq_true_eq] at h
  obtain ⟨h1, h2, h3, h4, h5, h6⟩ := h
  simp [Counters.count, h1, h2, h3, h4, h5, h6]

theorem keeps_nil : Keeps [] := by
  intro braces brackets _
  exact ⟨trivial, rfl⟩

theorem keeps_cons_plain {c : Byte} {s : List Byte} (h : isPlain c = true) (hs : Keeps s) :
    Keeps (c :: s) := by
  intro braces brackets hle
  rw [Counters.OpenAlong, Counters.run_cons, count_plain h]
  exact ⟨⟨.inr hle, (hs braces brackets hle).1⟩, (hs braces brackets hle).2⟩

theorem keeps_of_plain {s : List Byte} (h : ∀ c ∈ s, isPlain c = true) : Keeps s := by
  induction s with
  | nil => exact keeps_nil
  | cons c s ih =>
    rw [List.forall_mem_cons] at h
    exact keeps_cons_plain h.1 (ih h.2)

theorem isPlain_of_val {c : Byte} (h : c.val ≠ 34 ∧ c.val ≠ 91 ∧ c.val ≠ 92 ∧ c.val ≠ 93
    ∧ c.val ≠ 123 ∧ c.val ≠ 125) : isPlain c = true := by
  obtain ⟨h1, h2, h3, h4, h5, h6⟩ := h
  simp only [isPlain, List.mem_cons, List.not_mem_nil, or_false, not_or, decide_eq_true_eq]
  exact ⟨Fin.ne_of_val_ne h1, Fin.ne_of_val_ne h3, Fin.ne_of_val_ne h5, Fin.ne_of_val_ne h6,
    Fin.ne_of_val_ne h2, Fin.ne_of_val_ne h4⟩

theorem isPlain_of_isBlank {c : Byte} (h : isBlank c = true) : isPlain c = true := by
  rw [isBlank, decide_eq_true_eq] at h
  exact isPlain_of_val (by omega)

theorem isPlain_of_isHex {c : Byte} (h : isHex c = true) : isPlain c = true := by
  rw [isHex, decide_eq_true_eq] at h
  exact isPlain_of_val (by omega)

theorem isPlain_of_isDigit {c : Byte} (h : isDigit c = true) : isPlain c = true := by
  rw [isDigit, decide_eq_true_eq] at h
  exact isPlain_of_val (by omega)

theorem Blank.keeps {b : List Byte} (h : Blank b) : Keeps b :=
  keeps_of_plain fun c hc => isPlain_of_isBlank (h c hc)

theorem IsDigits.keeps {s : List Byte} (h : IsDigits s) : Keeps s :=
  keeps_of_plain fun c hc => isPlain_of_isDigit (h.2 c hc)

theorem keeps_of_mem_texts {s : List Byte} {texts : List (List Byte)} (h : s ∈ texts)
    (hplain : ∀ text ∈ texts, ∀ c ∈ text, isPlain c = true) : Keeps s :=
  keeps_of_plain (hplain s h)

theorem IsNumber.keeps {s : List Byte} (h : IsNumber s) : Keeps s := by
  obtain ⟨hsign, hint, hfrac, hexp⟩ := h
  refine ((?_ : Keeps _).append ?_).append ?_ |>.append ?_
  · exact keeps_of_mem_texts hsign (by decide +kernel)
  · rcases hint with rfl | ⟨hint, -⟩
    · exact keeps_of_plain (by decide +kernel)
    · exact hint.keeps
  · rcases hfrac with rfl | ⟨digits, hdigits, rfl⟩
    · exact keeps_nil
    · exact (keeps_of_plain (by decide +kernel)).append hdigits.keeps
  · rcases hexp with rfl | ⟨e, sign, digits, he, hsign, hdigits, rfl⟩
    · exact keeps_nil
    · have he := keeps_of_mem_texts he (by decide +kernel)
      have hsign := keeps_of_mem_texts hsign (by decide +kernel)
      exact (he.append hsign).append hdigits.keeps

/-! ### Strings -/

/-- The counters inside of a string. -/
abbrev inside (braces brackets : Int) : Counters := ⟨braces, brackets, true, false⟩

/-- Inside of a string a text leaves the counters as they were. -/
def KeepsString (s : List Byte) : Prop :=
  ∀ braces brackets : Int, (inside braces brackets).OpenAlong s
    ∧ (inside braces brackets).run s = inside braces brackets

theorem count_inside {c : Byte} (h1 : c ≠ quote) (h2 : c ≠ backslash) (braces brackets : Int) :
    (inside braces brackets).count c = inside braces brackets := by
  simp [Counters.count, h1, h2]

theorem count_backslash (braces brackets : Int) :
    (inside braces brackets).count backslash = ⟨braces, brackets, true, true⟩ := rfl

theorem count_escaped (c : Byte) (braces brackets : Int) :
    Counters.count ⟨braces, brackets, true, true⟩ c = inside braces brackets := by
  simp [Counters.count]

theorem keepsString_cons {c : Byte} {s : List Byte} (h1 : c ≠ quote) (h2 : c ≠ backslash)
    (hs : KeepsString s) : KeepsString (c :: s) := by
  intro braces brackets
  rw [Counters.OpenAlong, Counters.run_cons, count_inside h1 h2]
  exact ⟨⟨.inl rfl, (hs braces brackets).1⟩, (hs braces brackets).2⟩

theorem keepsString_escape (c : Byte) {s : List Byte} (hs : KeepsString s) :
    KeepsString (backslash :: c :: s) := by
  intro braces brackets
  rw [Counters.OpenAlong, Counters.OpenAlong, Counters.run_cons, Counters.run_cons,
    count_backslash, count_escaped]
  exact ⟨⟨.inl rfl, .inl rfl, (hs braces brackets).1⟩, (hs braces brackets).2⟩

theorem keepsString_hex {digits s : List Byte} (h : ∀ c ∈ digits, isHex c = true)
    (hs : KeepsString s) : KeepsString (digits ++ s) := by
  induction digits with
  | nil => exact hs
  | cons c digits ih =>
    rw [List.forall_mem_cons] at h
    have hc := isPlain_of_isHex h.1
    simp only [isPlain, List.mem_cons, not_or, decide_eq_true_eq] at hc
    exact keepsString_cons hc.1 hc.2.1 (ih h.2)

theorem IsChars.keepsString {s : List Byte} (h : IsChars s) : KeepsString s := by
  induction h with
  | nil => exact fun braces brackets => ⟨trivial, rfl⟩
  | plain _ h1 h2 _ ih => exact keepsString_cons h1 h2 ih
  | escape _ _ ih => exact keepsString_escape _ ih
  | unicode _ hhex _ ih => exact keepsString_escape _ (keepsString_hex hhex ih)

theorem count_quote_outside (braces brackets : Int) :
    (outside braces brackets).count quote = inside braces brackets := rfl

theorem count_quote_inside (braces brackets : Int) :
    (inside braces brackets).count quote = outside braces brackets := rfl

theorem IsString.keeps {s : List Byte} (h : IsString s) : Keeps s := by
  obtain ⟨hchars⟩ := h
  intro braces brackets hle
  have h := hchars.keepsString braces brackets
  rw [Counters.OpenAlong, Counters.run_cons, count_quote_outside, Counters.openAlong_append,
    Counters.run_append, h.2, Counters.OpenAlong, Counters.run_cons, count_quote_inside]
  exact ⟨⟨.inl rfl, h.1, .inr hle, trivial⟩, rfl⟩

/-! ### Brackets -/

theorem count_openBracket (braces brackets : Int) :
    (outside braces brackets).count openBracket = outside braces (brackets + 1) := rfl

theorem count_closeBracket (braces brackets : Int) :
    (outside braces brackets).count closeBracket = outside braces (brackets - 1) := rfl

theorem count_openBrace (braces brackets : Int) :
    (outside braces brackets).count openBrace = outside (braces + 1) brackets := rfl

theorem count_closeBrace (braces brackets : Int) :
    (outside braces brackets).count closeBrace = outside (braces - 1) brackets := rfl

theorem Keeps.inBrackets {s : List Byte} (hs : Keeps s) :
    Keeps (openBracket :: (s ++ [closeBracket])) := by
  intro braces brackets hle
  have h := hs braces (brackets + 1) hle
  rw [Counters.OpenAlong, Counters.run_cons, count_openBracket, Counters.openAlong_append,
    Counters.run_append, h.2, Counters.OpenAlong, Counters.run_cons, count_closeBracket]
  refine ⟨⟨.inr hle, h.1, .inr hle, trivial⟩, ?_⟩
  rw [Counters.run_nil, outside, Int.add_sub_cancel]

theorem Keeps.openAlong_brace {s : List Byte} (hs : Keeps s) {braces : Int} (hle : 0 ≤ braces)
    (brackets : Int) : (outside braces brackets).OpenAlong (openBrace :: s)
      ∧ (outside braces brackets).run (openBrace :: s) = outside (braces + 1) brackets := by
  have h := hs (braces + 1) brackets (by omega)
  rw [Counters.OpenAlong, Counters.run_cons, count_openBrace]
  exact ⟨⟨.inr (Int.le_add_of_nonneg_left hle), h.1⟩, h.2⟩

theorem Keeps.inBraces {s : List Byte} (hs : Keeps s) :
    Keeps (openBrace :: (s ++ [closeBrace])) := by
  intro braces brackets hle
  have h := hs.openAlong_brace (show 0 ≤ braces by omega) brackets
  have hclose : (outside (braces + 1) brackets).OpenAlong [closeBrace] := by
    rw [Counters.OpenAlong, count_closeBrace, Int.add_sub_cancel]
    exact ⟨.inr hle, trivial⟩
  rw [← List.cons_append, Counters.openAlong_append, Counters.run_append, h.2,
    Counters.run_cons, count_closeBrace, Int.add_sub_cancel]
  exact ⟨⟨h.1, hclose⟩, rfl⟩

theorem isPlain_comma : isPlain comma = true := by decide

theorem isPlain_colon : isPlain colon = true := by decide

theorem Derives.keeps {symbol : Symbol} {s : List Byte} (h : Derives symbol s) : Keeps s := by
  induction h with
  | word h => exact keeps_of_mem_texts h (by decide +kernel)
  | number h => exact h.keeps
  | string h => exact h.keeps
  | ofObject _ ih => exact ih
  | emptyArray hb => exact hb.keeps.inBrackets
  | array _ ih => exact ih.inBrackets
  | emptyObject hb => exact hb.keeps.inBraces
  | object _ ih => exact ih.inBraces
  | element hb _ ha ih => exact (hb.keeps.append ih).append ha.keeps
  | elements hb _ ha _ ih ihrest =>
    exact ((hb.keeps.append ih).append ha.keeps).append (keeps_cons_plain isPlain_comma ihrest)
  | member hb hk hc hd _ ha ih =>
    have hvalue := (hd.keeps.append ih).append ha.keeps
    exact ((hb.keeps.append hk.keeps).append hc.keeps).append
      (keeps_cons_plain isPlain_colon hvalue)
  | members hb hk hc hd _ ha _ ih ihrest =>
    have hvalue := (hd.keeps.append ih).append ha.keeps
    have hmember := ((hb.keeps.append hk.keeps).append hc.keeps).append
      (keeps_cons_plain isPlain_colon hvalue)
    exact hmember.append (keeps_cons_plain isPlain_comma ihrest)

theorem IsObject.eq_braces {o : List Byte} (h : IsObject o) :
    ∃ inner, Keeps inner ∧ o = openBrace :: (inner ++ [closeBrace]) := by
  cases h with
  | emptyObject hb => exact ⟨_, hb.keeps, rfl⟩
  | object h => exact ⟨_, h.keeps, rfl⟩

/-! ## Scanning -/

section

variable {kind : JsonArrayType} {eof : Bool} {scanned : List Byte}

/-- The counters at the start of an element. -/
abbrev top : Counters := outside 0 0

theorem scan_inside {c : Counters} {char : Byte} {rest : List Byte}
    (hcloses : (c.count char).closes char = false)
    (hseparates : (c.count char).separates kind char = false)
    (hup : (c.count char).upToDelimiter kind scanned char rest.isEmpty = none) :
    scan kind c false eof scanned (char :: rest)
      = scan kind (c.count char) false eof (scanned ++ [char]) rest := by
  rw [scan]
  dsimp only
  rw [hcloses, hseparates, hup, Bool.or_false]
  split
  · contradiction
  · split
    · rename_i h
      subst h
      rfl
    · rfl

theorem scan_openAlong {c : Counters} {s : List Byte} (h : c.OpenAlong s) (rest : List Byte) :
    scan kind c false eof scanned (s ++ rest)
      = scan kind (c.run s) false eof (scanned ++ s) rest := by
  induction s generalizing c scanned with
  | nil => rw [List.nil_append, List.append_nil, Counters.run_nil]
  | cons char s ih =>
    obtain ⟨hopen, hs⟩ := h
    rw [List.cons_append, scan_inside (Counters.closes_of_open hopen)
      (Counters.separates_of_open hopen) (Counters.upToDelimiter_of_open hopen), ih hs,
      Counters.run_cons, List.append_assoc]
    rfl

theorem scan_top {c : Counters} {char : Byte} {rest : List Byte} (hcount : c.count char = top)
    (hsep : char ∉ sepChars kind) (hne : rest ≠ []) :
    scan kind c false eof scanned (char :: rest)
      = scan kind top false eof (scanned ++ [char]) rest := by
  have hcloses : top.closes char = false := by simp [Counters.closes]
  have hseparates : top.separates kind char = false := by simp [Counters.separates, hsep]
  have hup : top.upToDelimiter kind scanned char rest.isEmpty = none := by
    rw [Counters.upToDelimiter, hcloses, hseparates]
    simp [hne]
  rw [← hcount] at hcloses hseparates hup
  rw [scan_inside hcloses hseparates hup, hcount]

theorem scan_top_last {c : Counters} {char : Byte} (hcount : c.count char = top)
    (hsep : char ∉ sepChars kind) (hscanned : scanned ≠ [])
    (hstrip : strip (scanned ++ [char]) ≠ []) :
    scan kind c false eof scanned [char]
      = (some (strip (scanned ++ [char])), ⟨true, [], eof⟩) := by
  have hcloses : top.closes char = false := by simp [Counters.closes]
  have hseparates : top.separates kind char = false := by simp [Counters.separates, hsep]
  have hup : top.upToDelimiter kind scanned char true = some (scanned ++ [char]) := by
    rw [Counters.upToDelimiter, hcloses, hseparates]
    simp
  rw [scan]
  simp only [hcount, hcloses, List.isEmpty_nil, hup, if_neg hscanned, if_neg hstrip,
    Bool.or_false, Bool.false_eq_true, if_false]

theorem isPlain_of_mem_sepChars {char : Byte} (h : char ∈ sepChars kind) :
    isPlain char = true := by
  cases kind <;> simp only [sepChars, List.mem_cons, List.not_mem_nil, or_false] at h
  case flatJson => rcases h with rfl | rfl <;> decide
  all_goals
    subst h
    decide

theorem scan_lead {char : Byte} (h : char ∈ sepChars kind) (rest : List Byte) :
    scan kind top false eof [] (char :: rest) = scan kind top false eof [] rest := by
  have hcount := count_plain (isPlain_of_mem_sepChars h) 0 0
  have hcloses : top.closes char = false := by simp [Counters.closes]
  have hseparates : top.separates kind char = true := by simp [Counters.separates, h]
  rw [scan]
  simp only [hcount, hcloses, hseparates, Bool.or_false, Bool.false_eq_true, if_false, if_true]

theorem scan_separator {char : Byte} (h : char ∈ sepChars kind) (hstrip : strip scanned ≠ [])
    (rest : List Byte) :
    scan kind top false eof scanned (char :: rest)
      = (some (strip scanned), ⟨true, rest, eof⟩) := by
  have hcount := count_plain (isPlain_of_mem_sepChars h) 0 0
  have hcloses : top.closes char = false := by simp [Counters.closes]
  have hup : top.upToDelimiter kind scanned char rest.isEmpty = some scanned := by
    simp [Counters.upToDelimiter, Counters.separates, h]
  have hscanned : scanned ≠ [] := by
    rintro rfl
    exact hstrip rfl
  rw [scan]
  simp only [hcount, hcloses, hup, if_neg hscanned, if_neg hstrip, Bool.or_false,
    Bool.false_eq_true, if_false]

theorem scan_closing (hstrip : strip scanned ≠ []) (rest : List Byte) :
    scan kind top false eof scanned (closeBracket :: rest)
      = (some (strip scanned), ⟨true, rest, true⟩) := by
  have hcloses : (outside 0 (0 - 1)).closes closeBracket = true := by decide
  have hup : (outside 0 (0 - 1)).upToDelimiter kind scanned closeBracket rest.isEmpty
      = some scanned := by
    rw [Counters.upToDelimiter, hcloses, Bool.true_or, if_pos rfl]
  have hscanned : scanned ≠ [] := by
    rintro rfl
    exact hstrip rfl
  rw [scan]
  simp only [count_closeBracket, hcloses, hup, if_neg hscanned, if_neg hstrip, Bool.or_true,
    Bool.false_eq_true, if_false]

/-! ### Whitespace around an object -/

theorem isSpace_of_isBlank {c : Byte} (h : isBlank c = true) : isSpace c = true := by
  rw [isBlank, decide_eq_true_eq] at h
  rw [isSpace, decide_eq_true_eq]
  omega

theorem Blank.append {s t : List Byte} (hs : Blank s) (ht : Blank t) : Blank (s ++ t) :=
  fun c hc => (List.mem_append.mp hc).elim (hs c) (ht c)

theorem Blank.left {s t : List Byte} (h : Blank (s ++ t)) : Blank s :=
  fun c hc => h c (List.mem_append_left t hc)

theorem Blank.right {s t : List Byte} (h : Blank (s ++ t)) : Blank t :=
  fun c hc => h c (List.mem_append_right s hc)

theorem Blank.tail {c : Byte} {s : List Byte} (h : Blank (c :: s)) : Blank s :=
  fun x hx => h x (List.mem_cons_of_mem c hx)

theorem Blank.dropWhile {b : List Byte} (h : Blank b) (s : List Byte) :
    (b ++ s).dropWhile isSpace = s.dropWhile isSpace := by
  rw [List.dropWhile_append, List.dropWhile_eq_nil_iff.mpr fun c hc => isSpace_of_isBlank (h c hc)]
  rfl

theorem Blank.strip {b : List Byte} (h : Blank b) : strip b = [] := by
  rw [JsonArray.strip, ← List.append_nil b, h.dropWhile]
  rfl

theorem strip_object {b o a : List Byte} (hb : Blank b) (ho : IsObject o) (ha : Blank a) :
    strip (b ++ o ++ a) = o := by
  obtain ⟨inner, -, rfl⟩ := ho.eq_braces
  have hopen : isSpace openBrace = false := by decide
  have hclose : isSpace closeBrace = false := by decide
  have ha' : ∀ c ∈ a.reverse, isSpace c = true :=
    fun c hc => isSpace_of_isBlank (ha c (List.mem_reverse.mp hc))
  rw [strip, List.append_assoc, hb.dropWhile, List.cons_append, List.dropWhile_cons, hopen,
    if_neg Bool.false_ne_true, ← List.cons_append, List.rdropWhile, List.reverse_append,
    List.dropWhile_append, List.dropWhile_eq_nil_iff.mpr ha', List.isEmpty_nil, if_pos rfl,
    ← List.cons_append, List.reverse_append, List.reverse_singleton, List.singleton_append,
    List.dropWhile_cons, hclose, if_neg Bool.false_ne_true]
  simp

theorem strip_object_ne_nil {b o a : List Byte} (hb : Blank b) (ho : IsObject o) (ha : Blank a) :
    strip (b ++ o ++ a) ≠ [] := by
  rw [strip_object hb ho ha]
  obtain ⟨inner, -, rfl⟩ := ho.eq_braces
  exact List.cons_ne_nil _ _

/-- Whitespace in which no separator occurs. -/
def Between (kind : JsonArrayType) (b : List Byte) : Prop :=
  ∀ c ∈ b, isBlank c = true ∧ c ∉ sepChars kind

theorem Between.blank {b : List Byte} (h : Between kind b) : Blank b := fun c hc => (h c hc).1

theorem count_blank {c : Byte} (h : isBlank c = true) : top.count c = top :=
  count_plain (isPlain_of_isBlank h) 0 0

theorem scan_between {b : List Byte} (h : Between kind b) {rest : List Byte} (hne : rest ≠ []) :
    scan kind top false eof scanned (b ++ rest)
      = scan kind top false eof (scanned ++ b) rest := by
  induction b generalizing scanned with
  | nil => rw [List.nil_append, List.append_nil]
  | cons c b ih =>
    rw [Between, List.forall_mem_cons] at h
    have hrest : b ++ rest ≠ [] := List.append_ne_nil_of_right_ne_nil b hne
    rw [List.cons_append, scan_top (count_blank h.1.1) h.1.2 hrest, ih h.2, List.append_assoc]
    rfl

theorem scan_between_all {b : List Byte} (h : Between kind b) (hscanned : Blank scanned) :
    scan kind top false eof scanned b = (none, ⟨true, scanned ++ b, eof⟩) := by
  induction b generalizing scanned with
  | nil => rw [scan_nil, List.append_nil]
  | cons c b ih =>
    rw [Between, List.forall_mem_cons] at h
    have hc : Blank (scanned ++ [c]) := hscanned.append (by simpa [Blank] using h.1.1)
    by_cases hb : b = []
    · subst hb
      have hcount := count_blank h.1.1
      have hcloses : top.closes c = false := by simp [Counters.closes]
      have hseparates : top.separates kind c = false := by simp [Counters.separates, h.1.2]
      have hup : top.upToDelimiter kind scanned c true = some (scanned ++ [c]) := by
        rw [Counters.upToDelimiter, hcloses, hseparates]
        simp
      rw [scan]
      simp only [hcount, hcloses, hseparates, List.isEmpty_nil, hup, hc.strip, Bool.or_false,
        Bool.false_eq_true, if_false, if_true, scan_nil]
      split
      · rename_i hnil
        rw [hnil, List.nil_append]
      · rfl
    · rw [scan_top (count_blank h.1.1) h.1.2 hb, ih h.2 hc, List.append_assoc]
      rfl

/-! ### An object in its surroundings -/

variable {b o a : List Byte}

theorem scan_part (hb : Between kind b) (ho : IsObject o) {p p' : List Byte} (hp : p ≠ [])
    (hp' : p' ≠ []) (heq : o = p ++ p') :
    scan kind top false eof [] (b ++ p) = (none, ⟨true, b ++ p, eof⟩) := by
  obtain ⟨inner, hinner, rfl⟩ := ho.eq_braces
  obtain ⟨last, c, rfl⟩ := List.eq_nil_or_concat p' |>.resolve_left hp'
  have hpart : openBrace :: inner = p ++ last := by
    rw [List.concat_eq_append, ← List.append_assoc, ← List.cons_append] at heq
    exact (List.append_inj' heq rfl).1
  have hopen := (hinner.openAlong_brace (le_refl 0) 0).1
  rw [hpart, Counters.openAlong_append] at hopen
  rw [scan_between hb hp, ← List.append_nil p, scan_openAlong hopen.1, scan_nil]
  simp

theorem scan_object_brace (hb : Between kind b) {inner : List Byte} (hinner : Keeps inner)
    (rest : List Byte) :
    scan kind top false eof [] (b ++ openBrace :: (inner ++ [closeBrace]) ++ rest)
      = scan kind (outside 1 0) false eof (b ++ openBrace :: inner) (closeBrace :: rest) := by
  have hopen := hinner.openAlong_brace (le_refl 0) 0
  have htext : b ++ openBrace :: (inner ++ [closeBrace]) ++ rest
      = b ++ (openBrace :: inner ++ closeBrace :: rest) := by simp
  rw [htext, scan_between hb (by simp), List.nil_append, scan_openAlong hopen.1, hopen.2]
  rfl

theorem closeBrace_not_mem_sepChars : closeBrace ∉ sepChars kind := by
  cases kind <;> decide

theorem scan_object (hb : Between kind b) (ho : IsObject o) {rest : List Byte} (hne : rest ≠ []) :
    scan kind top false eof [] (b ++ o ++ rest) = scan kind top false eof (b ++ o) rest := by
  obtain ⟨inner, hinner, rfl⟩ := ho.eq_braces
  rw [scan_object_brace hb hinner, scan_top (count_closeBrace 1 0) closeBrace_not_mem_sepChars hne,
    List.append_assoc, List.cons_append]

theorem scan_object_last (hb : Between kind b) (ho : IsObject o) (ha : Between kind a) :
    scan kind top false eof [] (b ++ o ++ a) = (some o, ⟨true, [], eof⟩) := by
  have hstrip := strip_object_ne_nil hb.blank ho ha.blank
  rcases List.eq_nil_or_concat a with rfl | ⟨before, c, rfl⟩
  · have heq := strip_object hb.blank ho ha.blank
    obtain ⟨inner, hinner, rfl⟩ := ho.eq_braces
    have htext : b ++ openBrace :: inner ++ [closeBrace] ++ []
        = b ++ openBrace :: (inner ++ [closeBrace]) ++ [] := by simp
    rw [← htext, List.append_nil] at heq hstrip
    rw [scan_object_brace hb hinner, scan_top_last (count_closeBrace 1 0)
      closeBrace_not_mem_sepChars (by simp) hstrip, heq]
  · have hbefore : Between kind before := fun x hx => ha x (by simp [hx])
    have hc := ha c (by simp)
    have heq := strip_object hb.blank ho ha.blank
    rw [List.concat_eq_append, ← List.append_assoc] at heq hstrip
    rw [List.concat_eq_append, scan_object hb ho (by simp), scan_between hbefore (by simp),
      scan_top_last (count_blank hc.1) hc.2 ?_ hstrip, heq]
    obtain ⟨inner, -, rfl⟩ := ho.eq_braces
    simp

theorem scan_object_separator (hb : Between kind b) (ho : IsObject o) (ha : Between kind a)
    {char : Byte} (h : char ∈ sepChars kind) (rest : List Byte) :
    scan kind top false eof [] (b ++ o ++ a ++ char :: rest) = (some o, ⟨true, rest, eof⟩) := by
  rw [List.append_assoc (b ++ o), scan_object hb ho (by simp), scan_between ha (by simp),
    scan_separator h (strip_object_ne_nil hb.blank ho ha.blank),
    strip_object hb.blank ho ha.blank]

theorem scan_object_closing (hb : Between kind b) (ho : IsObject o) (ha : Between kind a)
    (rest : List Byte) :
    scan kind top false eof [] (b ++ o ++ a ++ closeBracket :: rest)
      = (some o, ⟨true, rest, true⟩) := by
  rw [List.append_assoc (b ++ o), scan_object hb ho (by simp), scan_between ha (by simp),
    scan_closing (strip_object_ne_nil hb.blank ho ha.blank), strip_object hb.blank ho ha.blank]

theorem scan_closed {s : List Byte} (h : Blank s) (passing : Bool) :
    (scan kind (outside 0 (-1)) passing true scanned s).1 = none
      ∧ (scan kind (outside 0 (-1)) passing true scanned s).2.eof = true := by
  induction s generalizing scanned passing with
  | nil => exact ⟨rfl, rfl⟩
  | cons c s ih =>
    rw [Blank, List.forall_mem_cons] at h
    cases passing with
    | true => exact ih h.2 false
    | false =>
      have hplain := isPlain_of_isBlank h.1
      have hcount := count_plain hplain 0 (-1)
      have hc : c ≠ closeBracket := by
        rintro rfl
        exact absurd hplain (by decide)
      have hcloses : (outside 0 (-1)).closes c = false := by simp [Counters.closes, hc]
      have hseparates : (outside 0 (-1)).separates kind c = false := by
        simp [Counters.separates]
      have hup : (outside 0 (-1)).upToDelimiter kind scanned c s.isEmpty = none := by
        rw [Counters.upToDelimiter, hcloses, hseparates]
        simp
      rw [← hcount] at hcloses hseparates hup
      rw [scan_inside hcloses hseparates hup, hcount]
      exact ih h.2 false

theorem scan_empty_closing (ha : Between kind a) {rest : List Byte} (hrest : Blank rest) :
    (scan kind top false eof [] (a ++ closeBracket :: rest)).1 = none
      ∧ (scan kind top false eof [] (a ++ closeBracket :: rest)).2.eof = true := by
  have hcloses : (outside 0 (0 - 1)).closes closeBracket = true := by decide
  have hseparates : (outside 0 (0 - 1)).separates kind closeBracket = false := by
    simp [Counters.separates]
  have hup : (outside 0 (0 - 1)).upToDelimiter kind a closeBracket rest.isEmpty = some a := by
    rw [Counters.upToDelimiter, hcloses, Bool.true_or, if_pos rfl]
  rw [scan_between ha (by simp), List.nil_append, scan]
  simp only [count_closeBracket, hcloses, hseparates, hup, ha.blank.strip, Bool.or_true,
    Bool.false_eq_true, if_false, if_true]
  split
  · exact scan_closed hrest false
  · exact scan_closed hrest true

end

end KongGateway.Kong.Llm.JsonArray

import KongGateway.Kong.Router.Expressions

/-!
# Literals — values inside generated expressions

`escape_str` writes a value as a string literal of the expression
language. A raw literal ends at the first `"#`, also one that the end of
the value forms with the delimiter; a standard literal ends at the first
quote that is not escaped. The lexer here knows these two rules only:
what it finds outside of literals stays characters. Reading a generated
expression then gives the characters that the code wrote and each value
as one literal, whatever the values are.
-/

namespace KongGateway.Kong.Router.Expressions

open LuaStd

/-! ## The literals of the language -/

/-- What stands for itself or for a control character behind a
backslash. -/
def escapeOf (c : Char) : Option Char :=
  if c = '\\' ∨ c = '"' then some c
  else if c = 'n' then some '\n'
  else if c = 'r' then some '\r'
  else if c = 't' then some '\t'
  else none

/-- A standard literal behind its first quote: the value and what
follows the literal. The flag says whether a backslash was read last. -/
def readStandard : Bool → Text → Option (Text × Text)
  | _, [] => none
  | true, c :: rest =>
    (escapeOf c).bind fun d => (readStandard false rest).map fun r => (d :: r.1, r.2)
  | false, c :: rest =>
    if c = '"' then some ([], rest)
    else if c = '\\' then readStandard true rest
    else (readStandard false rest).map fun r => (c :: r.1, r.2)

def rawOpening : Text := "r#\"".toList
def rawClosing : Text := "\"#".toList

/-- Whether a literal starts here. -/
def opensLiteral : Text → Bool
  | [] => false
  | c :: rest => c = '"' || rawOpening.isPrefixOf (c :: rest)

/-- A literal at the start of a text. -/
def readLiteral : Text → Option (Text × Text)
  | [] => none
  | c :: rest =>
    if c = '"' then readStandard false rest
    else if rawOpening.isPrefixOf (c :: rest) then
      splitAtText rawClosing ((c :: rest).drop rawOpening.length)
    else none

theorem readStandard_length {escaped : Bool} {text : Text} {r : Text × Text}
    (h : readStandard escaped text = some r) : r.2.length < text.length := by
  induction text generalizing escaped r with
  | nil => cases escaped <;> cases h
  | cons c rest ih =>
    rw [List.length_cons]
    cases escaped with
    | true =>
      simp only [readStandard, Option.bind_eq_some_iff, Option.map_eq_some_iff] at h
      obtain ⟨d, _, q, hq, rfl⟩ := h
      have hlt := ih hq
      exact Nat.lt_succ_of_lt hlt
    | false =>
      simp only [readStandard] at h
      split at h
      · cases h
        exact Nat.lt_succ_self _
      · split at h
        · exact Nat.lt_succ_of_lt (ih h)
        · rw [Option.map_eq_some_iff] at h
          obtain ⟨q, hq, rfl⟩ := h
          have hlt := ih hq
          exact Nat.lt_succ_of_lt hlt

theorem splitAtText_length {pat text : Text} {r : Text × Text}
    (h : splitAtText pat text = some r) : r.2.length ≤ text.length := by
  induction text generalizing r with
  | nil =>
    rw [splitAtText] at h
    split at h
    · cases h
      simp
    · cases h
  | cons c rest ih =>
    rw [splitAtText] at h
    split at h
    · cases h
      simp
    · rw [Option.map_eq_some_iff] at h
      obtain ⟨q, hq, rfl⟩ := h
      have hle := ih hq
      simp only [List.length_cons]
      omega

theorem readLiteral_length {text : Text} {r : Text × Text} (h : readLiteral text = some r) :
    r.2.length < text.length := by
  cases text with
  | nil => cases h
  | cons c rest =>
    simp only [readLiteral] at h
    split at h
    · exact Nat.lt_succ_of_lt (readStandard_length h)
    · split at h
      · have hle := splitAtText_length h
        have hdrop : ((c :: rest).drop rawOpening.length).length < (c :: rest).length := by
          rw [List.length_drop]
          exact Nat.sub_lt (Nat.succ_pos _) (by decide)
        omega
      · cases h

/-- A lexeme of an expression, as far as literals go. -/
inductive Token
  | char (c : Char)
  | literal (value : Text)
deriving DecidableEq, Repr

/-- An expression taken apart at its literals; `none` when one does not
end. -/
def tokens : Text → Option (List Token)
  | [] => some []
  | c :: rest =>
    if opensLiteral (c :: rest) then
      match h : readLiteral (c :: rest) with
      | some r =>
        have := readLiteral_length h
        (tokens r.2).map (.literal r.1 :: ·)
      | none => none
    else (tokens rest).map (.char c :: ·)
termination_by text => text.length
decreasing_by
  · exact this
  · exact Nat.lt_succ_self rest.length

/-! ## What `escape_str` writes -/

theorem splitAtText_rawClosing {str : Text} (h : splitAtText rawClosing str = none)
    (after : Text) : splitAtText rawClosing (str ++ rawClosing ++ after) = some (str, after) := by
  induction str with
  | nil => rfl
  | cons c rest ih =>
    rw [splitAtText] at h
    split at h
    · cases h
    · rename_i hno
      rw [Option.map_eq_none_iff] at h
      have hstay : rawClosing.isPrefixOf (c :: (rest ++ rawClosing ++ after)) = false := by
        cases rest with
        | nil =>
          -- a quote at the end of the value meets the quote of the delimiter
          simp [rawClosing, List.isPrefixOf]
        | cons d rest => simpa [rawClosing, List.isPrefixOf] using hno
      rw [List.cons_append, List.cons_append, splitAtText, hstay, ih h]
      rfl

theorem gsubChar_twice (str : Text) :
    gsubChar '"' "\\\"".toList (gsubChar '\\' "\\\\".toList str)
      = str.flatMap fun c => if c = '\\' ∨ c = '"' then ['\\', c] else [c] := by
  induction str with
  | nil => rfl
  | cons c rest ih =>
    rw [gsubChar, gsubChar, List.flatMap_cons, List.flatMap_append, List.flatMap_cons]
    rw [gsubChar, gsubChar] at ih
    rw [ih]
    congr 1
    by_cases hback : c = '\\'
    · subst hback
      rfl
    · by_cases hquote : c = '"'
      · subst hquote
        rfl
      · simp [hback, hquote]

theorem readStandard_escaped (str after : Text) :
    readStandard false ((str.flatMap fun c => if c = '\\' ∨ c = '"' then ['\\', c] else [c])
        ++ '"' :: after) = some (str, after) := by
  induction str with
  | nil => rfl
  | cons c rest ih =>
    rw [List.flatMap_cons, List.append_assoc]
    by_cases hc : c = '\\' ∨ c = '"'
    · have hescape : escapeOf c = some c := if_pos hc
      rw [if_pos hc, List.cons_append, List.cons_append, List.nil_append, readStandard,
        if_neg (by decide), if_pos rfl, readStandard, hescape, ih]
      rfl
    · have hno : c ≠ '\\' ∧ c ≠ '"' := not_or.mp hc
      rw [if_neg hc, List.cons_append, List.nil_append, readStandard, if_neg hno.2,
        if_neg hno.1, ih]
      rfl

/-- **A value is read back.** The literal denotes the value and ends
where `escape_str` ends it. -/
theorem readLiteral_escapeStr (str after : Text) :
    readLiteral (escapeStr str ++ after) = some (str, after) := by
  rw [escapeStr]
  split
  · rename_i hraw
    rw [Option.isNone_iff_eq_none] at hraw
    exact splitAtText_rawClosing hraw after
  · simp only [gsubChar_twice]
    have hread := readStandard_escaped str after
    rw [List.append_assoc, List.append_assoc]
    exact hread

theorem opensLiteral_escapeStr (str after : Text) :
    opensLiteral (escapeStr str ++ after) = true := by
  rw [escapeStr]
  split <;> rfl

theorem tokens_escapeStr (str after : Text) :
    tokens (escapeStr str ++ after) = (tokens after).map (.literal str :: ·) := by
  have hopen := opensLiteral_escapeStr str after
  have hread := readLiteral_escapeStr str after
  cases htext : escapeStr str ++ after with
  | nil =>
    rw [htext] at hopen
    cases hopen
  | cons c rest =>
    rw [htext] at hopen hread
    rw [tokens, if_pos hopen]
    split
    · rename_i r hr
      rw [hread] at hr
      cases hr
      rfl
    · rename_i hr
      rw [hread] at hr
      cases hr

/-! ## Generated expressions -/

/-- A text of the code: it holds no quote. -/
structure Unquoted where
  text : Text
  no_quote : '"' ∉ text

theorem quote_not_mem_append {a b : Text} (ha : '"' ∉ a) (hb : '"' ∉ b) : '"' ∉ a ++ b := by
  rw [List.mem_append, not_or]
  exact ⟨ha, hb⟩

/-- The lexemes of a text outside of literals. -/
def chars (text : Text) : List Token := text.map .char

theorem not_opensLiteral {c : Char} {text : Text} (hquote : '"' ∉ c :: text) (after : Text) :
    opensLiteral (c :: (text ++ ' ' :: after)) = false := by
  have hc : c ≠ '"' := fun h => hquote (by simp [h])
  have hraw : rawOpening.isPrefixOf (c :: (text ++ ' ' :: after)) = false := by
    -- the quote of a raw opening would have to stand in the text
    cases text with
    | nil => simp [rawOpening, List.isPrefixOf]
    | cons d text =>
      cases text with
      | nil => simp [rawOpening, List.isPrefixOf]
      | cons e text =>
        have he : e ≠ '"' := fun h => hquote (by simp [h])
        simp [rawOpening, List.isPrefixOf, Ne.symm he]
  rw [opensLiteral, hraw]
  simp [hc]

theorem tokens_unquoted {text : Text} (hquote : '"' ∉ text) (after : Text) :
    tokens (text ++ ' ' :: after) = (tokens after).map (chars (text ++ [' ']) ++ ·) := by
  induction text with
  | nil =>
    rw [List.nil_append, tokens, if_neg (by simp [opensLiteral, rawOpening, List.isPrefixOf])]
    rfl
  | cons c rest ih =>
    rw [List.cons_append, tokens, if_neg (by simp [not_opensLiteral hquote]),
      ih fun h => hquote (List.mem_cons_of_mem _ h), Option.map_map]
    rfl

/-- What one comparison is read as. -/
def comparisonTokens (name op value : Text) : List Token :=
  chars (name ++ ' ' :: (op ++ [' '])) ++ [.literal value]

theorem tokens_comparison (before : Text) (hbefore : '"' ∉ before) (name op : Unquoted)
    (value after : Text) :
    tokens (before ++ comparison name.text op.text value ++ after)
      = (tokens after).map (chars before ++ comparisonTokens name.text op.text value ++ ·) := by
  have hquote : '"' ∉ before ++ name.text ++ ' ' :: op.text := by
    apply quote_not_mem_append
    · exact quote_not_mem_append hbefore name.no_quote
    · rw [List.mem_cons, not_or]
      exact ⟨by decide, op.no_quote⟩
  have hsplit : before ++ comparison name.text op.text value ++ after
      = (before ++ name.text ++ ' ' :: op.text) ++ ' ' :: (escapeStr value ++ after) := by
    simp [comparison]
  rw [hsplit, tokens_unquoted hquote, tokens_escapeStr, Option.map_map]
  congr 1
  funext ts
  simp [chars, comparisonTokens]

/-- What the comparisons of a field are read as. -/
def fieldTokens {α : Type} (name : Text) (op : α → Text) (val : Text → α → Text) :
    List α → List Token
  | [] => []
  | p :: rest =>
    chars ['('] ++ comparisonTokens name (op p) (val (op p) p)
      ++ (rest.flatMap fun q => chars logicalOr ++ comparisonTokens name (op q) (val (op q) q))
      ++ chars [')']

theorem tokens_rest {α : Type} (name : Unquoted) (op : α → Unquoted) (val : Text → α → Text)
    (rest : List α) :
    tokens ((rest.flatMap fun q => logicalOr
          ++ comparison name.text (op q).text (val (op q).text q)) ++ [')'])
      = some ((rest.flatMap fun q => chars logicalOr
          ++ comparisonTokens name.text (op q).text (val (op q).text q)) ++ chars [')']) := by
  induction rest with
  | nil =>
    rw [List.flatMap_nil, List.nil_append, tokens,
      if_neg (by simp [opensLiteral, rawOpening, List.isPrefixOf]), tokens]
    rfl
  | cons q rest ih =>
    rw [List.flatMap_cons, List.append_assoc, tokens_comparison _ (by decide), ih,
      List.flatMap_cons, List.append_assoc]
    rfl

theorem tokens_genValues {α : Type} (name : Unquoted) (op : α → Unquoted)
    (val : Text → α → Text) (p : α) (rest : List α) :
    tokens (genValues name.text (fun q => (op q).text) val 1 (p :: rest) ['('] ++ [')'])
      = some (fieldTokens name.text (fun q => (op q).text) val (p :: rest)) := by
  have hfirst : ∀ text : Text, expressionAppend ['('] logicalOr text 1 = ['('] ++ text := by
    intro text
    rw [expressionAppend, if_neg (by simp)]
  rw [genValues, hfirst, genValues_eq _ _ _ (by decide) _ (by simp), List.append_assoc,
    tokens_comparison _ (by decide), tokens_rest]
  simp [fieldTokens]

/-! ## The fields of a route -/

def opPrefix : Unquoted := ⟨"^=".toList, by decide⟩
def opPostfix : Unquoted := ⟨"=^".toList, by decide⟩
def opRegex : Unquoted := ⟨"~".toList, by decide⟩
def opEqualText : Unquoted := ⟨opEqual, by decide⟩

def tlsSni : Unquoted := ⟨"tls.sni".toList, by decide⟩
def httpPath : Unquoted := ⟨"http.path".toList, by decide⟩

def sniOpTransform (sni : Text) : Unquoted :=
  if sni.head? = some '*' then opPostfix
  else if sni.getLast? = some '*' then opPrefix
  else opEqualText

def sniValTransform (op sni : Text) : Text :=
  if op = opPrefix.text then sni.dropLast
  else
    -- the last dot of a name is not used for routing
    let sni := if 1 < sni.length ∧ sni.getLast? = some '.' then sni.dropLast else sni
    if op = opPostfix.text then sni.drop 1 else sni

def isRegexMagic (path : Text) : Bool := path.head? = some '~'

def pathOpTransform (path : Text) : Unquoted :=
  if isRegexMagic path then opRegex else opPrefix

/-- `gsub("?<", "?P<")`. -/
def namedCaptures : Text → Text
  | [] => []
  | [c] => [c]
  | c :: d :: rest =>
    if c = '?' ∧ d = '<' then '?' :: 'P' :: '<' :: namedCaptures rest
    else c :: namedCaptures (d :: rest)

def pathValTransform (op path : Text) : Text :=
  if op = opRegex.text then '^' :: namedCaptures (path.drop 1) else path

/-- A character of a header's name. -/
def isHeaderChar (c : Char) : Bool :=
  ('a' ≤ c && c ≤ 'z') || ('A' ≤ c && c ≤ 'Z') || ('0' ≤ c && c ≤ '9') || c = '-' || c = '_'

/-- A name that `validate_header_name` accepts. The end of its pattern
also matches before a line feed that ends the text. -/
structure HeaderName where
  text : Text
  valid : ∃ core, core ≠ [] ∧ (∀ c ∈ core, isHeaderChar c) ∧ (text = core ∨ text = core ++ ['\n'])

def replaceDashesLower (str : Text) : Text :=
  str.map fun c => if c.toLower = '-' then '_' else c.toLower

def headerField (name : Text) : Text :=
  "any(lower(http.headers.".toList ++ replaceDashesLower name ++ "))".toList

/-- The value of a header with its operator; `~*` in front marks a
regular expression. -/
def headerValue : Text → Unquoted × Text
  | '~' :: '*' :: rest => (opRegex, rest)
  | value => (opEqualText, value)

/-- The loop over the values of one header. -/
def genHeader (name : Text) (values : List Text) : Text :=
  genValues (headerField name) (fun v => (headerValue v).1.text)
    (fun _ v => (headerValue v).2.map Char.toLower) 1 values ['('] ++ [')']

theorem toLower_ne_quote {c : Char} (h : c ≠ '"') : c.toLower ≠ '"' := by
  unfold Char.toLower
  split
  · rename_i hupper
    intro heq
    have hval := congrArg (fun d : Char => d.val.toNat) heq
    have hlow : 65 ≤ c.val.toNat := UInt32.le_iff_toNat_le.mp hupper.1
    have hhigh : c.val.toNat ≤ 90 := UInt32.le_iff_toNat_le.mp hupper.2
    simp only [UInt32.toNat_add] at hval
    have hshift : ('a'.val - 'A'.val).toNat = 32 := by decide
    have hquote : ('"' : Char).val.toNat = 34 := by decide
    omega
  · exact h

theorem HeaderName.no_quote (name : HeaderName) : '"' ∉ name.text := by
  obtain ⟨core, _, hcore, htext⟩ := name.valid
  have hquote : isHeaderChar '"' = false := by decide
  have hin : '"' ∉ core := by
    intro h
    have hchar := hcore _ h
    rw [hquote] at hchar
    cases hchar
  rcases htext with htext | htext
  · rwa [htext]
  · rw [htext, List.mem_append, not_or]
    exact ⟨hin, by decide⟩

theorem quote_not_mem_replaceDashesLower {name : Text} (h : '"' ∉ name) :
    '"' ∉ replaceDashesLower name := by
  intro hmem
  rw [replaceDashesLower, List.mem_map] at hmem
  obtain ⟨c, hc, heq⟩ := hmem
  have hne : c ≠ '"' := by
    rintro rfl
    exact h hc
  by_cases hdash : c.toLower = '-'
  · rw [if_pos hdash] at heq
    cases heq
  · rw [if_neg hdash] at heq
    exact toLower_ne_quote hne heq

theorem quote_not_mem_headerField (name : HeaderName) : '"' ∉ headerField name.text := by
  unfold headerField
  apply quote_not_mem_append
  · apply quote_not_mem_append
    · decide +kernel
    · exact quote_not_mem_replaceDashesLower name.no_quote
  · decide

/-- **No value alters an expression.** A literal written by `escape_str`
is read back as its value and ends there, whatever follows. So what is
generated for a field is read as the text of the code with each value as
one literal. -/
theorem generated_structure :
    (∀ str after : Text, readLiteral (escapeStr str ++ after) = some (str, after))
    ∧ (∀ (α : Type) (name : Unquoted) (op : α → Unquoted) (val : Text → α → Text) (p : α)
        (rest : List α),
        (genForField name.text (fun q => (op q).text) (p :: rest) val).bind tokens
          = some (fieldTokens name.text (fun q => (op q).text) val (p :: rest)))
    ∧ (∀ (sni : Text) (rest : List Text),
        (genForField tlsSni.text (fun s => (sniOpTransform s).text) (sni :: rest)
            sniValTransform).bind tokens
          = some (fieldTokens tlsSni.text (fun s => (sniOpTransform s).text) sniValTransform
              (sni :: rest)))
    ∧ (∀ (path : Text) (rest : List Text),
        (genForField httpPath.text (fun s => (pathOpTransform s).text) (path :: rest)
            pathValTransform).bind tokens
          = some (fieldTokens httpPath.text (fun s => (pathOpTransform s).text) pathValTransform
              (path :: rest)))
    ∧ ∀ (name : HeaderName) (value : Text) (rest : List Text),
        tokens (genHeader name.text (value :: rest))
          = some (fieldTokens (headerField name.text) (fun v => (headerValue v).1.text)
              (fun _ v => (headerValue v).2.map Char.toLower) (value :: rest)) := by
  have hfield : ∀ (α : Type) (name : Unquoted) (op : α → Unquoted) (val : Text → α → Text)
      (p : α) (rest : List α),
      (genForField name.text (fun q => (op q).text) (p :: rest) val).bind tokens
        = some (fieldTokens name.text (fun q => (op q).text) val (p :: rest)) := by
    intro α name op val p rest
    rw [genForField, if_neg (List.cons_ne_nil p rest)]
    exact tokens_genValues name op val p rest
  refine ⟨readLiteral_escapeStr, hfield, fun sni rest => hfield _ _ _ _ _ _,
    fun path rest => hfield _ _ _ _ _ _, fun name value rest => ?_⟩
  exact tokens_genValues ⟨headerField name.text, quote_not_mem_headerField name⟩
    (fun v => (headerValue v).1) (fun _ v => (headerValue v).2.map Char.toLower) value rest

end KongGateway.Kong.Router.Expressions

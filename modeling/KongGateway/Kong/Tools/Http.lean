import KongGateway.Lib.Keyed
import KongGateway.Lib.LuaNumber
import KongGateway.Lib.Numerals

/-!
# Http — cache directives

`parse_directive_header` reads a header such as `Cache-Control`. The name
of a directive is what its piece has before the first `=`; the value is
the number that the rest looks like, the rest itself, or `true`. The
captures of all pieces go into one table, so a piece without a name is
read as the piece before it, and raises an error when there was none.
`tonumber` and the parser of dates are parameters.
-/

namespace KongGateway.Kong.Tools

open Bytes

abbrev Text := List Byte

/-- The value of a directive; `flag` is `true`. -/
inductive Directive where
  | number (n : LuaNumber)
  | text (value : Text)
  | flag
  deriving DecidableEq

abbrev Directives := LuaTable Text Directive

/-- A header as `ngx.var` and `ngx.req` give it. -/
inductive HeaderValue where
  | absent
  | text (value : Text)
  | list (values : List Text)

/-- `lower`. -/
def lowerText (s : Text) : Text :=
  s.map fun c => if 65 ≤ c.val ∧ c.val ≤ 90 then Fin.ofNat 256 (c.val + 32) else c

/-- The matches of `[^,]+`. -/
def directivePieces (h : Text) : List Text := (h.splitOn 44).filter (· ≠ [])

/-- The captures of `^\s*([^=]+)(?:=(.+))?`; there is no second one where
nothing, or a line feed, comes after the `=`. -/
def matchDirective (piece : Text) : Option (Text × Option Text) :=
  let name := piece.takeWhile (· ≠ 61)
  let value := ((piece.dropWhile (· ≠ 61)).drop 1).takeWhile (· ≠ 10)
  match name.getLast? with
  | none => none
  | some last =>
    -- spaces are skipped, but one is kept when there is nothing else
    let trimmed := name.dropWhile Numerals.isSpace
    some (if trimmed = [] then [last] else trimmed, if value = [] then none else some value)

section

variable (tonumber : Text → Option LuaNumber)

/-- `tonumber(res[2]) or res[2] or true`. -/
def directiveValue : Option Text → Directive
  | none => .flag
  | some value =>
    match tonumber value with
    | some n => .number n
    | none => .text value

/-- The loop over the pieces, with the captures of the last match. -/
def readDirectives : Option (Text × Option Text) → Directives → List Text → Except String Directives
  | _, t, [] => .ok t
  | res, t, piece :: pieces =>
    let res := (matchDirective piece).or res
    match res with
    | none => .error "bad argument #1 to 'lower' (string expected, got nil)"
    | some (name, value) =>
      readDirectives res (t.set (lowerText name) (some (directiveValue tonumber value))) pieces

/-- `parse_directive_header`. -/
def parseDirectiveHeader : HeaderValue → Except String Directives
  | .absent => .ok ∅
  | .text h => readDirectives tonumber none ∅ (directivePieces h)
  | .list values =>
    readDirectives tonumber none ∅ (directivePieces ((ofText ", ").intercalate values))

end

/-- `calculate_resource_ttl`, for the header `Expires` of the response. -/
def calculateResourceTtl (parseHttpTime : Text → Option Int) (now : Int) (expires : HeaderValue)
    (resCc : Directives) : Except String LuaNumber :=
  match (resCc.get (ofText "s-maxage")).or (resCc.get (ofText "max-age")) with
  | some (.number maxAge) => .ok maxAge.maxZero
  | some (.text _) => .error "bad argument #1 to 'max' (number expected, got string)"
  | some .flag => .error "bad argument #1 to 'max' (number expected, got boolean)"
  | none =>
    let expires :=
      match expires with
      | .absent => ofText "nil"
      | .text value => value
      | .list values => values.getLast?.getD (ofText "nil")
    match parseHttpTime expires with
    | some expTime => .ok (LuaNumber.finite (expTime - now)).maxZero
    | none => .ok (.finite 0)

/-! ## Headers that can be read -/

theorem matchDirective_eq_none_iff {piece : Text} :
    matchDirective piece = none ↔ piece = [] ∨ piece.head? = some 61 := by
  have hname : piece.takeWhile (· ≠ 61) = [] ↔ piece = [] ∨ piece.head? = some 61 := by
    cases piece with
    | nil => simp
    | cons c rest => by_cases hc : c = 61 <;> simp [hc]
  rw [← hname]
  unfold matchDirective
  generalize piece.takeWhile (· ≠ 61) = name
  cases hlast : name.getLast? with
  | none =>
    constructor
    · intro _
      exact List.getLast?_eq_none_iff.mp hlast
    · intro _
      simp only [hlast]
  | some last =>
    constructor
    · intro h
      simp only [hlast] at h
      cases h
    · intro h
      rw [h] at hlast
      cases hlast

theorem readDirectives_of_match (tonumber : Text → Option LuaNumber) (res : Text × Option Text)
    (t : Directives) (pieces : List Text) : ∃ t', readDirectives tonumber (some res) t pieces = .ok t' := by
  induction pieces generalizing res t with
  | nil => exact ⟨t, rfl⟩
  | cons piece pieces ih =>
    cases hmatch : matchDirective piece with
    | none =>
      obtain ⟨t', ht'⟩ := ih res (t.set (lowerText res.1) (some (directiveValue tonumber res.2)))
      refine ⟨t', ?_⟩
      rw [readDirectives, hmatch]
      exact ht'
    | some found =>
      obtain ⟨t', ht'⟩ := ih found (t.set (lowerText found.1) (some (directiveValue tonumber found.2)))
      refine ⟨t', ?_⟩
      rw [readDirectives, hmatch]
      exact ht'

theorem readDirectives_ok_iff (tonumber : Text → Option LuaNumber) (t : Directives)
    (pieces : List Text) :
    (∃ t', readDirectives tonumber none t pieces = .ok t')
      ↔ ∀ piece, pieces.head? = some piece → matchDirective piece ≠ none := by
  cases pieces with
  | nil =>
    constructor
    · intro _ piece hpiece
      cases hpiece
    · intro _
      exact ⟨t, rfl⟩
  | cons piece pieces =>
    cases hmatch : matchDirective piece with
    | none =>
      constructor
      · rintro ⟨t', ht'⟩
        rw [readDirectives, hmatch] at ht'
        cases ht'
      · intro h
        exact absurd hmatch (h piece rfl)
    | some found =>
      constructor
      · rintro - other hother
        cases hother
        rw [hmatch]
        exact Option.some_ne_none found
      · intro _
        rw [readDirectives, hmatch]
        exact readDirectives_of_match tonumber found _ pieces

/-- The pieces that a header is read as. -/
def HeaderValue.pieces : HeaderValue → List Text
  | .absent => []
  | .text h => directivePieces h
  | .list values => directivePieces ((ofText ", ").intercalate values)

/-- The first piece does not start with `=`. -/
def HeaderValue.FirstNamed (header : HeaderValue) : Prop :=
  ∀ piece, header.pieces.head? = some piece → piece.head? ≠ some 61

theorem ne_nil_of_mem_directivePieces {h piece : Text} (hmem : piece ∈ directivePieces h) :
    piece ≠ [] :=
  of_decide_eq_true (List.mem_filter.mp hmem).2

theorem parseDirectiveHeader_eq (tonumber : Text → Option LuaNumber) (header : HeaderValue) :
    parseDirectiveHeader tonumber header = readDirectives tonumber none ∅ header.pieces := by
  cases header with
  | _ => rfl

/-- A header is read unless its first piece starts with `=`. -/
theorem parseDirectiveHeader_ok_iff (tonumber : Text → Option LuaNumber) (header : HeaderValue) :
    (∃ cc, parseDirectiveHeader tonumber header = .ok cc) ↔ header.FirstNamed := by
  have hne : ∀ piece ∈ header.pieces, piece ≠ [] := by
    intro piece hmem
    cases header with
    | absent => cases hmem
    | text h => exact ne_nil_of_mem_directivePieces hmem
    | list values => exact ne_nil_of_mem_directivePieces hmem
  rw [parseDirectiveHeader_eq, readDirectives_ok_iff]
  refine forall₂_congr fun piece hpiece => ?_
  rw [Ne, matchDirective_eq_none_iff, or_iff_right (hne piece (List.mem_of_head? hpiece))]

/-!
## Http — the lifetime a response declares

What the table of a header has for a name is the value of the last piece of
that name; a piece without a name changes nothing. `calculate_resource_ttl`
takes that value for a number.
-/

variable (tonumber : Text → Option LuaNumber)

/-- The value of the last piece of a name. -/
def lastNamed (name : Text) (pieces : List Text) : Option (Option Text) :=
  (((pieces.filterMap matchDirective).filter fun found => lowerText found.1 = name).getLast?).map
    Prod.snd

theorem lastNamed_cons_none {piece : Text} (h : matchDirective piece = none) (name : Text)
    (pieces : List Text) : lastNamed name (piece :: pieces) = lastNamed name pieces := by
  rw [lastNamed, List.filterMap_cons_none h]
  rfl

theorem lastNamed_cons_some {piece : Text} {found : Text × Option Text}
    (h : matchDirective piece = some found) (name : Text) (pieces : List Text) :
    lastNamed name (piece :: pieces)
      = (lastNamed name pieces).or (if lowerText found.1 = name then some found.2 else none) := by
  rw [lastNamed, lastNamed, List.filterMap_cons_some h]
  split
  · rename_i heq
    rw [List.filter_cons_of_pos (by simpa using heq), List.getLast?_cons]
    cases ((pieces.filterMap matchDirective).filter
      fun found => lowerText found.1 = name).getLast? <;> rfl
  · rename_i hne
    rw [List.filter_cons_of_neg (by simpa using hne), Option.or_none]

theorem get_readDirectives {res : Text × Option Text} {t t' : Directives} {pieces : List Text}
    (hres : t.get (lowerText res.1) = some (directiveValue tonumber res.2))
    (h : readDirectives tonumber (some res) t pieces = .ok t') (name : Text) :
    t'.get name = ((lastNamed name pieces).map (directiveValue tonumber)).or (t.get name) := by
  induction pieces generalizing res t with
  | nil =>
    cases h
    rfl
  | cons piece pieces ih =>
    cases hmatch : matchDirective piece with
    | none =>
      -- the last piece is read again
      rw [readDirectives, hmatch, Option.none_or] at h
      have hsame : (t.set (lowerText res.1) (some (directiveValue tonumber res.2))).get name
          = t.get name := by
        rw [LuaTable.get_set]
        split
        · rename_i heq
          rw [heq, hres]
        · rfl
      rw [ih (LuaTable.get_set_self t _ _) h, lastNamed_cons_none hmatch, hsame]
    | some found =>
      rw [readDirectives, hmatch, Option.some_or] at h
      rw [ih (LuaTable.get_set_self t _ _) h, lastNamed_cons_some hmatch, LuaTable.get_set]
      cases lastNamed name pieces with
      | some value => rfl
      | none =>
        by_cases hname : lowerText found.1 = name
        · rw [if_pos hname, if_pos hname.symm]
          rfl
        · rw [if_neg hname, if_neg (Ne.symm hname)]
          rfl

/-- The value of the last directive of a name. -/
def HeaderValue.directive (header : HeaderValue) (name : Text) : Option (Option Text) :=
  lastNamed name header.pieces

theorem get_parseDirectiveHeader {header : HeaderValue} {cc : Directives}
    (h : parseDirectiveHeader tonumber header = .ok cc) (name : Text) :
    cc.get name = (header.directive name).map (directiveValue tonumber) := by
  rw [parseDirectiveHeader_eq] at h
  rw [HeaderValue.directive]
  generalize header.pieces = pieces at h ⊢
  cases pieces with
  | nil =>
    cases h
    exact LuaTable.get_empty name
  | cons piece pieces =>
    cases hmatch : matchDirective piece with
    | none =>
      rw [readDirectives, hmatch] at h
      cases h
    | some found =>
      rw [readDirectives, hmatch] at h
      rw [get_readDirectives tonumber (LuaTable.get_set_self _ _ _) h,
        lastNamed_cons_some hmatch, LuaTable.get_set]
      cases lastNamed name pieces with
      | some value => rfl
      | none =>
        by_cases hname : lowerText found.1 = name
        · rw [if_pos hname, if_pos hname.symm]
          rfl
        · rw [if_neg hname, if_neg (Ne.symm hname), LuaTable.get_empty]
          rfl

/-! ## Lifetimes -/

/-- A number that is at least zero. -/
def LifetimeNumber (n : LuaNumber) : Prop := n = .finite 0 ∨ LuaNumber.lt (.finite 0) n = true

theorem lifetimeNumber_maxZero (n : LuaNumber) : LifetimeNumber n.maxZero := by
  unfold LuaNumber.maxZero
  split
  · rename_i hlt
    exact Or.inr hlt
  · exact Or.inl rfl

/-- The header is read, and a lifetime is calculated from it whatever the response's
`Expires`, the parser of dates and the time. -/
def Handled (header : HeaderValue) : Prop :=
  ∃ cc, parseDirectiveHeader tonumber header = .ok cc
    ∧ ∀ parseHttpTime now expires, ∃ ttl,
      calculateResourceTtl parseHttpTime now expires cc = .ok ttl ∧ LifetimeNumber ttl

/-- A directive whose value looks like a number. -/
def Numeric (value : Option Text) : Prop := ∃ s, value = some s ∧ (tonumber s).isSome = true

/-- `s-maxage`, or `max-age` where there is none, looks like a number if it is there. -/
def HeaderValue.AgeNumeric (header : HeaderValue) : Prop :=
  ∀ value, (header.directive (ofText "s-maxage")).or (header.directive (ofText "max-age")) = some value →
    Numeric tonumber value

theorem directiveValue_number_iff (value : Option Text) :
    (∃ n, directiveValue tonumber value = .number n) ↔ Numeric tonumber value := by
  cases value with
  | none => simp [directiveValue, Numeric]
  | some s => cases hs : tonumber s <;> simp [directiveValue, Numeric, hs]

theorem calculateResourceTtl_ok_iff (parseHttpTime : Text → Option Int) (now : Int)
    (expires : HeaderValue) (cc : Directives) :
    (∃ ttl, calculateResourceTtl parseHttpTime now expires cc = .ok ttl ∧ LifetimeNumber ttl)
      ↔ ∀ d, (cc.get (ofText "s-maxage")).or (cc.get (ofText "max-age")) = some d →
        ∃ n, d = .number n := by
  unfold calculateResourceTtl
  cases (cc.get (ofText "s-maxage")).or (cc.get (ofText "max-age")) with
  | none =>
    dsimp only
    constructor
    · intro _ d hd
      cases hd
    · intro _
      split
      · exact ⟨_, rfl, lifetimeNumber_maxZero _⟩
      · exact ⟨_, rfl, Or.inl rfl⟩
  | some d =>
    cases d with
    | number n => simpa using lifetimeNumber_maxZero n
    | text s => simp
    | flag => simp

/-- A header is handled unless its first piece starts with `=` or the age it declares does not
look like a number. -/
theorem handled_iff (header : HeaderValue) :
    Handled tonumber header ↔ header.FirstNamed ∧ header.AgeNumeric tonumber := by
  have hnumber : ∀ cc, parseDirectiveHeader tonumber header = .ok cc →
      ((∀ d, (cc.get (ofText "s-maxage")).or (cc.get (ofText "max-age")) = some d →
        ∃ n, d = .number n) ↔ header.AgeNumeric tonumber) := by
    intro cc hcc
    rw [get_parseDirectiveHeader tonumber hcc, get_parseDirectiveHeader tonumber hcc, ← Option.map_or,
      HeaderValue.AgeNumeric]
    cases (header.directive (ofText "s-maxage")).or (header.directive (ofText "max-age")) with
    | none => simp
    | some value =>
      rw [Option.map_some]
      simpa using directiveValue_number_iff tonumber value
  rw [← parseDirectiveHeader_ok_iff tonumber header]
  constructor
  · rintro ⟨cc, hcc, httl⟩
    refine ⟨⟨cc, hcc⟩, (hnumber cc hcc).mp ?_⟩
    exact (calculateResourceTtl_ok_iff _ _ _ cc).mp (httl (fun _ => none) 0 .absent)
  · rintro ⟨⟨cc, hcc⟩, hage⟩
    refine ⟨cc, hcc, fun parseHttpTime now expires => ?_⟩
    exact (calculateResourceTtl_ok_iff parseHttpTime now expires cc).mpr ((hnumber cc hcc).mpr hage)

/-- `max-age` without a value raises an error. -/
theorem flag_not_handled : ¬ Handled (fun _ => none) (.text (ofText "max-age")) := by
  rintro ⟨cc, hcc, httl⟩
  obtain ⟨ttl, hraised, -⟩ := httl (fun _ => none) 0 .absent
  have hread : parseDirectiveHeader (fun _ => none) (.text (ofText "max-age"))
      = .ok ((∅ : Directives).set (ofText "max-age") (some .flag)) := rfl
  have hshared : ofText "s-maxage" ≠ ofText "max-age" := by decide
  rw [hread] at hcc
  cases hcc
  rw [calculateResourceTtl, LuaTable.get_set_ne _ hshared, LuaTable.get_empty,
    LuaTable.get_set_self] at hraised
  cases hraised

end KongGateway.Kong.Tools

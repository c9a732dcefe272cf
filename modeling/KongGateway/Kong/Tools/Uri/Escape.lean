import KongGateway.Kong.Tools.Uri.Canonical
import Mathlib.Data.List.GetD

/-!
# Escape — `kong.tools.uri.escape`

The characters that are neither reserved nor unreserved, nor a percent
sign, are written as triplets when a path is forwarded. Decoding undoes
just that, so that a normalized text is read back from its escaped form
(`normalize_escape`).
-/

namespace KongGateway.Kong.Tools

open Segments

/-- The characters of `ESCAPE_PATTERN` beside letters and digits. -/
def escapeExempt : List Char := "!#$&'()*+,/:;=?@[]-_.~%".toList

/-- The class `ESCAPE_PATTERN`, without regard to case. -/
def matchesEscape (c : Char) : Bool := !(escapeExempt.contains c || c.isAlphanum)

def upperHexDigit (n : Nat) : Char := "0123456789ABCDEF".toList.getD n '0'

/-- `percent_escape` on a byte. -/
def percentEscape (c : Char) : List Char :=
  ['%', upperHexDigit (c.toNat / 16), upperHexDigit (c.toNat % 16)]

/-- `escape`. -/
def escape (uri : List Char) : List Char :=
  if uri.any matchesEscape then
    uri.flatMap fun c => if matchesEscape c then percentEscape c else [c]
  else uri

/-- A string of bytes, one character each. -/
def Bytes (u : List Char) : Prop := ∀ c ∈ u, c.toNat < 256

/-! ## The substitution -/

theorem escape_eq (uri : List Char) :
    escape uri = uri.flatMap fun c => if matchesEscape c then percentEscape c else [c] := by
  unfold escape
  split_ifs with hany
  · rfl
  · induction uri with
    | nil => rfl
    | cons c rest ih =>
      rw [List.any_cons, Bool.or_eq_true, not_or] at hany
      rw [List.flatMap_cons, if_neg hany.1, ← ih hany.2]
      rfl

theorem escape_cons (c : Char) (rest : List Char) :
    escape (c :: rest) = (if matchesEscape c then percentEscape c else [c]) ++ escape rest := by
  rw [escape_eq, escape_eq, List.flatMap_cons]

theorem matchesEscape_upperHexDigit (n : Nat) : matchesEscape (upperHexDigit n) = false := by
  have hall : ∀ c ∈ '0' :: "0123456789ABCDEF".toList, matchesEscape c = false :=
    List.all_iff_forall_prop.mp (by decide)
  refine hall _ ?_
  unfold upperHexDigit
  rcases Nat.lt_or_ge n "0123456789ABCDEF".toList.length with hlt | hge
  · rw [List.getD_eq_getElem _ _ hlt]
    exact List.mem_cons_of_mem _ (List.getElem_mem hlt)
  · rw [List.getD_eq_default _ _ hge]
    exact List.mem_cons_self

theorem escape_escape (v : List Char) : escape (escape v) = escape v := by
  induction v with
  | nil => rfl
  | cons c rest ih =>
    rw [escape_cons]
    split_ifs with hc
    · show escape ('%' :: _ :: _ :: escape rest) = _
      rw [escape_cons, escape_cons, escape_cons, if_neg (by decide), if_neg (by
        rw [matchesEscape_upperHexDigit]; exact Bool.false_ne_true), if_neg (by
        rw [matchesEscape_upperHexDigit]; exact Bool.false_ne_true), ih]
      rfl
    · show escape (c :: escape rest) = _
      rw [escape_cons, if_neg hc, ih]

/-! ## Reading back -/

theorem hexDigit_upperHexDigit {n : Nat} (h : n < 16) : hexDigit? (upperHexDigit n) = some n := by
  have hall : ∀ k < 16, hexDigit? (upperHexDigit k) = some k := by decide
  exact hall n h

/-- Reserved characters are not escaped, nor are the digits of a
triplet. -/
theorem matchesEscape_reserved {c : Char} (h : c ∈ reservedChars) : matchesEscape c = false := by
  have hall : ∀ c ∈ reservedChars, matchesEscape c = false :=
    List.all_iff_forall_prop.mp (by decide)
  exact hall c h

theorem matchesEscape_hexDigit {a : Char} {n : Nat} (h : hexDigit? a = some n) :
    matchesEscape a = false := by
  have hall : ∀ c ∈ hexDigits, matchesEscape c = false :=
    List.all_iff_forall_prop.mp (by decide)
  exact hall a (mem_hexDigits h)

/-- **Decoding undoes escaping** where only reserved triplets are left. -/
theorem decodeTriplets_escape {r : List Char} (h : Encoded Reserved r) (hbytes : Bytes r) :
    decodeTriplets (escape r) = r := by
  induction h with
  | nil => rfl
  | @char c rest hc _ ih =>
    have hlt := hbytes c List.mem_cons_self
    have hrest := ih fun d hd => hbytes d (List.mem_cons_of_mem c hd)
    rw [escape_cons]
    split_ifs with hescape
    · have hother : c ∉ reservedChars := fun hmem => by
        rw [matchesEscape_reserved hmem] at hescape
        exact Bool.false_ne_true hescape
      show decodeTriplets ('%' :: _ :: _ :: escape rest) = _
      rw [decodeTriplets_triplet (hexDigit_upperHexDigit (by omega))
          (hexDigit_upperHexDigit (by omega)),
        show c.toNat / 16 * 16 + c.toNat % 16 = c.toNat by omega, normalizeDecode,
        Char.ofNat_toNat, if_neg fun hmem => hother (List.contains_iff_mem.mp hmem), hrest]
      rfl
    · show decodeTriplets (c :: escape rest) = _
      rw [decodeTriplets_char hc, hrest]
  | @triplet a b rest hok _ ih =>
    have hrest := ih fun d hd => hbytes d (by simp [hd])
    obtain ⟨high, low, ha, hb, hmem, hupper, hupper'⟩ := hok
    rw [escape_cons, escape_cons, escape_cons, if_neg (by decide),
      if_neg (by rw [matchesEscape_hexDigit ha]; exact Bool.false_ne_true),
      if_neg (by rw [matchesEscape_hexDigit hb]; exact Bool.false_ne_true)]
    show decodeTriplets ('%' :: a :: b :: escape rest) = _
    rw [decodeTriplets_triplet ha hb, normalizeDecode, if_pos (List.contains_iff_mem.mpr hmem),
      hupper, hupper', hrest]
    rfl

/-! ## Bytes stay bytes -/

theorem toNat_ofNat_lt {n : Nat} (h : n < 256) : (Char.ofNat n).toNat < 256 := by
  have hvalid : n.isValidChar := .inl (by omega)
  have hnat : (Char.ofNat n).toNat = n := by
    rw [Char.ofNat, dif_pos hvalid]
    rfl
  rwa [hnat]

theorem bytes_decode {u : List Char} (h : Encoded Hex u) (hbytes : Bytes u) :
    Bytes (decodeTriplets u) := by
  induction h with
  | nil => exact hbytes
  | char hc _ ih =>
    rw [decodeTriplets_char hc]
    rw [Bytes, List.forall_mem_cons] at hbytes
    exact List.forall_mem_cons.mpr ⟨hbytes.1, ih hbytes.2⟩
  | @triplet a b rest hok _ ih =>
    obtain ⟨high, low, ha, hb⟩ := hok.digits
    have hhigh := ha.lt
    have hlow := hb.lt
    rw [decodeTriplets_triplet ha.value hb.value]
    intro c hc
    rcases List.mem_append.mp hc with hc | hc
    · rcases normalizeDecode_cases ha hb with ⟨-, heq⟩ | ⟨-, heq⟩
      · have hupper : ∀ d ∈ hexDigits, d.toUpper.toNat < 256 :=
          List.all_iff_forall_prop.mp (by decide)
        rw [heq] at hc
        simp only [List.mem_cons, List.not_mem_nil, or_false] at hc
        rcases hc with rfl | rfl | rfl
        · decide
        · exact hupper a (mem_hexDigits ha.value)
        · exact hupper b (mem_hexDigits hb.value)
      · rw [heq, List.mem_singleton] at hc
        rw [hc]
        exact toNat_ofNat_lt (by omega)
    · exact ih (fun d hd => hbytes d (by simp [hd])) c hc

/-- The characters of the normalized text are those of the decoded one,
and slashes. -/
theorem mem_survivors {mergeSlashes : Bool} {segments : List Segment} :
    ∀ s ∈ (survivors mergeSlashes segments).1, s = [] ∨ s ∈ segments := by
  induction segments with
  | nil => simp [survivors]
  | cons s rest ih =>
    have hlift : ∀ t ∈ (survivors mergeSlashes rest).1, t = [] ∨ t ∈ s :: rest :=
      fun t ht => (ih t ht).imp_right (List.mem_cons_of_mem s)
    cases rest with
    | nil =>
      rw [survivors]
      split_ifs <;> simp
    | cons next rest =>
      rw [survivors, readBack]
      split_ifs
      · exact hlift
      · exact hlift
      · exact List.forall_mem_cons.mpr ⟨.inr List.mem_cons_self, hlift⟩
      · exact hlift

theorem bytes_normalize {u : List Char} (h : Encoded Hex u) (hbytes : Bytes u)
    (mergeSlashes : Bool) : Bytes (normalize u mergeSlashes) := by
  obtain ⟨first, kept, hnormal⟩ := exists_normalized h mergeSlashes
  have hd := bytes_decode h hbytes
  have hsegment : ∀ s ∈ first :: kept, Bytes s := by
    intro s hs c hc
    have hmem : s ∈ (first :: kept).filter (· ≠ []) :=
      List.mem_filter.mpr ⟨hs, by simpa using List.ne_nil_of_mem hc⟩
    rw [hnormal.left.survive, ← split_decode h] at hmem
    rcases mem_survivors s (List.mem_filter.mp hmem).1 with rfl | hin
    · exact absurd hc List.not_mem_nil
    · exact hd c (mem_of_mem_split hin hc)
  rw [hnormal.normalize_eq]
  intro c hc
  rcases List.mem_append.mp hc with hc | hc
  · exact hsegment first List.mem_cons_self c hc
  · obtain ⟨s, hs, hc⟩ := List.mem_flatMap.mp hc
    rcases List.mem_cons.mp hc with rfl | hc
    · decide
    · exact hsegment s (List.mem_cons_of_mem first hs) c hc

/-! ## The round trip -/

/-- **Escaping a normalized text loses nothing**, and escaping twice is
escaping once. -/
theorem normalize_escape {u : List Char} (hu : Followed Hex u) (hbytes : Bytes u)
    (mergeSlashes : Bool) :
    normalize (escape (normalize u mergeSlashes)) mergeSlashes = normalize u mergeSlashes
      ∧ ∀ v, escape (escape v) = escape v := by
  have h := Encoded.of_followed hu
  obtain ⟨first, kept, hnormal⟩ := exists_normalized h mergeSlashes
  have hback : decodeTriplets (escape (normalize u mergeSlashes)) = first ++ slashed kept := by
    have hencoded := hnormal.encoded
    rw [← hnormal.normalize_eq] at hencoded ⊢
    exact decodeTriplets_escape hencoded (bytes_normalize h hbytes mergeSlashes)
  refine ⟨?_, escape_escape⟩
  rw [hnormal.normalize_of_decode hback, hnormal.normalize_eq]

theorem normalize_escape_space :
    normalize (escape (normalize "/a%20b%2f".toList true)) true = "/a b%2F".toList
      ∧ ∀ v, escape (escape v) = escape v := by
  have h : Encoded Hex "/a%20b%2f".toList :=
    .char (by decide) <| .char (by decide) <| .triplet (by decide) <| .char (by decide) <|
      .triplet (by decide) .nil
  exact normalize_escape (h.followed fun _ _ hok => hok) (List.all_iff_forall_prop.mp (by decide)) true

end KongGateway.Kong.Tools

import KongGateway.Kong.Tools.Uri.DotSegments
import Mathlib.Data.Bool.AllAny
import Mathlib.Tactic.IntervalCases

/-!
# Triplets — percent-encoded texts and their decoding

`Encoded ok` says that every percent sign starts a triplet whose two
digits satisfy `ok`. Texts put together from such texts are such texts,
and so are the two sides of a slash. Decoding leaves the reserved triplets
in upper case and nothing else to decode.
-/

namespace KongGateway.Kong.Tools

open Segments

/-! ## Hexadecimal digits -/

def hexDigits : List Char := "0123456789abcdefABCDEF".toList

theorem mem_hexDigits {a : Char} {n : Nat} (h : hexDigit? a = some n) : a ∈ hexDigits := by
  have hmem : ∀ k, 48 ≤ k ∧ k ≤ 57 ∨ 97 ≤ k ∧ k ≤ 102 ∨ 65 ≤ k ∧ k ≤ 70 →
      Char.ofNat k ∈ hexDigits := by
    rintro k (⟨h₁, h₂⟩ | ⟨h₁, h₂⟩ | ⟨h₁, h₂⟩) <;> interval_cases k <;> decide
  rw [← Char.ofNat_toNat a]
  apply hmem
  unfold hexDigit? at h
  split_ifs at h with h₁ h₂ h₃
  · exact .inl h₁
  · exact .inr (.inl h₂)
  · exact .inr (.inr h₃)

/-- What is used of the digits. -/
structure HexDigit (a : Char) (n : Nat) : Prop where
  value : hexDigit? a = some n
  upper_value : hexDigit? a.toUpper = some n
  upper_upper : a.toUpper.toUpper = a.toUpper
  ne_slash : a ≠ '/'
  ne_percent : a ≠ '%'
  upper_ne_slash : a.toUpper ≠ '/'
  lt : n < 16

instance (a : Char) (n : Nat) : Decidable (HexDigit a n) :=
  decidable_of_iff (hexDigit? a = some n ∧ hexDigit? a.toUpper = some n
      ∧ a.toUpper.toUpper = a.toUpper ∧ a ≠ '/' ∧ a ≠ '%' ∧ a.toUpper ≠ '/' ∧ n < 16)
    ⟨fun ⟨h₁, h₂, h₃, h₄, h₅, h₆, h₇⟩ => ⟨h₁, h₂, h₃, h₄, h₅, h₆, h₇⟩,
      fun ⟨h₁, h₂, h₃, h₄, h₅, h₆, h₇⟩ => ⟨h₁, h₂, h₃, h₄, h₅, h₆, h₇⟩⟩

theorem hexDigit_of_value {a : Char} {n : Nat} (h : hexDigit? a = some n) : HexDigit a n := by
  have hall : ∀ c ∈ hexDigits, HexDigit c ((hexDigit? c).getD 0) :=
    List.all_iff_forall_prop.mp (by decide)
  simpa [h] using hall a (mem_hexDigits h)

/-! ## Encoded texts -/

/-- Every percent sign starts a triplet with digits that are `ok`. -/
inductive Encoded (ok : Char → Char → Prop) : List Char → Prop
  | nil : Encoded ok []
  | char {c : Char} {rest : List Char} (hc : c ≠ '%') (hrest : Encoded ok rest) :
      Encoded ok (c :: rest)
  | triplet {a b : Char} {rest : List Char} (hok : ok a b) (hrest : Encoded ok rest) :
      Encoded ok ('%' :: a :: b :: rest)

/-- Two hexadecimal digits. -/
def Hex (a b : Char) : Prop := (hexDigit? a).isSome ∧ (hexDigit? b).isSome

instance (a b : Char) : Decidable (Hex a b) :=
  inferInstanceAs (Decidable ((hexDigit? a).isSome ∧ (hexDigit? b).isSome))

/-- The digits of a reserved character, in upper case. -/
def Reserved (a b : Char) : Prop :=
  ∃ high low, hexDigit? a = some high ∧ hexDigit? b = some low
    ∧ Char.ofNat (high * 16 + low) ∈ reservedChars ∧ a.toUpper = a ∧ b.toUpper = b

/-- Every percent sign of the text is followed by two such digits. -/
def Followed (ok : Char → Char → Prop) (u : List Char) : Prop :=
  ∀ before rest, u = before ++ '%' :: rest → ∃ a b tail, rest = a :: b :: tail ∧ ok a b

theorem Hex.digits {a b : Char} (h : Hex a b) :
    ∃ high low, HexDigit a high ∧ HexDigit b low := by
  obtain ⟨high, hhigh⟩ := Option.isSome_iff_exists.mp h.1
  obtain ⟨low, hlow⟩ := Option.isSome_iff_exists.mp h.2
  exact ⟨high, low, hexDigit_of_value hhigh, hexDigit_of_value hlow⟩

theorem Reserved.hex {a b : Char} (h : Reserved a b) : Hex a b := by
  obtain ⟨high, low, hhigh, hlow, -⟩ := h
  exact ⟨by rw [hhigh]; rfl, by rw [hlow]; rfl⟩

/-- Another character than the digits stands in front of a triplet or
behind it. -/
theorem append_cons_eq_triplet {s t rest : List Char} {c a b : Char} (ha : c ≠ a) (hb : c ≠ b)
    (h : s ++ c :: t = '%' :: a :: b :: rest) :
    (s = [] ∧ c = '%' ∧ t = a :: b :: rest)
      ∨ ∃ s', s = '%' :: a :: b :: s' ∧ s' ++ c :: t = rest := by
  rcases s with - | ⟨d, - | ⟨e, - | ⟨f, s⟩⟩⟩
  · obtain ⟨hc, ht⟩ := List.cons.inj h
    exact .inl ⟨rfl, hc, ht⟩
  · exact absurd (List.cons.inj (List.cons.inj h).2).1 ha
  · exact absurd (List.cons.inj (List.cons.inj (List.cons.inj h).2).2).1 hb
  · simp only [List.cons_append, List.cons.injEq] at h
    obtain ⟨rfl, rfl, rfl, hs⟩ := h
    exact .inr ⟨s, rfl, hs⟩

section Encoded

variable {ok : Char → Char → Prop}

theorem Encoded.of_followed {u : List Char} (h : Followed ok u) : Encoded ok u := by
  match u, h with
  | [], _ => exact .nil
  | c :: rest, h =>
    by_cases hc : c = '%'
    · subst hc
      obtain ⟨a, b, tail, rfl, hok⟩ := h [] rest rfl
      exact .triplet hok (of_followed fun before rest' heq =>
        h ('%' :: a :: b :: before) rest' (by rw [heq]; rfl))
    · exact .char hc (of_followed fun before rest' heq => h (c :: before) rest' (by rw [heq]; rfl))
termination_by u.length

theorem Encoded.followed (hhex : ∀ a b, ok a b → Hex a b) {u : List Char} (h : Encoded ok u) :
    Followed ok u := by
  induction h with
  | nil =>
    intro before rest heq
    simp at heq
  | char hc _ ih =>
    intro before rest heq
    cases before with
    | nil => exact absurd (List.cons.inj heq).1 hc
    | cons d before => exact ih before rest (List.cons.inj heq).2
  | @triplet a b tail hok _ ih =>
    obtain ⟨high, low, ha, hb⟩ := (hhex a b hok).digits
    intro before rest heq
    rcases append_cons_eq_triplet ha.ne_percent.symm hb.ne_percent.symm heq.symm with
      ⟨-, -, hrest⟩ | ⟨before', -, htail⟩
    · exact ⟨a, b, tail, hrest, hok⟩
    · exact ih before' rest htail.symm

theorem Encoded.append {s t : List Char} (hs : Encoded ok s) (ht : Encoded ok t) :
    Encoded ok (s ++ t) := by
  induction hs with
  | nil => exact ht
  | char hc _ ih => exact .char hc ih
  | triplet hok _ ih => exact .triplet hok ih

theorem Encoded.of_slash (hhex : ∀ a b, ok a b → Hex a b) {s t : List Char}
    (h : Encoded ok (s ++ '/' :: t)) : Encoded ok s ∧ Encoded ok t := by
  generalize hl : s ++ '/' :: t = l at h
  induction h generalizing s with
  | nil => simp at hl
  | char hc hrest ih =>
    cases s with
    | nil =>
      obtain ⟨-, rfl⟩ := List.cons.inj hl
      exact ⟨.nil, hrest⟩
    | cons c s =>
      rw [List.cons_append] at hl
      obtain ⟨rfl, htail⟩ := List.cons.inj hl
      exact ⟨.char hc (ih htail).1, (ih htail).2⟩
  | @triplet a b tail hok _ ih =>
    obtain ⟨high, low, ha, hb⟩ := (hhex a b hok).digits
    rcases append_cons_eq_triplet ha.ne_slash.symm hb.ne_slash.symm hl with
      ⟨-, hslash, -⟩ | ⟨s', rfl, hs'⟩
    · exact absurd hslash (by decide)
    · exact ⟨.triplet hok (ih hs').1, (ih hs').2⟩

theorem encoded_slashed_iff (hhex : ∀ a b, ok a b → Hex a b) {s : Segment} {rest : List Segment} :
    Encoded ok (s ++ slashed rest) ↔ Encoded ok s ∧ ∀ t ∈ rest, Encoded ok t := by
  induction rest generalizing s with
  | nil => simp
  | cons t rest ih =>
    rw [slashed_cons, List.forall_mem_cons, ← ih]
    constructor
    · exact Encoded.of_slash hhex
    · rintro ⟨hs, ht⟩
      exact hs.append (.char (by decide) ht)

end Encoded

/-! ## Decoding -/

theorem decodeTriplets_char {c : Char} (hc : c ≠ '%') (rest : List Char) :
    decodeTriplets (c :: rest) = c :: decodeTriplets rest := by
  rw [decodeTriplets]
  intro a b tail heq
  exact absurd heq hc

theorem decodeTriplets_triplet {a b : Char} {high low : Nat} (ha : hexDigit? a = some high)
    (hb : hexDigit? b = some low) (rest : List Char) :
    decodeTriplets ('%' :: a :: b :: rest)
      = normalizeDecode a b (high * 16 + low) ++ decodeTriplets rest := by
  rw [decodeTriplets, ha, hb]

theorem decodeTriplets_of_not_mem {u : List Char} (h : '%' ∉ u) : decodeTriplets u = u := by
  induction u with
  | nil => rfl
  | cons c rest ih =>
    rw [List.mem_cons, not_or] at h
    rw [decodeTriplets_char (Ne.symm h.1), ih h.2]

theorem decodeTriplets_append {s : List Char} (hs : Encoded Hex s) (t : List Char) :
    decodeTriplets (s ++ t) = decodeTriplets s ++ decodeTriplets t := by
  induction hs with
  | nil => rfl
  | char hc _ ih =>
    rw [List.cons_append, decodeTriplets_char hc, decodeTriplets_char hc, ih, List.cons_append]
  | triplet hok _ ih =>
    obtain ⟨high, low, ha, hb⟩ := hok.digits
    rw [List.cons_append, List.cons_append, List.cons_append,
      decodeTriplets_triplet ha.value hb.value, decodeTriplets_triplet ha.value hb.value, ih,
      List.append_assoc]

theorem normalizeDecode_cases {a b : Char} {high low : Nat} (ha : HexDigit a high)
    (hb : HexDigit b low) :
    (Reserved a.toUpper b.toUpper
        ∧ normalizeDecode a b (high * 16 + low) = ['%', a.toUpper, b.toUpper])
      ∨ Char.ofNat (high * 16 + low) ∉ reservedChars
        ∧ normalizeDecode a b (high * 16 + low) = [Char.ofNat (high * 16 + low)] := by
  unfold normalizeDecode
  by_cases h : Char.ofNat (high * 16 + low) ∈ reservedChars
  · rw [if_pos (List.contains_iff_mem.mpr h)]
    exact .inl ⟨⟨high, low, ha.upper_value, hb.upper_value, h, ha.upper_upper, hb.upper_upper⟩, rfl⟩
  · rw [if_neg fun hmem => h (List.contains_iff_mem.mp hmem)]
    exact .inr ⟨h, rfl⟩

theorem ne_percent_of_not_reserved {c : Char} (h : c ∉ reservedChars) : c ≠ '%' ∧ c ≠ '/' := by
  constructor <;> rintro rfl <;> exact h (by decide)

theorem encoded_decode {u : List Char} (h : Encoded Hex u) :
    Encoded Reserved (decodeTriplets u) := by
  induction h with
  | nil => exact .nil
  | char hc _ ih =>
    rw [decodeTriplets_char hc]
    exact .char hc ih
  | triplet hok _ ih =>
    obtain ⟨high, low, ha, hb⟩ := hok.digits
    rw [decodeTriplets_triplet ha.value hb.value]
    rcases normalizeDecode_cases ha hb with ⟨hreserved, heq⟩ | ⟨hother, heq⟩
    · rw [heq]
      exact .triplet hreserved ih
    · rw [heq]
      exact .char (ne_percent_of_not_reserved hother).1 ih

theorem decodeTriplets_of_reserved {u : List Char} (h : Encoded Reserved u) :
    decodeTriplets u = u := by
  induction h with
  | nil => rfl
  | char hc _ ih => rw [decodeTriplets_char hc, ih]
  | triplet hok _ ih =>
    obtain ⟨high, low, ha, hb, hmem, hupper, hupper'⟩ := hok
    rw [decodeTriplets_triplet ha hb, normalizeDecode, if_pos (List.contains_iff_mem.mpr hmem),
      hupper, hupper', ih]
    rfl

theorem not_mem_decode {s : List Char} (h : Encoded Hex s) (hs : '/' ∉ s) :
    '/' ∉ decodeTriplets s := by
  induction h with
  | nil => exact hs
  | char hc _ ih =>
    rw [List.mem_cons, not_or] at hs
    rw [decodeTriplets_char hc, List.mem_cons, not_or]
    exact ⟨hs.1, ih hs.2⟩
  | triplet hok _ ih =>
    obtain ⟨high, low, ha, hb⟩ := hok.digits
    simp only [List.mem_cons, not_or] at hs
    rw [decodeTriplets_triplet ha.value hb.value, List.mem_append, not_or]
    refine ⟨?_, ih hs.2.2.2⟩
    rcases normalizeDecode_cases ha hb with ⟨-, heq⟩ | ⟨hother, heq⟩
    · rw [heq]
      simp [ha.upper_ne_slash.symm, hb.upper_ne_slash.symm]
    · rw [heq]
      simpa using (ne_percent_of_not_reserved hother).2.symm

theorem split_decode {u : List Char} (h : Encoded Hex u) :
    split '/' (decodeTriplets u) = (split '/' u).map decodeTriplets := by
  obtain ⟨s, rest, hsplit, rfl⟩ := split_join u
  have hmem : ∀ t ∈ s :: rest, '/' ∉ t := fun t ht => not_mem_split (by rw [hsplit]; exact ht)
  rw [encoded_slashed_iff fun _ _ hok => hok] at h
  have hdecode : decodeTriplets (s ++ slashed rest)
      = decodeTriplets s ++ slashed (rest.map decodeTriplets) := by
    clear hsplit hmem
    induction rest generalizing s with
    | nil => simp
    | cons t rest ih =>
      have ht := List.forall_mem_cons.mp h.2
      rw [slashed_cons, decodeTriplets_append h.1, decodeTriplets_char (by decide), ih t ht]
      rfl
  rw [hsplit, hdecode, List.map_cons]
  refine split_slashed (not_mem_decode h.1 (hmem s List.mem_cons_self)) ?_
  intro t ht
  obtain ⟨t', ht', rfl⟩ := List.mem_map.mp ht
  exact not_mem_decode (h.2 t' ht') (hmem t' (List.mem_cons_of_mem s ht'))

/-! ## The triplets of a text -/

/-- The digits of the triplets, in order. -/
def triplets : List Char → List (Char × Char)
  | '%' :: a :: b :: rest => (a, b) :: triplets rest
  | _ :: rest => triplets rest
  | [] => []

/-- The digits of the reserved triplets, in order and in upper case. -/
def reservedTriplets (u : List Char) : List (Char × Char) :=
  ((triplets u).filter fun (a, b) =>
      reservedChars.contains (Char.ofNat ((hexDigit? a).getD 0 * 16 + (hexDigit? b).getD 0))).map
    fun (a, b) => (a.toUpper, b.toUpper)

theorem triplets_char {c : Char} (hc : c ≠ '%') (rest : List Char) :
    triplets (c :: rest) = triplets rest := by
  rw [triplets]
  intro a b tail heq
  exact absurd heq hc

theorem triplets_append {ok : Char → Char → Prop} {s : List Char} (hs : Encoded ok s)
    (t : List Char) : triplets (s ++ t) = triplets s ++ triplets t := by
  induction hs with
  | nil => rfl
  | char hc _ ih => rw [List.cons_append, triplets_char hc, triplets_char hc, ih]
  | triplet _ _ ih =>
    rw [List.cons_append, List.cons_append, List.cons_append, triplets, triplets, ih,
      List.cons_append]

theorem triplets_slashed {ok : Char → Char → Prop} {s : Segment} {rest : List Segment}
    (hs : Encoded ok s) (hrest : ∀ t ∈ rest, Encoded ok t) :
    triplets (s ++ slashed rest) = triplets s ++ rest.flatMap triplets := by
  rw [triplets_append hs]
  congr 1
  induction rest with
  | nil => rfl
  | cons t rest ih =>
    rw [List.forall_mem_cons] at hrest
    rw [slashed_cons, triplets_char (by decide), triplets_append hrest.1, ih hrest.2,
      List.flatMap_cons]

/-- Decoding keeps the reserved triplets, in upper case, and no other. -/
theorem triplets_decode {u : List Char} (h : Encoded Hex u) :
    triplets (decodeTriplets u) = reservedTriplets u := by
  unfold reservedTriplets
  induction h with
  | nil => rfl
  | char hc _ ih => rw [decodeTriplets_char hc, triplets_char hc, triplets_char hc, ih]
  | @triplet a b rest hok _ ih =>
    obtain ⟨high, low, ha, hb⟩ := hok.digits
    rw [decodeTriplets_triplet ha.value hb.value, triplets, List.filter_cons]
    simp only [ha.value, hb.value, Option.getD_some]
    unfold normalizeDecode
    split_ifs with hmem
    · rw [List.map_cons, ← ih]
      rfl
    · have hother : Char.ofNat (high * 16 + low) ∉ reservedChars :=
        fun hin => hmem (List.contains_iff_mem.mpr hin)
      rw [← ih]
      exact triplets_char (ne_percent_of_not_reserved hother).1 _

end KongGateway.Kong.Tools

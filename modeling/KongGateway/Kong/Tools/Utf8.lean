import KongGateway.Lib.ByteRows
import KongGateway.Kong.Tools.Http

/-!
# Utf8 — `validate_utf8`

The loop of `validate_utf8` goes from sequence to sequence by nine
patterns. They are the rows of table 3-7 of the Unicode standard but for
one: the second byte of a sequence of two may be any from 123, not from
128. A string is judged as the table says unless such a pair stands where
its first ill-formed sequence starts.
-/

namespace KongGateway.Kong.Tools.Utf8

open Bytes ByteRows

/-- The patterns in the order in which they are tried. -/
def patterns : List Row :=
  [[(0, 127)],
    [(194, 223), (123, 191)],
    [(224, 224), (160, 191), (128, 191)],
    [(225, 236), (128, 191), (128, 191)],
    [(237, 237), (128, 159), (128, 191)],
    [(238, 239), (128, 191), (128, 191)],
    [(240, 240), (144, 191), (128, 191), (128, 191)],
    [(241, 243), (128, 191), (128, 191), (128, 191)],
    [(244, 244), (128, 143), (128, 191), (128, 191)]]

/-- What the branch of the first pattern that `find` has at `i` adds to `i`. -/
def step (s : Text) : Option Nat := (patterns.find? (fits · s)).map List.length

theorem step_pos {s : Text} {w : Nat} (h : step s = some w) : 0 < w := by
  obtain ⟨row, hrow, rfl⟩ := Option.map_eq_some_iff.mp h
  have hne : ∀ row ∈ patterns, 0 < row.length := by decide
  exact hne row (List.mem_of_find?_eq_some hrow)

/-- The loop from `i`, where `s` is what the string has from there; an error is
`false` and the position. -/
def validateFrom (i : Nat) (s : Text) : Except Nat Unit :=
  if _hs : s = [] then .ok ()
  else
    match _hw : step s with
    | none => .error i
    | some w => validateFrom (i + w) (s.drop w)
termination_by s.length
decreasing_by
  have hpos := step_pos _hw
  have hlength := List.length_pos_iff.mpr _hs
  rw [List.length_drop]
  omega

/-- `validate_utf8` -/
def validateUtf8 (s : Text) : Except Nat Unit := validateFrom 1 s

/-! ## Table 3-7 -/

/-- Well-formed UTF-8 byte sequences. -/
def table37 : Table where
  rows :=
    [[(0x00, 0x7F)],
      [(0xC2, 0xDF), (0x80, 0xBF)],
      [(0xE0, 0xE0), (0xA0, 0xBF), (0x80, 0xBF)],
      [(0xE1, 0xEC), (0x80, 0xBF), (0x80, 0xBF)],
      [(0xED, 0xED), (0x80, 0x9F), (0x80, 0xBF)],
      [(0xEE, 0xEF), (0x80, 0xBF), (0x80, 0xBF)],
      [(0xF0, 0xF0), (0x90, 0xBF), (0x80, 0xBF), (0x80, 0xBF)],
      [(0xF1, 0xF3), (0x80, 0xBF), (0x80, 0xBF), (0x80, 0xBF)],
      [(0xF4, 0xF4), (0x80, 0x8F), (0x80, 0xBF), (0x80, 0xBF)]]
  ne_nil := by decide
  ascending := by decide

/-- The position of the first byte that does not start a well-formed sequence. -/
def FirstBad (s : Text) (i : Nat) : Prop :=
  ∃ p rest, s = p ++ rest ∧ table37.WellFormed p ∧ rest ≠ [] ∧ ¬ table37.StartsAt rest
    ∧ i = p.length + 1

/-- The string is judged as the table says. -/
def Exact (s : Text) : Prop :=
  (validateUtf8 s = .ok () ↔ table37.WellFormed s)
    ∧ (¬ table37.WellFormed s → ∃ i, validateUtf8 s = .error i ∧ FirstBad s i)

/-- A first byte of two with a byte from 123 to 127 behind it. -/
def OddPair (s : Text) : Prop :=
  ∃ a b rest, s = a :: b :: rest ∧ 194 ≤ a.val ∧ a.val ≤ 223 ∧ 123 ≤ b.val ∧ b.val ≤ 127

/-- An odd pair stands behind well-formed sequences. -/
def Misread (s : Text) : Prop :=
  ∃ p rest, s = p ++ rest ∧ table37.WellFormed p ∧ OddPair rest

/-! ## Steps of the loop -/

/-- The row that the source has another bound in, and the one of the table. -/
def pair : Row := [(194, 223), (123, 191)]

def pair37 : Row := [(194, 223), (128, 191)]

theorem fits_pair_iff {s : Text} :
    fits pair s = true ↔ fits pair37 s = true ∨ OddPair s := by
  constructor
  · intro h
    rcases s with _ | ⟨a, _ | ⟨b, rest⟩⟩
    · simp [pair, fits] at h
    · simp [pair, fits] at h
    · simp only [pair, fits, Bool.and_true, Bool.and_eq_true, decide_eq_true_eq] at h
      by_cases hb : b.val ≤ 127
      · exact Or.inr ⟨a, b, rest, rfl, h.1.1, h.1.2, h.2.1, hb⟩
      · left
        simp only [pair37, fits, Bool.and_true, Bool.and_eq_true, decide_eq_true_eq]
        omega
  · rintro (h | ⟨a, b, rest, rfl, ha, ha', hb, hb'⟩)
    · rcases s with _ | ⟨a, _ | ⟨b, rest⟩⟩
      · simp [pair37, fits] at h
      · simp [pair37, fits] at h
      · simp only [pair, pair37, fits, Bool.and_true, Bool.and_eq_true, decide_eq_true_eq] at h ⊢
        omega
    · simp only [pair, fits, Bool.and_true, Bool.and_eq_true, decide_eq_true_eq]
      omega

theorem OddPair.not_startsAt {s : Text} (h : OddPair s) : ¬ table37.StartsAt s := by
  obtain ⟨a, b, rest, rfl, ha, ha', hb, hb'⟩ := h
  rintro ⟨c, rest', ⟨row, hrow, hlength, hfits⟩, heq⟩
  have hstart : fits row (a :: b :: rest) = true :=
    fits_iff.mpr ⟨c, rest', heq, hlength, hfits⟩
  simp only [table37, List.mem_cons, List.not_mem_nil, or_false] at hrow
  rcases hrow with rfl | rfl | rfl | rfl | rfl | rfl | rfl | rfl | rfl <;>
    · simp only [fits, Bool.and_eq_true, decide_eq_true_eq] at hstart
      omega

theorem step_eq {s : Text} (h : ¬ OddPair s) : step s = table37.width s := by
  have hpair : fits pair s = fits pair37 s := by
    rw [Bool.eq_iff_iff, fits_pair_iff, or_iff_left h]
  have hpatterns : patterns = [(0, 127)] :: pair :: patterns.drop 2 := rfl
  have htable : table37.rows = [(0, 127)] :: pair37 :: patterns.drop 2 := rfl
  rw [step, Table.width, hpatterns, htable, List.find?_cons, List.find?_cons, List.find?_cons,
    List.find?_cons, hpair]
  cases fits [(0, 127)] s with
  | true => rfl
  | false =>
    cases fits pair37 s with
    | true => rfl
    | false => rfl

theorem OddPair.step {s : Text} (h : OddPair s) : step s = some 2 := by
  have hpair := fits_pair_iff.mpr (Or.inr h)
  have hpatterns : patterns = [(0, 127)] :: pair :: patterns.drop 2 := rfl
  have hfirst : fits [(0, 127)] s = false := by
    obtain ⟨a, b, rest, rfl, ha, -⟩ := h
    have hout : ¬ a.val ≤ 127 := by omega
    simp only [fits, hout, decide_false, Bool.and_false, Bool.false_and]
  rw [Utf8.step, hpatterns, List.find?_cons, List.find?_cons, hfirst, hpair]
  rfl

theorem validateFrom_of_step {i w : Nat} {s : Text} (h : step s = some w) (hs : s ≠ []) :
    validateFrom i s = validateFrom (i + w) (s.drop w) := by
  rw [validateFrom, dif_neg hs]
  split
  · rename_i hnone
    rw [h] at hnone
    cases hnone
  · rename_i w' hw
    rw [h] at hw
    cases hw
    rfl

theorem validateFrom_of_none {i : Nat} {s : Text} (h : step s = none) (hs : s ≠ []) :
    validateFrom i s = .error i := by
  rw [validateFrom, dif_neg hs]
  split
  · rfl
  · rename_i w hw
    rw [h] at hw
    cases hw

theorem le_of_validateFrom {i j : Nat} {s : Text} (h : validateFrom i s = .error j) : i ≤ j := by
  fun_induction validateFrom i s with
  | case1 => cases h
  | case2 i s hs hnone =>
    cases h
    exact le_rfl
  | case3 i s hs w hw ih =>
    have hle := ih h
    omega

theorem validateFrom_append {p rest : Text} (hp : table37.WellFormed p) (i : Nat) :
    validateFrom i (p ++ rest) = validateFrom (i + p.length) rest := by
  induction hp generalizing i with
  | nil => rfl
  | @cons c s hc hs ih =>
    have hstart : table37.StartsAt (c ++ (s ++ rest)) := ⟨c, s ++ rest, hc, rfl⟩
    have hwidth := Table.width_eq_some_iff.mpr ⟨c, s ++ rest, hc, rfl, rfl⟩
    have hstep : step (c ++ (s ++ rest)) = some c.length :=
      (step_eq fun hodd => hodd.not_startsAt hstart).trans hwidth
    rw [List.append_assoc, validateFrom_of_step hstep (by simp [hc.ne_nil]), List.drop_left, ih,
      List.length_append, Nat.add_assoc]

/-! ## Where the judgement is the table's -/

theorem misread_iff {p rest : Text} (hp : table37.WellFormed p)
    (hrest : ¬ table37.StartsAt rest) : Misread (p ++ rest) ↔ OddPair rest := by
  constructor
  · rintro ⟨p', rest', heq, hp', hodd⟩
    rwa [(Table.cut_unique hp hp' hrest hodd.not_startsAt heq).2]
  · exact fun hodd => ⟨p, rest, rfl, hp, hodd⟩

theorem firstBad_iff {p rest : Text} (hp : table37.WellFormed p)
    (hrest : ¬ table37.StartsAt rest) {i : Nat} :
    FirstBad (p ++ rest) i ↔ rest ≠ [] ∧ i = p.length + 1 := by
  constructor
  · rintro ⟨p', rest', heq, hp', hne, hnone, hi⟩
    obtain ⟨rfl, rfl⟩ := Table.cut_unique hp hp' hrest hnone heq
    exact ⟨hne, hi⟩
  · rintro ⟨hne, hi⟩
    exact ⟨p, rest, rfl, hp, hne, hrest, hi⟩

/-- `validate_utf8` judges as the table does, but for odd pairs. -/
theorem validateUtf8_exact_iff (s : Text) : Exact s ↔ ¬ Misread s := by
  obtain ⟨p, rest, rfl, hp, hrest⟩ := @Table.exists_cut table37 s
  have hrun : validateUtf8 (p ++ rest) = validateFrom (1 + p.length) rest :=
    validateFrom_append hp 1
  rw [misread_iff hp hrest]
  unfold Exact
  simp only [hrun, Table.wellFormed_append_iff hp hrest, firstBad_iff hp hrest]
  by_cases hodd : OddPair rest
  · have hne : rest ≠ [] := by
      rintro rfl
      obtain ⟨a, b, tail, heq, -⟩ := hodd
      cases heq
    refine iff_of_false ?_ (not_not_intro hodd)
    rintro ⟨-, hposition⟩
    obtain ⟨i, herror, -, hi⟩ := hposition hne
    rw [validateFrom_of_step hodd.step hne] at herror
    have hle := le_of_validateFrom herror
    omega
  · refine iff_of_true ?_ hodd
    by_cases hne : rest = []
    · subst hne
      have hok : validateFrom (1 + p.length) [] = .ok () := by
        rw [validateFrom, dif_pos rfl]
      exact ⟨iff_of_true hok rfl, fun h => absurd rfl h⟩
    · have hnone := (step_eq hodd).trans (Table.width_eq_none_iff.mpr hrest)
      rw [validateFrom_of_none hnone hne]
      refine ⟨iff_of_false (fun h => by cases h) hne, fun _ => ⟨_, rfl, hne, Nat.add_comm _ _⟩⟩

/-- The bytes C2 7B are taken for a sequence of two. -/
theorem oddPair_not_exact : ¬ Exact ([194, 123] : Text) := by
  have hodd : OddPair ([194, 123] : Text) := ⟨194, 123, [], rfl, by decide⟩
  have hok : validateUtf8 [194, 123] = .ok () := by
    rw [validateUtf8, validateFrom_of_step hodd.step (List.cons_ne_nil _ _), validateFrom]
    rfl
  rintro ⟨hiff, -⟩
  have hnil := (Table.wellFormed_append_iff .nil hodd.not_startsAt).mp (hiff.mp hok)
  cases hnil

end KongGateway.Kong.Tools.Utf8

import KongGateway.Lib.LuaStd
import KongGateway.Lib.Segments
import Mathlib.Data.List.TakeWhile

/-!
# Uri — `kong.tools.uri.normalize`

The percent-encoding is undone for all characters but the reserved ones,
dot segments are taken out, and double slashes are merged. The loop of
the source is `removeDots`; its output table is a list with the newest
segment first. What comes out of a path that starts with a slash starts
with a slash and has no dot segment (`normalize_clean`).
-/

namespace KongGateway.Kong.Tools

open LuaStd Segments

/-! ## Decoding -/

def reservedChars : List Char := "!*'();:@&=+$,/?%#[]".toList

/-- The value of a hexadecimal digit in either case. -/
def hexDigit? (c : Char) : Option Nat :=
  if '0' ≤ c ∧ c ≤ '9' then some (c.toNat - '0'.toNat)
  else if 'a' ≤ c ∧ c ≤ 'f' then some (c.toNat - 'a'.toNat + 10)
  else if 'A' ≤ c ∧ c ≤ 'F' then some (c.toNat - 'A'.toNat + 10)
  else none

/-- `normalize_decode` on a triplet. -/
def normalizeDecode (a b : Char) (num : Nat) : List Char :=
  if reservedChars.contains (Char.ofNat num) then ['%', a.toUpper, b.toUpper]
  else [Char.ofNat num]

/-- The substitution of all triplets. -/
def decodeTriplets : List Char → List Char
  | '%' :: a :: b :: rest =>
    match hexDigit? a, hexDigit? b with
    | some high, some low => normalizeDecode a b (high * 16 + low) ++ decodeTriplets rest
    | _, _ => '%' :: decodeTriplets (a :: b :: rest)
  | c :: rest => c :: decodeTriplets rest
  | [] => []

/-! ## Dot segments -/

/-- The loop of `normalize`; every round shortens the text. -/
def removeDots (mergeSlashes : Bool) : Nat → List Char → List (List Char) → List (List Char)
  | 0, _, output => output
  | _ + 1, [], output => output
  | fuel + 1, uri@(first :: rest), output =>
    if uri = ['/', '.'] then removeDots mergeSlashes fuel ['/'] output
    else if uri = ['/', '.', '.'] then removeDots mergeSlashes fuel ['/'] output.tail
    else if uri = ['.'] ∨ uri = ['.', '.'] then removeDots mergeSlashes fuel [] output
    else if ['.', '.', '/'] <+: uri then removeDots mergeSlashes fuel (uri.drop 3) output
    else if ['.', '/'] <+: uri then removeDots mergeSlashes fuel (uri.drop 2) output
    else if ['/', '.', '/'] <+: uri then removeDots mergeSlashes fuel (uri.drop 2) output
    else if ['/', '.', '.', '/'] <+: uri then
      removeDots mergeSlashes fuel (uri.drop 3) output.tail
    else if mergeSlashes = true ∧ ['/', '/'] <+: uri then
      removeDots mergeSlashes fuel rest output
    else
      removeDots mergeSlashes fuel (rest.dropWhile (· ≠ '/'))
        ((first :: rest.takeWhile (· ≠ '/')) :: output)

/-- `normalize`. -/
def normalize (uri : List Char) (mergeSlashes : Bool) : List Char :=
  if uri = [] ∨ uri = ['/'] then uri
  else
    let uri := if uri.contains '%' then decodeTriplets uri else uri
    if !uri.contains '.' && (!mergeSlashes || (splitAtText ['/', '/'] uri).isNone) then uri
    else (removeDots mergeSlashes uri.length uri []).reverse.flatten

/-! ## Paths without dot segments -/

/-- The segments `.` and `..`. -/
def Dot (s : List Char) : Prop := s = ['.'] ∨ s = ['.', '.']

instance : DecidablePred Dot := fun s => inferInstanceAs (Decidable (s = ['.'] ∨ s = ['.', '.']))

/-- No segment is a dot segment. -/
def Clean (path : List Char) : Prop := Free '/' Dot path

theorem not_dot_nil : ¬ Dot [] := by simp [Dot]

theorem Dot.not_mem {s : List Char} (h : Dot s) : '/' ∉ s := by
  rcases h with rfl | rfl <;> decide

theorem Dot.mem_dot {s : List Char} (h : Dot s) : '.' ∈ s := by
  rcases h with rfl | rfl <;> decide

@[simp] theorem clean_cons_slash {path : List Char} : Clean ('/' :: path) ↔ Clean path :=
  free_cons_sep not_dot_nil

theorem clean_append_slash {path path' : List Char} :
    Clean (path ++ '/' :: path') ↔ Clean path ∧ Clean path' := free_append_sep

theorem clean_of_not_mem {s : List Char} (h : '/' ∉ s) : Clean s ↔ ¬ Dot s := free_of_not_mem h

@[simp] theorem clean_nil : Clean [] := (clean_of_not_mem List.not_mem_nil).mpr not_dot_nil

theorem Clean.first {path : List Char} (h : Clean path) {first others : List Char}
    (hpath : path = first ++ '/' :: others) (hfirst : '/' ∉ first) : ¬ Dot first := by
  rw [hpath, clean_append_slash, clean_of_not_mem hfirst] at h
  exact h.1

theorem clean_of_no_dot {path : List Char} (h : '.' ∉ path) : Clean path :=
  fun _ hs hdot => h (mem_of_mem_split hs hdot.mem_dot)

/-- A segment as the loop stores it: a slash and a text that is no dot
segment. -/
def Stored (segment : List Char) : Prop := ∃ s, segment = '/' :: s ∧ '/' ∉ s ∧ ¬ Dot s

theorem clean_flatten {segments : List (List Char)} (h : ∀ s ∈ segments, Stored s) :
    Clean segments.flatten := by
  induction segments with
  | nil => exact clean_nil
  | cons segment rest ih =>
    obtain ⟨s, rfl, hslash, hdot⟩ := h segment List.mem_cons_self
    have hrest := ih fun t ht => h t (List.mem_cons_of_mem _ ht)
    have hs := (clean_of_not_mem hslash).mpr hdot
    rw [List.flatten_cons, List.cons_append, clean_cons_slash]
    cases rest with
    | nil => simpa using hs
    | cons next others =>
      obtain ⟨t, rfl, -, -⟩ := h next (by simp)
      rw [List.flatten_cons, List.cons_append, clean_cons_slash] at hrest
      rw [List.flatten_cons, List.cons_append]
      exact clean_append_slash.mpr ⟨hs, hrest⟩

/-! ## What `normalize` returns -/

/-- A text that starts with a slash, or nothing. -/
def Rooted (uri : List Char) : Prop := uri = [] ∨ ∃ rest, uri = '/' :: rest

theorem dropWhile_rooted (rest : List Char) : Rooted (rest.dropWhile (· ≠ '/')) := by
  induction rest with
  | nil => exact .inl rfl
  | cons c rest ih =>
    rw [List.dropWhile_cons]
    split
    · exact ih
    · rename_i hc
      simp only [ne_eq, decide_not, Bool.not_eq_true', Bool.not_eq_false, decide_eq_true_eq] at hc
      exact .inr ⟨rest, by rw [hc]⟩

theorem stored_takeWhile {rest : List Char} (h₁ : '/' :: rest ≠ ['/', '.'])
    (h₂ : '/' :: rest ≠ ['/', '.', '.']) (h₃ : ¬ ['/', '.', '/'] <+: '/' :: rest)
    (h₄ : ¬ ['/', '.', '.', '/'] <+: '/' :: rest) :
    Stored ('/' :: rest.takeWhile (· ≠ '/')) := by
  refine ⟨_, rfl, ?_, ?_⟩
  · intro hmem
    simpa using List.mem_takeWhile_imp hmem
  · have happend := List.takeWhile_append_dropWhile (p := (· ≠ '/')) (l := rest)
    intro hdot
    rcases dropWhile_rooted rest with hnil | ⟨tail, htail⟩
    · rw [hnil, List.append_nil] at happend
      rw [happend] at hdot
      rcases hdot with rfl | rfl
      · exact h₁ rfl
      · exact h₂ rfl
    · rw [htail] at happend
      rcases hdot with hone | htwo
      · rw [hone] at happend
        exact h₃ ⟨tail, by rw [← happend]; rfl⟩
      · rw [htwo] at happend
        exact h₄ ⟨tail, by rw [← happend]; rfl⟩

theorem removeDots_stored (mergeSlashes : Bool) {fuel : Nat} {uri : List Char}
    {output : List (List Char)} (hfuel : uri.length ≤ fuel) (huri : Rooted uri)
    (houtput : ∀ s ∈ output, Stored s) :
    (∀ s ∈ removeDots mergeSlashes fuel uri output, Stored s)
      ∧ (uri ≠ [] ∨ output ≠ [] → removeDots mergeSlashes fuel uri output ≠ []) := by
  induction fuel generalizing uri output with
  | zero =>
    have hnil : uri = [] := List.eq_nil_of_length_eq_zero (by omega)
    exact ⟨houtput, fun h => h.resolve_left (by simp [hnil])⟩
  | succ fuel ih =>
    have htail : ∀ s ∈ output.tail, Stored s := fun s hs => houtput s (List.mem_of_mem_tail hs)
    rcases huri with rfl | ⟨rest, rfl⟩
    · exact ⟨houtput, fun h => h.resolve_left (by simp)⟩
    · have hlen : rest.length ≤ fuel := by
        rw [List.length_cons] at hfuel
        omega
      -- the text goes on with a slash in every round
      have hgoes : ∀ uri' output', (∃ r, uri' = '/' :: r) → uri'.length ≤ fuel →
          (∀ s ∈ output', Stored s) →
          (∀ s ∈ removeDots mergeSlashes fuel uri' output', Stored s)
            ∧ removeDots mergeSlashes fuel uri' output' ≠ [] := by
        rintro uri' output' ⟨r, rfl⟩ hlen' houtput'
        obtain ⟨hall, hne⟩ := ih hlen' (.inr ⟨r, rfl⟩) houtput'
        exact ⟨hall, hne (.inl (by simp))⟩
      -- none of the relative forms begins with a slash
      have h₃ : ¬ ('/' :: rest = ['.'] ∨ '/' :: rest = ['.', '.']) := by simp
      have h₄ : ¬ ['.', '.', '/'] <+: '/' :: rest := by simp
      have h₅ : ¬ ['.', '/'] <+: '/' :: rest := by simp
      rw [removeDots]
      by_cases h₁ : '/' :: rest = ['/', '.']
      · rw [if_pos h₁]
        cases h₁
        obtain ⟨hall, hne⟩ := hgoes ['/'] output ⟨[], rfl⟩ hlen houtput
        exact ⟨hall, fun _ => hne⟩
      by_cases h₂ : '/' :: rest = ['/', '.', '.']
      · rw [if_neg h₁, if_pos h₂]
        cases h₂
        obtain ⟨hall, hne⟩ := hgoes ['/'] output.tail ⟨[], rfl⟩ (Nat.le_of_succ_le hlen) htail
        exact ⟨hall, fun _ => hne⟩
      rw [if_neg h₁, if_neg h₂, if_neg h₃, if_neg h₄, if_neg h₅]
      by_cases h₆ : ['/', '.', '/'] <+: '/' :: rest
      · rw [if_pos h₆]
        obtain ⟨tail, htl⟩ := h₆
        obtain ⟨hall, hne⟩ := hgoes (List.drop 2 ('/' :: rest)) output
          ⟨tail, by rw [← htl]; rfl⟩ (by rw [List.length_drop, List.length_cons]; omega) houtput
        exact ⟨hall, fun _ => hne⟩
      by_cases h₇ : ['/', '.', '.', '/'] <+: '/' :: rest
      · rw [if_neg h₆, if_pos h₇]
        obtain ⟨tail, htl⟩ := h₇
        obtain ⟨hall, hne⟩ := hgoes (List.drop 3 ('/' :: rest)) output.tail
          ⟨tail, by rw [← htl]; rfl⟩ (by rw [List.length_drop, List.length_cons]; omega) htail
        exact ⟨hall, fun _ => hne⟩
      rw [if_neg h₆, if_neg h₇]
      by_cases h₈ : mergeSlashes = true ∧ ['/', '/'] <+: '/' :: rest
      · rw [if_pos h₈]
        obtain ⟨tail, htl⟩ := h₈.2
        obtain ⟨hall, hne⟩ := hgoes rest output
          ⟨tail, by simpa using htl.symm⟩ hlen houtput
        exact ⟨hall, fun _ => hne⟩
      · rw [if_neg h₈]
        have hstored : ∀ s ∈ ('/' :: rest.takeWhile (· ≠ '/')) :: output, Stored s := by
          intro s hs
          rcases List.mem_cons.mp hs with rfl | hs
          · exact stored_takeWhile h₁ h₂ h₆ h₇
          · exact houtput s hs
        have hshort : (rest.dropWhile (· ≠ '/')).length ≤ fuel :=
          Nat.le_trans (List.length_dropWhile_le _ _) hlen
        obtain ⟨hall, hne⟩ := ih hshort (dropWhile_rooted rest) hstored
        exact ⟨hall, fun _ => hne (.inr (by simp))⟩

/-- A path that starts with a slash is normalized to one that starts
with a slash and has no dot segment. -/
theorem normalize_clean (rest : List Char) (mergeSlashes : Bool) :
    ∃ rest', normalize ('/' :: rest) mergeSlashes = '/' :: rest' ∧ Clean rest' := by
  rw [normalize]
  by_cases hsimple : '/' :: rest = [] ∨ '/' :: rest = ['/']
  · rw [if_pos hsimple]
    rcases hsimple with hnil | hroot
    · cases hnil
    · exact ⟨[], hroot, clean_nil⟩
  · rw [if_neg hsimple]
    obtain ⟨decoded, hdecoded⟩ : ∃ decoded, (if ('/' :: rest).contains '%' = true
        then decodeTriplets ('/' :: rest) else '/' :: rest) = '/' :: decoded := by
      split
      · exact ⟨decodeTriplets rest, rfl⟩
      · exact ⟨rest, rfl⟩
    rw [hdecoded]
    dsimp only
    split_ifs with hplain
    · refine ⟨decoded, rfl, clean_of_no_dot fun hmem => ?_⟩
      simp [hmem] at hplain
    · obtain ⟨hall, hne⟩ := removeDots_stored mergeSlashes (Nat.le_refl _)
        (.inr ⟨decoded, rfl⟩) (fun s hs => absurd hs List.not_mem_nil)
      have hstored : ∀ s ∈ (removeDots mergeSlashes ('/' :: decoded).length ('/' :: decoded)
          []).reverse, Stored s := fun s hs => hall s (List.mem_reverse.mp hs)
      have hclean := clean_flatten hstored
      cases hsegs : (removeDots mergeSlashes ('/' :: decoded).length ('/' :: decoded)
          []).reverse with
      | nil =>
        rw [List.reverse_eq_nil_iff] at hsegs
        exact absurd hsegs (hne (.inl (by simp)))
      | cons segment others =>
        rw [hsegs] at hstored hclean
        obtain ⟨s, rfl, -, -⟩ := hstored segment List.mem_cons_self
        rw [List.flatten_cons, List.cons_append] at hclean ⊢
        exact ⟨_, rfl, clean_cons_slash.mp hclean⟩

end KongGateway.Kong.Tools

import KongGateway.Lib.LuaPattern
import KongGateway.Lib.Numerals
import KongGateway.Lib.Segments

/-!
# Version — the order of version numbers

A data plane sends its version as a text. `extract_major_minor` accepts
what starts with three numbers, whatever follows; `string_to_number` cuts
a text at its first three dots and weights the leading digits of each
component by a thousand to the power of its place. A component without
leading digits counts as zero. While no leading number reaches a
thousand, the weights do not overlap.
-/

namespace KongGateway.Kong.Clustering.Compat

open Bytes LuaPattern Numerals

/-- `.` -/
def dot : Byte := 46

/-- `MAJOR_MINOR_PATTERN`. -/
def majorMinorPattern : List (Item Byte) :=
  [(Item.plus isDigit).capture, .lit dot, (Item.plus isDigit).capture, .lit dot, .plus isDigit]

def extractMajorMinor (version : List Byte) : Option (Nat × Nat) :=
  match matchStart majorMinorPattern version with
  | some [major, minor] => some (decimalNumber major, decimalNumber minor)
  | _ => none

/-- `splitn` with a delimiter of one byte. -/
def splitn (delim : Byte) : Nat → List Byte → List (List Byte)
  | 0, _ => []
  | 1, value => [value]
  | n + 2, value =>
    match value.dropWhile (· ≠ delim) with
    | [] => [value]
    | _ :: after => value.takeWhile (· ≠ delim) :: splitn delim (n + 1) after

/-- `v:match("^(%d+)")` -/
def leadingDigits (v : List Byte) : Option (List Byte) :=
  (matchStart [(Item.plus isDigit).capture] v).bind List.head?

/-- `tonumber(v, 10)`. With base 10 a value that is no numeral gives
nil, and so does nil. -/
def tonumber (v : Option (List Byte)) : Option Nat :=
  v.bind fun s => if s ≠ [] ∧ ∀ c ∈ s, isDigit c then some (decimalNumber s) else none

/-- `num + base * n`; arithmetic on nil raises. -/
def addWeighted (num base : Nat) : Option Nat → Except String Nat
  | some n => .ok (num + base * n)
  | none => .error "attempt to perform arithmetic on a nil value"

/-- One round of the loop of `string_to_number`, on the base and the
number. -/
def stringToNumberStep (s : Nat × Nat) (v : List Byte) : Except String (Nat × Nat) :=
  (addWeighted s.2 s.1 ((tonumber (leadingDigits v)).or (some 0))).map fun num => (s.1 / 1000, num)

def stringToNumber (s : List Byte) : Except String Nat :=
  ((splitn dot 4 s).foldlM stringToNumberStep (1000000000, 0)).map Prod.snd

/-! ## Components -/

/-- The number that a component starts with, or zero. -/
def leadingNumber (component : List Byte) : Nat :=
  decimalNumber (component.takeWhile isDigit)

/-- The leading numbers of the components. -/
def leadingNumbers (version : List Byte) : List Nat :=
  (Segments.split dot version).map leadingNumber

/-- Zeros for the components that are missing. -/
def padded (numbers : List Nat) : List Nat := numbers ++ List.replicate (4 - numbers.length) 0

theorem split_cut {value after : List Byte} {c : Byte} (h : value.dropWhile (· ≠ dot) = c :: after) :
    Segments.split dot value = value.takeWhile (· ≠ dot) :: Segments.split dot after := by
  have hc : c = dot := by
    have hhead := List.head?_dropWhile_not (fun b : Byte => decide (b ≠ dot)) value
    rw [h] at hhead
    simpa using hhead
  have hno : dot ∉ value.takeWhile (· ≠ dot) := by
    intro hmem
    have hne := List.mem_takeWhile_imp hmem
    simp at hne
  conv_lhs => rw [← List.takeWhile_append_dropWhile (p := (· ≠ dot)) (l := value), h, hc]
  rw [Segments.split_append_sep, Segments.split_of_not_mem hno]
  rfl

theorem split_whole {value : List Byte} (h : value.dropWhile (· ≠ dot) = []) :
    Segments.split dot value = [value] := by
  apply Segments.split_of_not_mem
  intro hmem
  have hall := List.dropWhile_eq_nil_iff.mp h dot hmem
  simp at hall

theorem splitn_eq_split {n : Nat} {value : List Byte}
    (hlen : (Segments.split dot value).length ≤ n + 1) :
    splitn dot (n + 1) value = Segments.split dot value := by
  induction n generalizing value with
  | zero =>
    cases hdrop : value.dropWhile (· ≠ dot) with
    | nil => rw [split_whole hdrop, splitn]
    | cons c after =>
      rw [split_cut hdrop, List.length_cons] at hlen
      have hpos := List.length_pos_of_ne_nil (@Segments.split_ne_nil _ _ dot after)
      omega
  | succ n ih =>
    rw [splitn]
    split
    · rename_i hdrop
      rw [split_whole hdrop]
    · rename_i c after hdrop
      rw [split_cut hdrop, List.length_cons] at hlen
      rw [split_cut hdrop, ih (by omega)]

/-! ## The number of a version -/

theorem leadingDigits_eq (v : List Byte) :
    leadingDigits v = if v.takeWhile isDigit = [] then none else some (v.takeWhile isDigit) := by
  have hends : ∀ c ∈ (v.dropWhile isDigit).head?, isDigit c = false := by
    intro c hc
    have hnot := List.head?_dropWhile_not isDigit v
    rw [Option.mem_def.mp hc] at hnot
    simpa using hnot
  rw [leadingDigits]
  split
  · rename_i hnone
    simp [matchStart, matchThen, Item.counts, Item.most, Item.plus, Item.capture, hnone]
  · rename_i hne
    have hmatch : matchStart [(Item.plus isDigit).capture]
        (v.takeWhile isDigit ++ v.dropWhile isDigit) = some [v.takeWhile isDigit] :=
      matchThen_plus hne (fun c hc => List.mem_takeWhile_imp hc) hends rfl
    rw [List.takeWhile_append_dropWhile] at hmatch
    rw [hmatch]
    rfl

/-- `tonumber(v, 10) or 0` of the leading digits. -/
theorem tonumber_leadingDigits (v : List Byte) :
    (tonumber (leadingDigits v)).or (some 0) = some (leadingNumber v) := by
  rw [leadingDigits_eq, leadingNumber]
  split
  · rename_i hnone
    rw [hnone]
    rfl
  · rename_i hne
    have hdigits : ∀ c ∈ v.takeWhile isDigit, isDigit c = true :=
      fun c hc => List.mem_takeWhile_imp hc
    rw [tonumber, Option.bind_some, if_pos ⟨hne, hdigits⟩]
    rfl

theorem stringToNumberStep_eq (s : Nat × Nat) (v : List Byte) :
    stringToNumberStep s v = .ok (s.1 / 1000, s.2 + s.1 * leadingNumber v) := by
  rw [stringToNumberStep, tonumber_leadingDigits]
  rfl

/-- The loop on the leading numbers. -/
def weigh (s : Nat × Nat) (numbers : List Nat) : Nat :=
  (numbers.foldl (fun s n => (s.1 / 1000, s.2 + s.1 * n)) s).2

theorem foldlM_stringToNumberStep (components : List (List Byte)) (s : Nat × Nat) :
    (components.foldlM stringToNumberStep s).map Prod.snd
      = .ok (weigh s (components.map leadingNumber)) := by
  induction components generalizing s with
  | nil => rfl
  | cons v rest ih =>
    rw [List.foldlM_cons, stringToNumberStep_eq]
    exact ih _

theorem stringToNumber_eq (s : List Byte) :
    stringToNumber s = .ok (weigh (1000000000, 0) ((splitn dot 4 s).map leadingNumber)) :=
  foldlM_stringToNumberStep _ _

/-! ## Order -/

/-- The number of digits to a base, the highest first. -/
def positional (base : Nat) : List Nat → Nat
  | [] => 0
  | d :: rest => d * base ^ rest.length + positional base rest

theorem positional_lt {base : Nat} {digits : List Nat} (h : ∀ d ∈ digits, d < base) :
    positional base digits < base ^ digits.length := by
  induction digits with
  | nil => simp [positional]
  | cons d rest ih =>
    have hrest := ih fun e he => h e (List.mem_cons_of_mem _ he)
    have hd : (d + 1) * base ^ rest.length ≤ base * base ^ rest.length :=
      Nat.mul_le_mul_right _ (h d List.mem_cons_self)
    rw [Nat.add_mul, Nat.one_mul] at hd
    rw [positional, List.length_cons, Nat.pow_succ, Nat.mul_comm _ base]
    omega

theorem positional_lt_iff {base : Nat} {l k : List Nat} (hlen : l.length = k.length)
    (hl : ∀ d ∈ l, d < base) (hk : ∀ d ∈ k, d < base) :
    positional base l < positional base k ↔ l < k := by
  induction l generalizing k with
  | nil =>
    have hnil : k = [] := List.eq_nil_of_length_eq_zero hlen.symm
    subst hnil
    simp
  | cons d l ih =>
    cases k with
    | nil => cases hlen
    | cons e k =>
      have hlen' : l.length = k.length := Nat.succ.inj hlen
      have hrest := ih hlen' (fun c hc => hl c (List.mem_cons_of_mem _ hc))
        fun c hc => hk c (List.mem_cons_of_mem _ hc)
      have hll := positional_lt fun c hc => hl c (List.mem_cons_of_mem _ hc)
      have hkk := positional_lt fun c hc => hk c (List.mem_cons_of_mem _ hc)
      rw [positional, positional, List.cons_lt_cons_iff, ← hrest, hlen']
      rw [hlen'] at hll
      rcases Nat.lt_trichotomy d e with hlt | rfl | hgt
      · have hmul : (d + 1) * base ^ k.length ≤ e * base ^ k.length := Nat.mul_le_mul_right _ hlt
        rw [Nat.add_mul, Nat.one_mul] at hmul
        exact ⟨fun _ => .inl hlt, fun _ => by omega⟩
      · simp
      · have hmul : (e + 1) * base ^ k.length ≤ d * base ^ k.length := Nat.mul_le_mul_right _ hgt
        rw [Nat.add_mul, Nat.one_mul] at hmul
        constructor
        · intro h
          omega
        · rintro (hlt | ⟨heq, -⟩) <;> omega

theorem weigh_eq_positional {numbers : List Nat} (hlen : numbers.length ≤ 4) :
    weigh (1000000000, 0) numbers = positional 1000 (padded numbers) := by
  rcases numbers with _ | ⟨a, _ | ⟨b, _ | ⟨c, _ | ⟨d, _ | ⟨e, rest⟩⟩⟩⟩⟩
  · rfl
  · simp [weigh, padded, positional, List.replicate]
    omega
  · simp [weigh, padded, positional, List.replicate]
    omega
  · simp [weigh, padded, positional]
    omega
  · simp [weigh, padded, positional]
    omega
  · simp only [List.length_cons] at hlen
    omega

theorem length_padded {numbers : List Nat} (hlen : numbers.length ≤ 4) :
    (padded numbers).length = 4 := by
  rw [padded, List.length_append, List.length_replicate]
  omega

theorem padded_lt {numbers : List Nat} (h : ∀ n ∈ numbers, n < 1000) :
    ∀ n ∈ padded numbers, n < 1000 := by
  intro n hn
  rcases List.mem_append.mp hn with hn | hn
  · exact h n hn
  · rw [List.eq_of_mem_replicate hn]
    decide

/-- A text that `extract_major_minor` accepts. -/
structure Version where
  text : List Byte
  accepted : (extractMajorMinor text).isSome

/-- A version with few components and small leading numbers. -/
structure Version.Small (v : Version) : Prop where
  components : (Segments.split dot v.text).length ≤ 4
  numbers : ∀ n ∈ leadingNumbers v.text, n < 1000

theorem Version.Small.length_leadingNumbers {v : Version} (h : v.Small) :
    (leadingNumbers v.text).length ≤ 4 := by
  rw [leadingNumbers, List.length_map]
  exact h.components

theorem Version.Small.stringToNumber {v : Version} (h : v.Small) :
    stringToNumber v.text = .ok (positional 1000 (padded (leadingNumbers v.text))) := by
  rw [stringToNumber_eq, splitn_eq_split (n := 3) h.components, ← leadingNumbers,
    weigh_eq_positional h.length_leadingNumbers]

/-- **Version numbers order like versions.** Every accepted version has
a number; and two versions of few components with small leading numbers
have numbers that order as the leading numbers do. -/
theorem stringToNumber_order :
    (∀ v : Version, ∃ n, stringToNumber v.text = .ok n)
    ∧ ∀ a b : Version, a.Small → b.Small → ∀ m n, stringToNumber a.text = .ok m →
        stringToNumber b.text = .ok n →
        (m < n ↔ padded (leadingNumbers a.text) < padded (leadingNumbers b.text)) := by
  refine ⟨fun v => ⟨_, stringToNumber_eq v.text⟩, fun a b ha hb m n hm hn => ?_⟩
  rw [ha.stringToNumber] at hm
  rw [hb.stringToNumber] at hn
  cases hm
  cases hn
  apply positional_lt_iff
  · rw [length_padded ha.length_leadingNumbers, length_padded hb.length_leadingNumbers]
  · exact padded_lt ha.numbers
  · exact padded_lt hb.numbers

def threeNine : Version := ⟨ofText "3.9.0-rc1", by decide⟩
def threeTenZero : Version := ⟨ofText "3.10.0.x", by decide⟩

theorem threeNine_small : threeNine.Small := ⟨by decide, by decide⟩
theorem threeTenZero_small : threeTenZero.Small := ⟨by decide, by decide⟩

/-- A release candidate before a later minor version with a fourth
component that is no number. -/
theorem stringToNumber_order_nine_ten :
    (3009000000 < 3010000000)
      ↔ padded (leadingNumbers threeNine.text) < padded (leadingNumbers threeTenZero.text) :=
  stringToNumber_order.2 threeNine threeTenZero threeNine_small threeTenZero_small 3009000000
    3010000000 (by decide +kernel) (by decide +kernel)

end KongGateway.Kong.Clustering.Compat

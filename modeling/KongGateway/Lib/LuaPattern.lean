import Mathlib.Data.List.TakeWhile
import Mathlib.Data.List.Range

/-!
# LuaPattern — patterns of character classes

A pattern is a row of classes, each with the number of characters it may
take, tried from the largest to the smallest as the matchers of Lua and
PCRE do; the texts of the captured ones are returned. Where each class
takes all it can and the rest matches, nothing else is tried.
-/

namespace LuaPattern

variable {α : Type}

/-- A class that is repeated; `hi` is `none` where there is no limit. -/
structure Item (α : Type) where
  cls : α → Bool
  lo : Nat
  hi : Option Nat
  captured : Bool

/-- `c+` -/
def Item.plus (cls : α → Bool) : Item α := ⟨cls, 1, none, false⟩

/-- `c*` -/
def Item.star (cls : α → Bool) : Item α := ⟨cls, 0, none, false⟩

/-- `c?` -/
def Item.opt (cls : α → Bool) : Item α := ⟨cls, 0, some 1, false⟩

/-- `c` written out some times. -/
def Item.times (n : Nat) (cls : α → Bool) : Item α := ⟨cls, n, some n, false⟩

/-- A character of its own. -/
def Item.lit [DecidableEq α] (c : α) : Item α := Item.times 1 (· = c)

/-- `(...)` -/
def Item.capture (item : Item α) : Item α := { item with captured := true }

/-- The most characters that a class can take at the start of a text. -/
def Item.most (item : Item α) (s : List α) : Nat :=
  match item.hi with
  | none => (s.takeWhile item.cls).length
  | some hi => min hi (s.takeWhile item.cls).length

/-- The numbers of characters in the order in which they are tried. -/
def Item.counts (item : Item α) (s : List α) : List Nat :=
  (List.range' item.lo (item.most s + 1 - item.lo)).reverse

/-- The captures of a match at the start of a text; `rest` goes on after the
last class. -/
def matchThen (rest : List α → Option (List (List α))) :
    List (Item α) → List α → Option (List (List α))
  | [], s => rest s
  | item :: items, s =>
    (item.counts s).findSome? fun n =>
      (matchThen rest items (s.drop n)).map fun captures =>
        if item.captured then s.take n :: captures else captures

/-- `^...$` -/
def matchAll (items : List (Item α)) (s : List α) : Option (List (List α)) :=
  matchThen (fun s => if s.isEmpty then some [] else none) items s

/-- `^...` -/
def matchStart (items : List (Item α)) (s : List α) : Option (List (List α)) :=
  matchThen (fun _ => some []) items s

/-! ## Matching step by step -/

section

variable {k : List α → Option (List (List α))}

theorem takeWhile_append_eq {p : α → Bool} {a b : List α} (ha : ∀ c ∈ a, p c = true)
    (hb : ∀ c ∈ b.head?, p c = false) : (a ++ b).takeWhile p = a := by
  rw [List.takeWhile_append_of_pos ha]
  cases b with
  | nil => simp
  | cons c b => rw [List.takeWhile_cons_of_neg (by simp [hb c rfl]), List.append_nil]

theorem counts_eq_cons {item : Item α} {s : List α} (h : item.lo ≤ item.most s) :
    ∃ rest, item.counts s = item.most s :: rest := by
  unfold Item.counts
  refine ⟨(List.range' item.lo (item.most s - item.lo)).reverse, ?_⟩
  have hsucc : item.most s + 1 - item.lo = item.most s - item.lo + 1 := by omega
  rw [hsucc, List.range'_1_concat, List.reverse_append, List.reverse_singleton,
    List.singleton_append]
  congr 1
  omega

theorem matchThen_cons {item : Item α} {l : List (Item α)} {a b : List α}
    {m : List (List α)} (hmost : item.most (a ++ b) = a.length) (hlo : item.lo ≤ a.length)
    (hrest : matchThen k l b = some m) :
    matchThen k (item :: l) (a ++ b)
      = some (if item.captured then a :: m else m) := by
  obtain ⟨counts, hcounts⟩ := counts_eq_cons (hlo.trans hmost.ge)
  rw [matchThen, hcounts, hmost, List.findSome?_cons_of_isSome] <;> simp [hrest]

theorem matchThen_plus {p : α → Bool} {l : List (Item α)} {a b : List α}
    {m : List (List α)} (hne : a ≠ []) (ha : ∀ c ∈ a, p c = true)
    (hb : ∀ c ∈ b.head?, p c = false) (hrest : matchThen k l b = some m) :
    matchThen k ((Item.plus p).capture :: l) (a ++ b) = some (a :: m) := by
  have hmost : (Item.plus p).capture.most (a ++ b) = a.length := by
    simp only [Item.most, Item.plus, Item.capture]
    rw [takeWhile_append_eq ha hb]
  exact matchThen_cons hmost (List.length_pos_iff.mpr hne) hrest

theorem matchThen_star {p : α → Bool} {l : List (Item α)} {a b : List α}
    {m : List (List α)} (ha : ∀ c ∈ a, p c = true)
    (hb : ∀ c ∈ b.head?, p c = false) (hrest : matchThen k l b = some m) :
    matchThen k (Item.star p :: l) (a ++ b) = some m
      ∧ matchThen k ((Item.star p).capture :: l) (a ++ b) = some (a :: m) := by
  have hmost : ∀ captured, (⟨p, 0, none, captured⟩ : Item α).most (a ++ b) = a.length := by
    intro captured
    simp only [Item.most]
    rw [takeWhile_append_eq ha hb]
  exact ⟨matchThen_cons (hmost false) (Nat.zero_le _) hrest,
    matchThen_cons (hmost true) (Nat.zero_le _) hrest⟩

theorem matchThen_times {p : α → Bool} {l : List (Item α)} {a b : List α}
    {m : List (List α)} (ha : ∀ c ∈ a, p c = true)
    (hrest : matchThen k l b = some m) :
    matchThen k ((Item.times a.length p).capture :: l) (a ++ b)
      = some (a :: m) := by
  have hmost : (Item.times a.length p).capture.most (a ++ b) = a.length := by
    simp only [Item.most, Item.times, Item.capture]
    rw [List.takeWhile_append_of_pos ha, List.length_append]
    omega
  exact matchThen_cons hmost le_rfl hrest

theorem matchThen_limited {p : α → Bool} {lo hi : Nat} {l : List (Item α)} {a b : List α}
    {m : List (List α)} (hlo : lo ≤ a.length) (hhi : a.length ≤ hi)
    (ha : ∀ c ∈ a, p c = true) (hb : ∀ c ∈ b.head?, p c = false)
    (hrest : matchThen k l b = some m) :
    matchThen k (⟨p, lo, some hi, true⟩ :: l) (a ++ b) = some (a :: m) := by
  have hmost : (⟨p, lo, some hi, true⟩ : Item α).most (a ++ b) = a.length := by
    simp only [Item.most]
    rw [takeWhile_append_eq ha hb]
    omega
  exact matchThen_cons hmost hlo hrest

theorem matchThen_lit [DecidableEq α] {c : α} {l : List (Item α)} {b : List α}
    {m : List (List α)} (hrest : matchThen k l b = some m) :
    matchThen k (Item.lit c :: l) (c :: b) = some m := by
  have hmost : (Item.lit c).most ([c] ++ b) = 1 := by
    simp [Item.most, Item.lit, Item.times]
  exact matchThen_cons (a := [c]) hmost le_rfl hrest

theorem matchThen_lits [DecidableEq α] {a : List α} {l : List (Item α)} {b : List α}
    {m : List (List α)} (hrest : matchThen k l b = some m) :
    matchThen k (a.map Item.lit ++ l) (a ++ b) = some m := by
  induction a with
  | nil => exact hrest
  | cons c a ih => exact matchThen_lit ih

theorem matchThen_opt {p : α → Bool} {l : List (Item α)} {c : α} {b : List α}
    {m : List (List α)} (hc : p c = true)
    (hrest : matchThen k l b = some m) :
    matchThen k (Item.opt p :: l) (c :: b) = some m
      ∧ matchThen k ((Item.opt p).capture :: l) (c :: b) = some ([c] :: m) := by
  have hmost : ∀ captured, (⟨p, 0, some 1, captured⟩ : Item α).most ([c] ++ b) = 1 := by
    intro captured
    simp [Item.most, hc]
  exact ⟨matchThen_cons (a := [c]) (hmost false) (Nat.zero_le _) hrest,
    matchThen_cons (a := [c]) (hmost true) (Nat.zero_le _) hrest⟩

theorem matchThen_opt_absent {p : α → Bool} {l : List (Item α)} {b : List α}
    {m : List (List α)} (hb : ∀ c ∈ b.head?, p c = false)
    (hrest : matchThen k l b = some m) :
    matchThen k (Item.opt p :: l) b = some m
      ∧ matchThen k ((Item.opt p).capture :: l) b = some ([] :: m) := by
  have hmost : ∀ captured, (⟨p, 0, some 1, captured⟩ : Item α).most ([] ++ b) = 0 := by
    intro captured
    simp only [Item.most]
    rw [takeWhile_append_eq (fun c hc => absurd hc List.not_mem_nil) hb]
    rfl
  exact ⟨matchThen_cons (a := []) (hmost false) (Nat.zero_le _) hrest,
    matchThen_cons (a := []) (hmost true) (Nat.zero_le _) hrest⟩

end

/-! ## Parts of a match -/

/-- What a class may take. -/
def Item.Takes (item : Item α) (part : List α) : Prop :=
  (∀ c ∈ part, item.cls c = true) ∧ item.lo ≤ part.length ∧ ∀ hi ∈ item.hi, part.length ≤ hi

section

variable {k : List α → Option (List (List α))}

theorem takes_of_mem_counts {item : Item α} {s : List α} {n : Nat} (h : n ∈ item.counts s) :
    item.Takes (s.take n) := by
  rw [Item.counts, List.mem_reverse, List.mem_range'_1] at h
  obtain ⟨hlo, hlt⟩ := h
  have hmost : n ≤ item.most s := by omega
  have hwhile : n ≤ (s.takeWhile item.cls).length := by
    refine hmost.trans ?_
    unfold Item.most
    split
    · exact le_rfl
    · exact Nat.min_le_right _ _
  have htake : s.take n = (s.takeWhile item.cls).take n := by
    conv_lhs => rw [← List.takeWhile_append_dropWhile (p := item.cls) (l := s)]
    exact List.take_append_of_le_length hwhile
  have hlength : (s.take n).length = n := by
    rw [htake, List.length_take]
    omega
  refine ⟨?_, ?_, ?_⟩
  · intro c hc
    rw [htake] at hc
    exact List.mem_takeWhile_imp (List.mem_of_mem_take hc)
  · rw [hlength]
    exact hlo
  · intro hi hhi
    rw [hlength]
    have hle : item.most s ≤ hi := by
      rw [Item.most, hhi]
      exact Nat.min_le_left _ _
    exact hmost.trans hle

theorem matchThen_capture {item : Item α} {l : List (Item α)} {part b : List α}
    {m : List (List α)} (hpart : item.Takes part) (hb : ∀ c ∈ b.head?, item.cls c = false)
    (hrest : matchThen k l b = some m) :
    matchThen k (item.capture :: l) (part ++ b) = some (part :: m) := by
  have hmost : item.capture.most (part ++ b) = part.length := by
    have hwhile : (part ++ b).takeWhile item.cls = part := takeWhile_append_eq hpart.1 hb
    unfold Item.most
    simp only [Item.capture, hwhile]
    cases hhi : item.hi with
    | none => rfl
    | some hi => exact Nat.min_eq_right (hpart.2.2 hi hhi)
  exact matchThen_cons hmost hpart.2.1 hrest

/-- What a match gives to the first class, and what is left to the others. -/
theorem matchThen_cons_eq_some {item : Item α} {items : List (Item α)} {s : List α}
    {m : List (List α)} (h : matchThen k (item :: items) s = some m) :
    ∃ part b m', item.Takes part ∧ s = part ++ b ∧ matchThen k items b = some m'
      ∧ m = if item.captured then part :: m' else m' := by
  rw [matchThen] at h
  obtain ⟨n, hn, hfound⟩ := List.exists_of_findSome?_eq_some h
  obtain ⟨m', hrest, hm⟩ := Option.map_eq_some_iff.mp hfound
  exact ⟨s.take n, s.drop n, m', takes_of_mem_counts hn, (List.take_append_drop n s).symm, hrest,
    hm.symm⟩

theorem takes_plus_iff {cls : α → Bool} {part : List α} :
    (Item.plus cls).Takes part ↔ part ≠ [] ∧ ∀ c ∈ part, cls c = true := by
  constructor
  · rintro ⟨hcls, hlo, -⟩
    exact ⟨List.length_pos_iff.mp hlo, hcls⟩
  · rintro ⟨hne, hcls⟩
    exact ⟨hcls, List.length_pos_iff.mpr hne, fun hi hhi => by cases hhi⟩

theorem takes_star_iff {cls : α → Bool} {part : List α} :
    (Item.star cls).Takes part ↔ ∀ c ∈ part, cls c = true := by
  constructor
  · intro h
    exact h.1
  · intro hcls
    exact ⟨hcls, Nat.zero_le _, fun hi hhi => by cases hhi⟩

theorem matchAll_nil_eq_some_iff {s : List α} {m : List (List α)} :
    matchAll [] s = some m ↔ s = [] ∧ m = [] := by
  cases s with
  | nil => simp [matchAll, matchThen, eq_comm]
  | cons c s => simp [matchAll, matchThen]

theorem matchAll_isSome_iff {item : Item α} {s : List α} :
    (matchAll [item] s).isSome = true ↔ item.Takes s := by
  constructor
  · intro h
    obtain ⟨m, hm⟩ := Option.isSome_iff_exists.mp h
    obtain ⟨part, b, m', hpart, hs, hrest, -⟩ := matchThen_cons_eq_some hm
    rw [hs, (matchAll_nil_eq_some_iff.mp hrest).1, List.append_nil]
    exact hpart
  · intro h
    have hmost : item.most s = s.length := by
      have hwhile : s.takeWhile item.cls = s := List.takeWhile_eq_self_iff.mpr h.1
      unfold Item.most
      rw [hwhile]
      cases hhi : item.hi with
      | none => rfl
      | some hi => exact Nat.min_eq_right (h.2.2 hi hhi)
    have hcons := matchThen_cons (k := fun s => if s.isEmpty then some [] else none) (l := [])
      (a := s) (b := []) (m := []) (by rwa [List.append_nil]) h.2.1 rfl
    rw [List.append_nil] at hcons
    exact Option.isSome_iff_exists.mpr ⟨_, hcons⟩

end

/-! ## Fields between separators -/

section

variable [DecidableEq α] {k : List α → Option (List (List α))}

/-- A captured class some times, with a character between. -/
def fields (item : Item α) (sep : α) : Nat → List (Item α)
  | 0 => []
  | 1 => [item.capture]
  | n + 2 => item.capture :: Item.lit sep :: fields item sep (n + 1)

theorem takes_lit {c : α} {part : List α} (h : (Item.lit c).Takes part) : part = [c] := by
  obtain ⟨hcls, hlo, hhi⟩ := h
  have hle : part.length ≤ 1 := hhi 1 rfl
  have hge : 1 ≤ part.length := hlo
  obtain ⟨d, rfl⟩ := List.length_eq_one_iff.mp (le_antisymm hle hge)
  have hd := hcls d List.mem_cons_self
  simp only [Item.lit, Item.times, decide_eq_true_eq] at hd
  rw [hd]

theorem matchAll_lit_capture_eq_some_iff {item : Item α} {c : α} {s : List α}
    {m : List (List α)} :
    matchAll [Item.lit c, item.capture] s = some m
      ↔ ∃ part, s = c :: part ∧ item.Takes part ∧ m = [part] := by
  constructor
  · intro h
    obtain ⟨sep, b, m₁, hsep, hs, h₁, hm⟩ := matchThen_cons_eq_some h
    obtain ⟨part, b', m₂, hpart, hb, h₂, hm₁⟩ := matchThen_cons_eq_some h₁
    obtain ⟨rfl, rfl⟩ := matchAll_nil_eq_some_iff.mp h₂
    refine ⟨part, ?_, hpart, ?_⟩
    · rw [hs, hb, takes_lit hsep, List.append_nil]
      rfl
    · rw [hm, hm₁]
      rfl
  · rintro ⟨part, rfl, hpart, rfl⟩
    have hcapture := matchThen_capture (k := fun s => if s.isEmpty then some [] else none)
      (l := []) (b := []) (m := []) hpart (fun d hd => by cases hd) rfl
    rw [List.append_nil] at hcapture
    exact matchThen_lit hcapture

theorem matchThen_fields {item : Item α} {sep : α} (hsep : item.cls sep = false)
    {l : List (Item α)} {parts : List (List α)} {b : List α} {m : List (List α)}
    (hparts : ∀ part ∈ parts, item.Takes part) (hb : ∀ c ∈ b.head?, item.cls c = false)
    (hrest : matchThen k l b = some m) :
    matchThen k (fields item sep parts.length ++ l) ([sep].intercalate parts ++ b)
      = some (parts ++ m) := by
  induction parts with
  | nil => exact hrest
  | cons part parts ih =>
    have hpart := hparts part List.mem_cons_self
    cases parts with
    | nil =>
      have hlast := matchThen_capture hpart hb hrest
      simpa [fields] using hlast
    | cons other parts =>
      have hmore := ih fun p hp => hparts p (List.mem_cons_of_mem part hp)
      have hlit := matchThen_lit (c := sep) hmore
      rw [List.intercalate_cons_cons, List.append_assoc, List.append_assoc]
      refine matchThen_capture hpart ?_ hlit
      intro c hc
      obtain rfl : sep = c := Option.some.inj hc
      exact hsep

/-- What matches is made of texts of the class with the character between them. -/
theorem matchThen_fields_eq_some {item : Item α} {sep : α} {n : Nat} {l : List (Item α)}
    {s : List α} {m : List (List α)} (h : matchThen k (fields item sep n ++ l) s = some m) :
    ∃ parts b m', parts.length = n ∧ (∀ part ∈ parts, item.Takes part)
      ∧ s = [sep].intercalate parts ++ b ∧ matchThen k l b = some m' ∧ m = parts ++ m' := by
  induction n generalizing s m with
  | zero => exact ⟨[], s, m, rfl, fun part hpart => absurd hpart List.not_mem_nil, rfl, h, rfl⟩
  | succ n ih =>
    cases n with
    | zero =>
      obtain ⟨part, b, m', hpart, hs, hrest, hm⟩ := matchThen_cons_eq_some h
      refine ⟨[part], b, m', rfl, ?_, ?_, hrest, hm⟩
      · intro p hp
        rw [List.mem_singleton.mp hp]
        exact hpart
      · simpa using hs
    | succ n =>
      obtain ⟨part, b₁, m₁, hpart, hs, hlit, hm⟩ := matchThen_cons_eq_some h
      obtain ⟨sep', b₂, m₂, hsep', hb₁, hfields, hm₁⟩ := matchThen_cons_eq_some hlit
      obtain ⟨parts, b, m', hlength, hparts, hb₂, hrest, hm₂⟩ := ih hfields
      refine ⟨part :: parts, b, m', ?_, ?_, ?_, hrest, ?_⟩
      · rw [List.length_cons, hlength]
      · exact List.forall_mem_cons.mpr ⟨hpart, hparts⟩
      · obtain ⟨other, parts, rfl⟩ := List.exists_cons_of_length_eq_add_one hlength
        rw [hs, hb₁, takes_lit hsep', hb₂, List.intercalate_cons_cons]
        simp only [List.append_assoc]
      · rw [hm, hm₁, hm₂]
        rfl

theorem matchAll_fields_eq_some_iff {item : Item α} {sep : α} (hsep : item.cls sep = false)
    {n : Nat} {s : List α} {m : List (List α)} :
    matchAll (fields item sep n) s = some m
      ↔ m.length = n ∧ (∀ part ∈ m, item.Takes part) ∧ s = [sep].intercalate m := by
  constructor
  · intro h
    rw [← List.append_nil (fields item sep n)] at h
    obtain ⟨parts, b, m', hlength, hparts, hs, hrest, hm⟩ := matchThen_fields_eq_some h
    rw [matchThen] at hrest
    split at hrest
    · rename_i hb
      obtain rfl := Option.some.inj hrest
      rw [List.append_nil] at hm
      rw [List.isEmpty_iff.mp hb, List.append_nil] at hs
      exact hm ▸ ⟨hlength, hparts, hs⟩
    · cases hrest
  · rintro ⟨rfl, hparts, rfl⟩
    have h := matchThen_fields (k := fun s => if s.isEmpty then some [] else none) (l := [])
      (b := []) (m := []) hsep hparts (fun c hc => by cases hc) rfl
    rwa [List.append_nil, List.append_nil, List.append_nil] at h

end

end LuaPattern

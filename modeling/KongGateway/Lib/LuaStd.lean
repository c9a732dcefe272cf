import Mathlib.Data.List.Basic
import Mathlib.Order.Lattice

/-!
# LuaStd — the Lua behaviour the models rely on

Texts are byte strings in Lua; here a `String` holds one character per
byte. The operations below are those of `string`, `table` and the
OpenResty additions that the verified code calls, as their manuals
describe them.
-/

namespace LuaStd

/-! ## Texts -/

/-- `string.lower` in the C locale. -/
def lower (s : String) : String := String.ofList (s.toList.map Char.toLower)

/-- `string.upper` in the C locale. -/
def upper (s : String) : String := String.ofList (s.toList.map Char.toUpper)

/-- `find(s, value, nil, true) == 1`. -/
def startsWith (s value : String) : Bool := value.toList.isPrefixOf s.toList

/-- `sub(s, 1, n)`. -/
def takeChars (n : Nat) (s : String) : String := String.ofList (s.toList.take n)

/-- `sub(s, n + 1)`. -/
def dropChars (n : Nat) (s : String) : String := String.ofList (s.toList.drop n)

/-- The texts before and after the first occurrence of `pat`. -/
def splitAtText (pat : List Char) : List Char → Option (List Char × List Char)
  | [] => if pat.isEmpty then some ([], []) else none
  | c :: rest =>
    if pat.isPrefixOf (c :: rest) then some ([], (c :: rest).drop pat.length)
    else (splitAtText pat rest).map fun (before, after) => (c :: before, after)

/-- `table.concat` of texts. -/
def tbConcat (sep : String) : List String → String
  | [] => ""
  | [s] => s
  | s :: next :: rest => s ++ (sep ++ tbConcat sep (next :: rest))

/-- Texts put together are determined by the result and the length of
the first one. -/
theorem append_inj_of_length {a a' b b' : String} (h : a ++ b = a' ++ b')
    (hlen : a.length = a'.length) : a = a' ∧ b = b' := by
  have hlist : a.toList ++ b.toList = a'.toList ++ b'.toList := by
    rw [← String.toList_append, ← String.toList_append, h]
  obtain ⟨ha, hb⟩ := List.append_inj hlist
    (by rw [String.length_toList, String.length_toList, hlen])
  exact ⟨String.toList_inj.mp ha, String.toList_inj.mp hb⟩

theorem length_tbConcat_congr {sep : String} {items items' : List String}
    (h : items.map String.length = items'.map String.length) :
    (tbConcat sep items).length = (tbConcat sep items').length := by
  induction items generalizing items' with
  | nil =>
    cases items' with
    | nil => rfl
    | cons head rest => simp at h
  | cons head rest ih =>
    cases items' with
    | nil => simp at h
    | cons head' rest' =>
      rw [List.map_cons, List.map_cons, List.cons.injEq] at h
      cases rest with
      | nil =>
        have hrest' : rest' = [] := by simpa using h.2.symm
        subst hrest'
        exact h.1
      | cons next tail =>
        cases rest' with
        | nil => simp at h
        | cons next' tail' =>
          simp only [tbConcat, String.length_append]
          rw [h.1, ih h.2]

/-- A concatenation is determined by its text and the lengths of its
items. -/
theorem tbConcat_inj {sep : String} {items items' : List String}
    (h : tbConcat sep items = tbConcat sep items')
    (hlen : items.map String.length = items'.map String.length) : items = items' := by
  induction items generalizing items' with
  | nil =>
    cases items' with
    | nil => rfl
    | cons head rest => simp at hlen
  | cons head rest ih =>
    cases items' with
    | nil => simp at hlen
    | cons head' rest' =>
      rw [List.map_cons, List.map_cons, List.cons.injEq] at hlen
      cases rest with
      | nil =>
        have hrest' : rest' = [] := by simpa using hlen.2.symm
        subst hrest'
        exact congrArg (· :: []) h
      | cons next tail =>
        cases rest' with
        | nil => simp at hlen
        | cons next' tail' =>
          obtain ⟨hhead, htail⟩ := append_inj_of_length h hlen.1
          obtain ⟨-, hjoin⟩ := append_inj_of_length htail rfl
          rw [hhead, ih hjoin hlen.2]

theorem toString_nat_inj {m n : Nat} (h : toString m = toString n) : m = n := by
  have hdigits : Nat.toDigits 10 m = Nat.toDigits 10 n := by
    rw [← Nat.toList_repr, ← Nat.toList_repr]
    exact congrArg String.toList h
  rw [← @Nat.ofDigitChars_ten_toDigits m, hdigits, Nat.ofDigitChars_ten_toDigits]

/-! ## Loops that may fail -/

theorem mem_of_mapM_eq_ok {α β ε : Type} {f : α → Except ε β} {l : List α} {found : List β}
    (h : l.mapM f = .ok found) : ∀ b ∈ found, ∃ a ∈ l, f a = .ok b := by
  induction l generalizing found with
  | nil =>
    cases h
    simp
  | cons a rest ih =>
    rw [List.mapM_cons] at h
    cases hhead : f a with
    | error err =>
      rw [hhead] at h
      cases h
    | ok b =>
      cases htail : rest.mapM f with
      | error err =>
        rw [hhead, htail] at h
        cases h
      | ok tail =>
        rw [hhead, htail] at h
        cases h
        intro b' hb'
        rcases List.mem_cons.mp hb' with rfl | hb'
        · exact ⟨a, List.mem_cons_self, hhead⟩
        · obtain ⟨a', ha', hfound⟩ := ih htail b' hb'
          exact ⟨a', List.mem_cons_of_mem a ha', hfound⟩

/-! ## Sorting -/

/-- A comparison that `table.sort` takes: it orders the values of the
list, some of which may be equivalent. -/
structure StrictWeak {α : Type} (lt : α → α → Bool) (l : List α) : Prop where
  asymm : ∀ a ∈ l, ∀ b ∈ l, lt a b = true → lt b a = false
  negTrans : ∀ a ∈ l, ∀ b ∈ l, ∀ c ∈ l, lt a c = true → lt a b = true ∨ lt b c = true

/-- What a user relies on of `table.sort`, which is not stable. -/
structure TableSort where
  sort : {α : Type} → (α → α → Bool) → List α → List α
  perm : ∀ {α : Type} (lt : α → α → Bool) (l : List α), (sort lt l).Perm l
  sorted : ∀ {α : Type} {lt : α → α → Bool} {l : List α}, StrictWeak lt l →
    (sort lt l).Pairwise fun a b => lt b a = false

variable {α : Type} {lt : α → α → Bool}

theorem StrictWeak.of_subset {l l' : List α} (h : StrictWeak lt l) (hsub : l' ⊆ l) :
    StrictWeak lt l' where
  asymm a ha b hb := h.asymm a (hsub ha) b (hsub hb)
  negTrans a ha b hb c hc := h.negTrans a (hsub ha) b (hsub hb) c (hsub hc)

theorem StrictWeak.of_key {β : Type} [LinearOrder β] {l : List α} (key : α → β)
    (h : ∀ a ∈ l, ∀ b ∈ l, lt a b = true ↔ key a < key b) : StrictWeak lt l where
  asymm a ha b hb hab := by
    rw [← Bool.not_eq_true, h b hb a ha]
    exact not_lt_of_gt ((h a ha b hb).mp hab)
  negTrans a ha b hb c hc hac := by
    rw [h a ha b hb, h b hb c hc]
    have hlt := (h a ha c hc).mp hac
    rcases lt_or_ge (key a) (key b) with hab | hba
    · exact .inl hab
    · exact .inr (lt_of_le_of_lt hba hlt)

theorem sort_pairwise_key (tables : TableSort) {α β κ : Type} [LinearOrder κ] {desc : α → β}
    (key : β → κ) {lt : α → α → Bool} {l : List α}
    (hlt : ∀ x ∈ l, ∀ y ∈ l, lt x y = true ↔ key (desc x) < key (desc y)) :
    ((tables.sort lt l).map desc).Pairwise fun u v => key u ≤ key v := by
  have hmem : ∀ x, x ∈ tables.sort lt l ↔ x ∈ l := fun x => (tables.perm lt l).mem_iff
  rw [List.pairwise_map]
  refine (tables.sorted (.of_key (fun x => key (desc x)) hlt)).imp_of_mem ?_
  intro x y hx hy hle
  rw [← Bool.not_eq_true, hlt y ((hmem y).mp hy) x ((hmem x).mp hx)] at hle
  exact not_lt.mp hle

/-- Two lists of one content sort to one content, where the keys tell
the values apart. -/
theorem sort_map_eq (tables : TableSort) {α α' β κ : Type} [LinearOrder κ] {desc : α → β}
    {desc' : α' → β} (key : β → κ) {lt : α → α → Bool} {lt' : α' → α' → Bool} {l : List α}
    {l' : List α'} (hlt : ∀ x ∈ l, ∀ y ∈ l, lt x y = true ↔ key (desc x) < key (desc y))
    (hlt' : ∀ x ∈ l', ∀ y ∈ l', lt' x y = true ↔ key (desc' x) < key (desc' y))
    (hperm : (l.map desc).Perm (l'.map desc'))
    (hkey : ∀ u ∈ l.map desc, ∀ v ∈ l.map desc, key u = key v → u = v) :
    (tables.sort lt l).map desc = (tables.sort lt' l').map desc' := by
  have hleft := (tables.perm lt l).map desc
  have hright := ((tables.perm lt' l').map desc').trans hperm.symm
  refine List.Perm.eq_of_pairwise ?_ (sort_pairwise_key tables key hlt)
    (sort_pairwise_key tables key hlt') (hleft.trans hright.symm)
  intro u v hu hv huv hvu
  exact hkey u (hleft.mem_iff.mp hu) v (hright.mem_iff.mp hv) (le_antisymm huv hvu)

theorem sort_eq_of_perm (tables : TableSort) {α κ : Type} [LinearOrder κ] (key : α → κ)
    {lt : α → α → Bool} (hlt : ∀ x y, lt x y = true ↔ key x < key y) {l l' : List α}
    (hperm : l.Perm l') (hkey : ∀ x ∈ l, ∀ y ∈ l, key x = key y → x = y) :
    tables.sort lt l = tables.sort lt l' := by
  have hsort := @sort_map_eq tables α α α κ _ id id key lt lt l l' (fun x _ y _ => hlt x y)
    (fun x _ y _ => hlt x y) (hperm.map id) (by simpa using hkey)
  simpa using hsort

/-- In a sorted list, what stands from a value on is what does not come
before it. -/
theorem mem_dropWhile_ne [DecidableEq α] {l : List α} {a c : α}
    (hsorted : l.Pairwise fun x y => lt y x = false) (hirrefl : lt a a = false)
    (hantisymm : ∀ b, lt a b = false → lt b a = false → b = a) (ha : a ∈ l) :
    c ∈ l.dropWhile (fun b => b ≠ a) ↔ c ∈ l ∧ lt c a = false := by
  induction l with
  | nil => simp at ha
  | cons b rest ih =>
    by_cases hba : b = a
    · subst hba
      rw [List.dropWhile_cons_of_neg (by simp)]
      refine ⟨fun hc => ⟨hc, ?_⟩, And.left⟩
      rcases List.mem_cons.mp hc with rfl | hc
      · exact hirrefl
      · exact List.rel_of_pairwise_cons hsorted hc
    · have harest : a ∈ rest := (List.mem_cons.mp ha).resolve_left (Ne.symm hba)
      rw [List.dropWhile_cons_of_pos (by simpa using hba), ih hsorted.of_cons harest]
      refine ⟨fun hc => ⟨List.mem_cons_of_mem b hc.1, hc.2⟩, fun hc => ⟨?_, hc.2⟩⟩
      -- `b` stands before `a`, so it is not `c`
      refine (List.mem_cons.mp hc.1).resolve_left ?_
      rintro rfl
      exact hba (hantisymm c (List.rel_of_pairwise_cons hsorted harest) hc.2)

/-- The first value of a sorted list with a property comes before none
of the others that have it. -/
theorem lt_first_eq_false {p : α → Prop} {before after : List α} {a : α}
    (hsorted : (before ++ a :: after).Pairwise fun x y => lt y x = false)
    (hirrefl : lt a a = false) (hbefore : ∀ b ∈ before, ¬ p b) :
    ∀ b ∈ before ++ a :: after, p b → lt b a = false := by
  intro b hb hp
  rcases List.mem_append.mp hb with hb | hb
  · exact absurd hp (hbefore b hb)
  · rcases List.mem_cons.mp hb with rfl | hb
    · exact hirrefl
    · exact List.rel_of_pairwise_cons (List.pairwise_append.mp hsorted).2.1 hb

/-! ### A sort by insertion -/

def insertBy (lt : α → α → Bool) (a : α) : List α → List α
  | [] => [a]
  | b :: rest => if lt b a then b :: insertBy lt a rest else a :: b :: rest

theorem insertBy_perm (lt : α → α → Bool) (a : α) (l : List α) :
    (insertBy lt a l).Perm (a :: l) := by
  induction l with
  | nil => exact .refl _
  | cons b rest ih =>
    rw [insertBy]
    split
    · exact (ih.cons b).trans (.swap a b rest)
    · exact .refl _

theorem insertBy_sorted {a : α} {l : List α} (hlt : StrictWeak lt (a :: l))
    (h : l.Pairwise fun x y => lt y x = false) :
    (insertBy lt a l).Pairwise fun x y => lt y x = false := by
  induction l with
  | nil => exact List.pairwise_singleton _ _
  | cons b rest ih =>
    have hhead : ∀ y ∈ rest, lt y b = false := fun _ hy => List.rel_of_pairwise_cons h hy
    rw [insertBy]
    split
    · rename_i hba
      have htail := ih (hlt.of_subset (by intro x hx; simp at hx ⊢; tauto)) h.of_cons
      refine List.pairwise_cons.mpr ⟨?_, htail⟩
      intro y hy
      rcases List.mem_cons.mp ((insertBy_perm lt a rest).mem_iff.mp hy) with rfl | hrest
      · exact hlt.asymm b (by simp) y (by simp) hba
      · exact hhead y hrest
    · rename_i hba
      refine List.pairwise_cons.mpr ⟨?_, h⟩
      intro y hy
      rcases List.mem_cons.mp hy with rfl | hrest
      · simpa using hba
      · -- `y` is not before `b` and `b` not before `a`
        by_contra hya
        rcases hlt.negTrans y (by simp [hrest]) b (by simp) a (by simp) (by simpa using hya)
          with hyb | hba'
        · exact absurd (hhead y hrest) (by simp [hyb])
        · exact hba hba'

def insertionSort (lt : α → α → Bool) (l : List α) : List α := l.foldr (insertBy lt) []

theorem insertionSort_perm (lt : α → α → Bool) (l : List α) : (insertionSort lt l).Perm l := by
  induction l with
  | nil => exact .refl _
  | cons a rest ih => exact (insertBy_perm lt a _).trans (ih.cons a)

theorem insertionSort_sorted {l : List α} (hlt : StrictWeak lt l) :
    (insertionSort lt l).Pairwise fun x y => lt y x = false := by
  induction l with
  | nil => exact List.Pairwise.nil
  | cons a rest ih =>
    refine insertBy_sorted (hlt.of_subset ?_) (ih (hlt.of_subset (List.subset_cons_self a rest)))
    intro x hx
    rcases List.mem_cons.mp hx with rfl | hx
    · exact List.mem_cons_self
    · exact List.mem_cons_of_mem a ((insertionSort_perm lt rest).mem_iff.mp hx)

/-- A sort that keeps all the promises. -/
def insertionTable : TableSort where
  sort := insertionSort
  perm := insertionSort_perm
  sorted := insertionSort_sorted

end LuaStd

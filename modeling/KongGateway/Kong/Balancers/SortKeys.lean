import KongGateway.Kong.Balancers.Targets
import Mathlib.Data.String.Basic
import Mathlib.Tactic.Linarith

/-!
# SortKeys — what the sort key of a DNS record says

The key of an SRV record is its priority in six digits, its target and
its port. Records with one key name one ip and port, and records in the
order of their keys are in the order of their priorities, so that the
entries up to the first change of priority are those of the least one.
-/

namespace KongGateway.Kong.Balancers

open LuaStd

/-- An answer holds records of one type. -/
def OneType (entries : List Entry) : Prop := ∀ e ∈ entries, ∀ e' ∈ entries, e.type = e'.type

instance (entries : List Entry) : Decidable (OneType entries) := by
  unfold OneType
  infer_instance

/-- The ip and port an entry stands for. -/
def endpoint (target : Target) (entry : Entry) : String × Nat :=
  (entry.ip, entryPort target entry)

/-! ## Keys and endpoints -/

theorem digits_length (k n : Nat) : (digits k n).length = k := by
  induction k with
  | zero => rfl
  | succ k ih => rw [digits, List.length_cons, ih]

theorem append_sep_inj {α : Type} {sep : α} {l l' last last' : List α}
    (h : l ++ sep :: last = l' ++ sep :: last') (hlast : sep ∉ last) (hlast' : sep ∉ last') :
    l = l' ∧ last = last' := by
  induction l generalizing l' with
  | nil =>
    cases l' with
    | nil => simpa using h
    | cons a rest' =>
      rw [List.nil_append, List.cons_append, List.cons.injEq] at h
      exact absurd (by rw [h.2]; simp) hlast
  | cons a rest ih =>
    cases l' with
    | nil =>
      rw [List.nil_append, List.cons_append, List.cons.injEq] at h
      exact absurd (by rw [← h.2]; simp) hlast'
    | cons a' rest' =>
      rw [List.cons_append, List.cons_append, List.cons.injEq] at h
      obtain ⟨hrest, hsame⟩ := ih h.2
      exact ⟨by rw [h.1, hrest], hsame⟩

theorem colon_not_mem_toString (n : Nat) : ':' ∉ (toString n).toList := by
  intro hmem
  have hmem' : ':' ∈ Nat.toDigits 10 n := by
    rw [← Nat.toList_repr]
    exact hmem
  exact absurd (Nat.isDigit_of_mem_toDigits (by decide) (by decide) hmem') (by decide)

theorem sortKey_srv (target : String) (port weight priority : UInt16) (ttl : Nat) :
    (Entry.srv target port weight priority ttl).sortKey.toList
      = digits 6 priority.toNat ++ ':' :: (target.toList ++ ':' :: (toString port.toNat).toList) := by
  simp [Entry.sortKey]

theorem sortKey_endpoint {e e' : Entry} (htype : e.type = e'.type) (hkey : e.sortKey = e'.sortKey) :
    e.ip = e'.ip ∧ e.port = e'.port := by
  cases e with
  | a address ttl =>
    cases e' with
    | a address' ttl' => exact ⟨hkey, rfl⟩
    | aaaa address' ttl' => cases htype
    | srv target' port' weight' priority' ttl' => cases htype
  | aaaa address ttl =>
    cases e' with
    | a address' ttl' => cases htype
    | aaaa address' ttl' => exact ⟨hkey, rfl⟩
    | srv target' port' weight' priority' ttl' => cases htype
  | srv target port weight priority ttl =>
    cases e' with
    | a address' ttl' => cases htype
    | aaaa address' ttl' => cases htype
    | srv target' port' weight' priority' ttl' =>
      have hchars := congrArg String.toList hkey
      rw [sortKey_srv, sortKey_srv] at hchars
      obtain ⟨-, hrest⟩ := List.append_inj hchars (by simp [digits_length])
      obtain ⟨htarget, hport⟩ := append_sep_inj (List.cons.inj hrest).2
        (colon_not_mem_toString _) (colon_not_mem_toString _)
      have hnat := toString_nat_inj (String.toList_injective hport)
      exact ⟨String.toList_injective htarget, congrArg some hnat⟩

theorem endpoint_eq_of_sortKey (target : Target) {e e' : Entry} (htype : e.type = e'.type)
    (hkey : e.sortKey = e'.sortKey) : endpoint target e = endpoint target e' := by
  obtain ⟨hip, hport⟩ := sortKey_endpoint htype hkey
  rw [endpoint, endpoint, hip, entryPort, entryPort, hport]

/-! ## Keys and priorities -/

theorem digitChar_lt {n m : Nat} (hn : n < 10) (hm : m < 10) (h : n < m) :
    Nat.digitChar n < Nat.digitChar m := by
  rw [Char.lt_def, UInt32.lt_iff_toNat_lt]
  have hn' := Nat.toNat_digitChar_of_lt_ten hn
  have hm' := Nat.toNat_digitChar_of_lt_ten hm
  rw [Char.toNat] at hn' hm'
  omega

/-- Numerals of one width are in the order of the numbers, whatever
follows them. -/
theorem digits_lt (k : Nat) {n m : Nat} (s s' : List Char) (h : n % 10 ^ k < m % 10 ^ k) :
    digits k n ++ s < digits k m ++ s' := by
  induction k with
  | zero => simp [Nat.mod_one] at h
  | succ k ih =>
    rw [Nat.mod_pow_succ, Nat.mod_pow_succ] at h
    rw [digits, digits, List.cons_append, List.cons_append, List.cons_lt_cons_iff]
    have hn := Nat.mod_lt n (Nat.pow_pos (n := k) (show 0 < 10 by omega))
    have hm := Nat.mod_lt m (Nat.pow_pos (n := k) (show 0 < 10 by omega))
    have hten : ∀ x : Nat, x / 10 ^ k % 10 < 10 := fun x => Nat.mod_lt _ (by omega)
    rcases lt_trichotomy (n / 10 ^ k % 10) (m / 10 ^ k % 10) with hlt | heq | hgt
    · exact .inl (digitChar_lt (hten n) (hten m) hlt)
    · rw [heq] at h ⊢
      exact .inr ⟨rfl, ih (by omega)⟩
    · have hmul := Nat.mul_le_mul_left (10 ^ k) hgt
      rw [Nat.mul_succ] at hmul
      omega

theorem sortKey_lt_of_priority {e e' : Entry} {p p' : Nat} (hp : e.priority = some p)
    (hp' : e'.priority = some p') (h : p < p') : e.sortKey < e'.sortKey := by
  cases e with
  | a address ttl => cases hp
  | aaaa address ttl => cases hp
  | srv target port weight priority ttl =>
    cases e' with
    | a address' ttl' => cases hp'
    | aaaa address' ttl' => cases hp'
    | srv target' port' weight' priority' ttl' =>
      obtain rfl : priority.toNat = p := Option.some.inj hp
      obtain rfl : priority'.toNat = p' := Option.some.inj hp'
      rw [String.lt_iff_toList_lt, sortKey_srv, sortKey_srv]
      apply digits_lt
      have hlt := priority.toNat_lt
      have hlt' := priority'.toNat_lt
      rw [Nat.mod_eq_of_lt (by omega), Nat.mod_eq_of_lt (by omega)]
      exact h

/-! ## The entries of the least priority -/

/-- 0 for a record without a priority. -/
def Entry.rank (entry : Entry) : Nat := entry.priority.getD 0

/-- The entries an answer puts first: of an SRV answer those of the
least priority, of any other answer all. -/
def leastPriority (entries : List Entry) : List Entry :=
  entries.filter fun e => entries.all fun e' => decide (e.rank ≤ e'.rank)

theorem sortEntries_perm (lib : Lib) (entries : List Entry) :
    (sortEntries lib entries).Perm entries := lib.tables.perm _ _

theorem OneType.perm {entries entries' : List Entry} (h : OneType entries)
    (hperm : entries'.Perm entries) : OneType entries' :=
  fun e he e' he' => h e (hperm.mem_iff.mp he) e' (hperm.mem_iff.mp he')

theorem rank_eq_iff {e e' : Entry} (htype : e.type = e'.type) :
    e.rank = e'.rank ↔ e.priority = e'.priority := by
  cases e with
  | a address ttl =>
    cases e' with
    | srv target' port' weight' priority' ttl' => cases htype
    | _ => simp [Entry.rank, Entry.priority]
  | aaaa address ttl =>
    cases e' with
    | srv target' port' weight' priority' ttl' => cases htype
    | _ => simp [Entry.rank, Entry.priority]
  | srv target port weight priority ttl =>
    cases e' with
    | srv target' port' weight' priority' ttl' => simp [Entry.rank, Entry.priority]
    | _ => cases htype

theorem rank_le_of_sortKey {e e' : Entry} (htype : e.type = e'.type)
    (hkey : ¬ e'.sortKey < e.sortKey) : e.rank ≤ e'.rank := by
  by_contra hlt
  cases hp : e.priority with
  | none =>
    rw [Entry.rank, hp] at hlt
    exact hlt (Nat.zero_le _)
  | some p =>
    cases hp' : e'.priority with
    | none =>
      cases e <;> cases e' <;> simp_all [Entry.priority, Entry.type]
    | some p' =>
      rw [Entry.rank, Entry.rank, hp, hp'] at hlt
      exact hkey (sortKey_lt_of_priority hp' hp (Nat.lt_of_not_le hlt))

theorem sortEntries_pairwise (lib : Lib) {entries : List Entry} (h : OneType entries) :
    (sortEntries lib entries).Pairwise fun e e' => e.rank ≤ e'.rank := by
  have hweak : StrictWeak (fun e e' : Entry => decide (e.sortKey < e'.sortKey)) entries :=
    StrictWeak.of_key Entry.sortKey fun a _ b _ => decide_eq_true_iff
  have hone := h.perm (sortEntries_perm lib entries)
  refine List.Pairwise.imp_of_mem ?_ (lib.tables.sorted hweak)
  intro e e' he he' hkey
  exact rank_le_of_sortKey (hone e he e' he') (of_decide_eq_false hkey)

/-- Once a test that no later value passes first has failed, it fails
for good. -/
theorem takeWhile_eq_filter {α : Type} {p : α → Bool} {l : List α}
    (h : l.Pairwise fun a a' => p a' = true → p a = true) : l.takeWhile p = l.filter p := by
  induction l with
  | nil => rfl
  | cons a rest ih =>
    rw [List.pairwise_cons] at h
    by_cases ha : p a = true
    · rw [List.takeWhile_cons_of_pos ha, List.filter_cons_of_pos ha, ih h.2]
    · rw [List.takeWhile_cons_of_neg ha, eq_comm, List.filter_eq_nil_iff]
      intro a' ha' hpass
      rcases List.mem_cons.mp ha' with rfl | hrest
      · exact ha hpass
      · exact ha (h.1 a' hrest hpass)

theorem leastPriority_perm {entries entries' : List Entry} (h : entries.Perm entries') :
    (leastPriority entries).Perm (leastPriority entries') := by
  refine (List.Perm.of_eq (List.filter_congr fun e _ => ?_)).trans (h.filter _)
  rw [Bool.eq_iff_iff]
  simp only [List.all_eq_true, h.mem_iff]

theorem rank_head_le {first : Entry} {rest : List Entry}
    (hsorted : (first :: rest).Pairwise fun e e' => e.rank ≤ e'.rank) :
    ∀ e ∈ first :: rest, first.rank ≤ e.rank := by
  intro e he
  rcases List.mem_cons.mp he with rfl | hrest
  · exact le_rfl
  · exact (List.pairwise_cons.mp hsorted).1 e hrest

/-- The loop that ends at the first change of priority leaves out no
entry of the first one. -/
theorem topEntries_eq_filter (lib : Lib) {entries : List Entry} (h : OneType entries) :
    topEntries (sortEntries lib entries) = (sortEntries lib entries).filter fun e =>
      decide (e.priority = (sortEntries lib entries).head?.bind Entry.priority) := by
  have hone := h.perm (sortEntries_perm lib entries)
  have hsorted := sortEntries_pairwise lib h
  cases hlist : sortEntries lib entries with
  | nil => rfl
  | cons first rest =>
    rw [hlist] at hone hsorted
    refine takeWhile_eq_filter (hsorted.imp_of_mem ?_)
    intro e e' he he' hle hpass
    have heq := (rank_eq_iff (hone e' he' first List.mem_cons_self)).mpr
      (of_decide_eq_true hpass)
    refine decide_eq_true ((rank_eq_iff (hone e he first List.mem_cons_self)).mp ?_)
    exact le_antisymm (heq ▸ hle) (rank_head_le hsorted e he)

/-- The entries up to the first change of priority are those of the
least priority. -/
theorem topEntries_perm (lib : Lib) {entries : List Entry} (h : OneType entries) :
    (topEntries (sortEntries lib entries)).Perm (leastPriority entries) := by
  refine List.Perm.trans ?_ (leastPriority_perm (sortEntries_perm lib entries))
  rw [topEntries_eq_filter lib h]
  have hone := h.perm (sortEntries_perm lib entries)
  have hsorted := sortEntries_pairwise lib h
  cases hlist : sortEntries lib entries with
  | nil => exact .refl _
  | cons first rest =>
    rw [hlist] at hone hsorted
    refine List.Perm.of_eq (List.filter_congr fun e he => ?_)
    rw [Bool.eq_iff_iff, decide_eq_true_iff, List.all_eq_true]
    simp only [decide_eq_true_eq]
    refine Iff.trans (rank_eq_iff (hone e he first List.mem_cons_self)).symm ?_
    constructor
    · intro heq e' he'
      rw [heq]
      exact rank_head_le hsorted e' he'
    · intro hleast
      exact le_antisymm (hleast first List.mem_cons_self) (rank_head_le hsorted e he)

end KongGateway.Kong.Balancers

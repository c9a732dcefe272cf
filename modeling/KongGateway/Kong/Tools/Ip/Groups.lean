import KongGateway.Kong.Tools.Ip
import KongGateway.Lib.Joined

/-!
# Ip — the groups of an IPv6 address

An address is taken apart at its colons. `normalize_ipv6` takes eight
groups, or groups on both sides of one empty group that stands for the
ones left out; in both cases it reads an empty group at either end as a
zero (`match_eq_some_iff`). The groups are written with four lower-case
digits, and groups written so are written as they are.
-/

namespace KongGateway.Kong.Tools.Ip

open Bytes Numerals LuaPattern

/-- One to four hexadecimal digits. -/
def Hextet (g : Text) : Prop := hextet.Takes g

/-- A zero is read where a group at an end is empty. -/
def zeroed (g : Text) : Text := if g = [] then [48] else g

theorem hextet_iff {g : Text} :
    Hextet g ↔ (∀ c ∈ g, isHex c = true) ∧ 1 ≤ g.length ∧ g.length ≤ 4 := by
  constructor
  · rintro ⟨hcls, hlo, hhi⟩
    exact ⟨hcls, hlo, hhi 4 rfl⟩
  · rintro ⟨hcls, hlo, hhi⟩
    refine ⟨hcls, hlo, fun hi h => ?_⟩
    obtain rfl : 4 = hi := Option.some.inj h
    exact hhi

theorem Hextet.ne_nil {g : Text} (h : Hextet g) : g ≠ [] :=
  List.length_pos_iff.mp (hextet_iff.mp h).2.1

theorem Hextet.colon_notMem {g : Text} (h : Hextet g) : (58 : Byte) ∉ g := by
  intro hmem
  have hcolon := (hextet_iff.mp h).1 58 hmem
  revert hcolon
  decide

theorem hextet_zero : Hextet [48] := by
  refine hextet_iff.mpr ⟨fun c hc => ?_, le_rfl, by decide⟩
  rw [List.mem_singleton.mp hc]
  decide

theorem zeroed_of_hextet {g : Text} (h : Hextet g) : zeroed g = g := if_neg h.ne_nil

theorem hextet_zeroed_iff {g : Text} : Hextet (zeroed g) ↔ g = [] ∨ Hextet g := by
  unfold zeroed
  split
  · rename_i hg
    exact ⟨fun _ => Or.inl hg, fun _ => hextet_zero⟩
  · rename_i hg
    rw [or_iff_right hg]

theorem colon_notMem_zeroed {g : Text} (h : (58 : Byte) ∉ g) : (58 : Byte) ∉ zeroed g := by
  unfold zeroed
  split
  · decide
  · exact h

/-- A group, or nothing. -/
def EndGroup (g : Text) : Prop := g = [] ∨ Hextet g

theorem EndGroup.colon_notMem {g : Text} (h : EndGroup g) : (58 : Byte) ∉ g := by
  rcases h with rfl | h
  · exact List.not_mem_nil
  · exact h.colon_notMem

/-! ## What is accepted -/

/-- The texts that are taken for an address, with the eight groups of it. -/
inductive Accepted : Text → List Text → Prop where
  | full (first last : Text) (mid : List Text) (hfirst : EndGroup first) (hlast : EndGroup last)
      (hmid : ∀ g ∈ mid, Hextet g) (hlength : mid.length = 6) :
      Accepted ([58].intercalate (first :: (mid ++ [last])))
        (zeroed first :: (mid ++ [zeroed last]))
  | gap (first last : Text) (l r : List Text) (hfirst : EndGroup first) (hlast : EndGroup last)
      (hl : ∀ g ∈ l, Hextet g) (hr : ∀ g ∈ r, Hextet g) (hlength : l.length + r.length ≤ 6) :
      Accepted ([58].intercalate (first :: (l ++ [] :: (r ++ [last]))))
        (zeroed first :: (l ++ List.replicate (6 - (l.length + r.length)) [48]
          ++ (r ++ [zeroed last])))

theorem fillEnds_of_notMem {s : Text} (h : (58 : Byte) ∉ s) : fillEnds s = s := by
  have hhead : s.head? ≠ some 58 := fun heq => h (List.mem_of_head? heq)
  have hlast : s.getLast? ≠ some 58 := fun heq => h (List.mem_of_getLast? heq)
  unfold fillEnds
  simp only [hhead, hlast, if_false]

theorem fillEnds_intercalate {first last : Text} {mid : List Text} (hfirst : (58 : Byte) ∉ first)
    (hlast : (58 : Byte) ∉ last) :
    fillEnds ([58].intercalate (first :: (mid ++ [last])))
      = [58].intercalate (zeroed first :: (mid ++ [zeroed last])) := by
  have hcut : ∀ a : Text, [58].intercalate (a :: (mid ++ [last]))
      = a ++ 58 :: [58].intercalate (mid ++ [last]) := by
    intro a
    rw [List.intercalate_cons_of_ne_nil (by simp), List.append_assoc, List.singleton_append]
  have hcut' : ∀ b : Text, [58].intercalate (zeroed first :: (mid ++ [b]))
      = [58].intercalate (zeroed first :: mid) ++ 58 :: b := by
    intro b
    rw [← List.cons_append, Joined.intercalate_append (List.cons_ne_nil _ _) (List.cons_ne_nil _ _),
      List.intercalate_singleton]
  have hhead : (if ([58].intercalate (first :: (mid ++ [last]))).head? = some 58
        then 48 :: [58].intercalate (first :: (mid ++ [last]))
        else [58].intercalate (first :: (mid ++ [last])))
      = [58].intercalate (zeroed first :: (mid ++ [last])) := by
    rw [hcut, hcut, zeroed]
    cases first with
    | nil => rfl
    | cons c first =>
      have hc : c ≠ 58 := fun heq => hfirst (heq ▸ List.mem_cons_self)
      rw [if_neg (by simpa using hc), if_neg (List.cons_ne_nil c first)]
  unfold fillEnds
  simp only [hhead]
  rw [hcut', hcut']
  generalize [58].intercalate (zeroed first :: mid) = t
  cases last using List.reverseRecOn with
  | nil => simp [zeroed]
  | append_singleton last c =>
    have hc : c ≠ 58 := fun heq => hlast (heq ▸ by simp)
    have hget : (t ++ 58 :: (last ++ [c])).getLast? = some c := by
      rw [← List.cons_append, ← List.append_assoc, List.getLast?_concat]
    have hzeroed : zeroed (last ++ [c]) = last ++ [c] := if_neg (by simp)
    rw [hget, hzeroed, if_neg fun heq => hc (Option.some.inj heq)]

/-! ## The double colon -/

theorem replaceDouble_cases (ins t : Text) :
    ¬ [58, 58] <:+: t
      ∨ ∃ a b, t = a ++ 58 :: 58 :: b ∧ replaceDouble ins t = a ++ (ins ++ b) := by
  fun_induction replaceDouble ins t with
  | case1 c d s hcd =>
    obtain ⟨rfl, rfl⟩ := hcd
    exact Or.inr ⟨[], s, rfl, rfl⟩
  | case2 c d s hcd ih =>
    rcases ih with hnone | ⟨a, b, hs, hreplace⟩
    · left
      intro hdouble
      rcases List.infix_cons_iff.mp hdouble with hstart | hrest
      · obtain ⟨rest, hrest⟩ := hstart
        cases hrest
        exact hcd ⟨rfl, rfl⟩
      · exact hnone hrest
    · exact Or.inr ⟨c :: a, b, by rw [hs, List.cons_append], by rw [hreplace, List.cons_append]⟩
  | case3 s hs =>
    left
    intro hdouble
    have hlength := hdouble.length_le
    match s, hs with
    | [], _ => exact absurd hlength (by decide)
    | [_], _ => exact absurd hlength (by simp)
    | c :: d :: s, hs => exact hs c d s rfl

theorem replaceDouble_append_of_notMem {ins a s : Text} (h : (58 : Byte) ∉ a) :
    replaceDouble ins (a ++ s) = a ++ replaceDouble ins s := by
  induction a with
  | nil => rfl
  | cons c a ih =>
    have hc : c ≠ 58 := fun heq => h (heq ▸ List.mem_cons_self)
    have hrest := ih fun hmem => h (List.mem_cons_of_mem c hmem)
    rw [List.cons_append]
    cases htail : a ++ s with
    | nil =>
      obtain ⟨rfl, rfl⟩ := List.append_eq_nil_iff.mp htail
      rfl
    | cons d t => rw [replaceDouble, if_neg fun hcd => hc hcd.1, ← htail, hrest, List.cons_append]

theorem replaceDouble_groups {ins b : Text} {l : List Text} (hne : l ≠ [])
    (hl : ∀ g ∈ l, Hextet g) :
    replaceDouble ins ([58].intercalate l ++ 58 :: 58 :: b) = [58].intercalate l ++ (ins ++ b) := by
  induction l with
  | nil => exact absurd rfl hne
  | cons g l ih =>
    have hg := hl g List.mem_cons_self
    cases l with
    | nil =>
      rw [List.intercalate_singleton, replaceDouble_append_of_notMem hg.colon_notMem]
      rfl
    | cons g' l =>
      have hrest := ih (List.cons_ne_nil g' l) fun k hk => hl k (List.mem_cons_of_mem g hk)
      have hg' := hl g' (List.mem_cons_of_mem g List.mem_cons_self)
      obtain ⟨c, t, hct⟩ : ∃ c t, [58].intercalate (g' :: l) ++ 58 :: 58 :: b = c :: t ∧ c ≠ 58 := by
        obtain ⟨c, g'', rfl⟩ := List.exists_cons_of_ne_nil hg'.ne_nil
        have hc : c ≠ 58 := fun heq => hg'.colon_notMem (heq ▸ List.mem_cons_self)
        cases l with
        | nil => exact ⟨c, g'' ++ 58 :: 58 :: b, by rw [List.intercalate_singleton]; rfl, hc⟩
        | cons g₂ l =>
          rw [List.intercalate_cons_cons]
          exact ⟨c, _, rfl, hc⟩
      rw [List.intercalate_cons_cons, List.append_assoc, List.append_assoc,
        replaceDouble_append_of_notMem hg.colon_notMem, List.singleton_append, hct.1,
        replaceDouble, if_neg fun hcd => hct.2 hcd.2, ← hct.1, hrest]
      simp only [List.append_assoc, List.cons_append, List.nil_append]

theorem zeros_append {r : List Text} (hr : r ≠ []) (k : Nat) :
    (List.replicate k [48, 58]).flatten ++ [58].intercalate r
      = [58].intercalate (List.replicate k [48] ++ r) := by
  induction k with
  | zero => rfl
  | succ k ih =>
    have hne : List.replicate k [48] ++ r ≠ [] := List.append_ne_nil_of_right_ne_nil _ hr
    have hcons : [48] :: List.replicate k [48] ++ r = [48] :: (List.replicate k [48] ++ r) := rfl
    rw [List.replicate_succ, List.replicate_succ, List.flatten_cons, List.append_assoc, ih, hcons,
      List.intercalate_cons_of_ne_nil hne]
    rfl

theorem expand_eq {l r : List Text} (hl : l ≠ []) (hr : r ≠ []) (k : Nat) :
    [58].intercalate l ++ (58 :: (List.replicate k [48, 58]).flatten ++ [58].intercalate r)
      = [58].intercalate (l ++ List.replicate k [48] ++ r) := by
  have hne : List.replicate k [48] ++ r ≠ [] := List.append_ne_nil_of_right_ne_nil _ hr
  rw [List.cons_append, zeros_append hr, List.append_assoc, Joined.intercalate_append hl hne]

theorem intercalate_gap {l r : List Text} (hl : l ≠ []) (hr : r ≠ []) :
    [58].intercalate (l ++ [] :: r) = [58].intercalate l ++ 58 :: 58 :: [58].intercalate r := by
  rw [Joined.intercalate_append hl (List.cons_ne_nil _ _), List.intercalate_cons_of_ne_nil hr]
  rfl

theorem count_gap {l r : List Text} (hl : l ≠ []) (hr : r ≠ []) (hl' : ∀ g ∈ l, (58 : Byte) ∉ g)
    (hr' : ∀ g ∈ r, (58 : Byte) ∉ g) :
    ([58].intercalate l ++ 58 :: 58 :: [58].intercalate r).count 58 = l.length + r.length := by
  have hcl := Joined.count_intercalate hl hl'
  have hcr := Joined.count_intercalate hr hr'
  rw [List.count_append, List.count_cons_self, List.count_cons_self]
  omega

theorem expandDouble_gap {l r : List Text} (hl : l ≠ []) (hr : r ≠ []) (hl' : ∀ g ∈ l, Hextet g)
    (hr' : ∀ g ∈ r, Hextet g) :
    expandDouble ([58].intercalate (l ++ [] :: r))
      = [58].intercalate (l ++ List.replicate (8 - (l.length + r.length)) [48] ++ r) := by
  have hdouble : [58, 58] <:+: [58].intercalate l ++ 58 :: 58 :: [58].intercalate r :=
    ⟨[58].intercalate l, [58].intercalate r, by simp⟩
  have hcount := count_gap hl hr (fun g hg => (hl' g hg).colon_notMem)
    fun g hg => (hr' g hg).colon_notMem
  rw [intercalate_gap hl hr, expandDouble, if_pos hdouble]
  dsimp only
  rw [hcount, replaceDouble_groups hl hl', expand_eq hl hr]

theorem expandDouble_full {row : List Text} (hne : row ≠ []) (h : ∀ g ∈ row, Hextet g) :
    expandDouble ([58].intercalate row) = [58].intercalate row := by
  rw [expandDouble, if_neg]
  rintro ⟨a, b, hab⟩
  have hsplit := List.splitOn_intercalate 58 (fun g hg => (h g hg).colon_notMem) hne
  have htext : a ++ [58, 58] ++ b = a ++ 58 :: 58 :: b := by simp
  rw [← hab, htext, List.splitOn_append_cons_self, List.splitOn_cons_eq_if_modifyHead,
    if_pos (beq_self_eq_true _)] at hsplit
  have hnil : ([] : Text) ∈ row := by
    rw [← hsplit]
    simp
  exact (h [] hnil).ne_nil rfl

/-- What is eight groups with the zeros was eight groups, or had a double colon
between at most eight. -/
theorem expandDouble_eq {t : Text} {groups : List Text} (hlength : groups.length = 8)
    (hgroups : ∀ g ∈ groups, Hextet g) (h : expandDouble t = [58].intercalate groups) :
    t = [58].intercalate groups
      ∨ ∃ l r, l ≠ [] ∧ r ≠ [] ∧ t = [58].intercalate (l ++ [] :: r)
        ∧ groups = l ++ List.replicate (8 - (l.length + r.length)) [48] ++ r := by
  rcases replaceDouble_cases (58 :: (List.replicate (8 - t.count 58) [48, 58]).flatten) t with
    hnone | ⟨a, b, ht, hreplace⟩
  · left
    rwa [expandDouble, if_neg hnone] at h
  · right
    have hdouble : [58, 58] <:+: t := ⟨a, b, by rw [ht]; simp⟩
    have hla := List.splitOn_ne_nil (58 : Byte) a
    have hrb := List.splitOn_ne_nil (58 : Byte) b
    have ha : [58].intercalate (a.splitOn 58) = a := List.intercalate_splitOn 58
    have hb : [58].intercalate (b.splitOn 58) = b := List.intercalate_splitOn 58
    have hmema : ∀ g ∈ a.splitOn 58, (58 : Byte) ∉ g := fun g hg => Joined.notMem_of_mem_splitOn hg
    have hmemb : ∀ g ∈ b.splitOn 58, (58 : Byte) ∉ g := fun g hg => Joined.notMem_of_mem_splitOn hg
    have hcount := count_gap hla hrb hmema hmemb
    rw [ha, hb, ← ht] at hcount
    refine ⟨a.splitOn 58, b.splitOn 58, hla, hrb, ?_, ?_⟩
    · rw [intercalate_gap hla hrb, ha, hb, ht]
    · rw [expandDouble, if_pos hdouble] at h
      dsimp only at h
      have hexpand := expand_eq hla hrb (8 - ((a.splitOn 58).length + (b.splitOn 58).length))
      rw [ha, hb] at hexpand
      rw [hreplace, hcount, hexpand] at h
      refine (Joined.intercalate_inj (by simp) (by rintro rfl; cases hlength) ?_ ?_ h).symm
      · intro g hg
        rcases List.mem_append.mp hg with hg | hg
        · rcases List.mem_append.mp hg with hg | hg
          · exact hmema g hg
          · rw [List.eq_of_mem_replicate hg]
            decide
        · exact hmemb g hg
      · exact fun g hg => (hgroups g hg).colon_notMem

theorem accepted_of_row {first last : Text} {mid groups : List Text}
    (hlength : groups.length = 8) (hgroups : ∀ g ∈ groups, Hextet g)
    (h : zeroed first :: (mid ++ [zeroed last]) = groups) :
    Accepted ([58].intercalate (first :: (mid ++ [last]))) groups := by
  subst h
  refine Accepted.full first last mid ?_ ?_ ?_ ?_
  · exact hextet_zeroed_iff.mp (hgroups _ List.mem_cons_self)
  · exact hextet_zeroed_iff.mp (hgroups _ (by simp))
  · exact fun g hg => hgroups g (by simp [hg])
  · simp only [List.length_cons, List.length_append, List.length_nil] at hlength
    omega

theorem accepted_of_gap {first last : Text} {mid l r : List Text}
    (hlength : (l ++ List.replicate (8 - (l.length + r.length)) [48] ++ r).length = 8)
    (hl : ∀ g ∈ l, Hextet g) (hr : ∀ g ∈ r, Hextet g) (hl' : l ≠ []) (hr' : r ≠ [])
    (h : zeroed first :: (mid ++ [zeroed last]) = l ++ [] :: r) :
    Accepted ([58].intercalate (first :: (mid ++ [last])))
      (l ++ List.replicate (8 - (l.length + r.length)) [48] ++ r) := by
  obtain ⟨x, l, rfl⟩ := List.exists_cons_of_ne_nil hl'
  cases r using List.reverseRecOn with
  | nil => exact absurd rfl hr'
  | append_singleton r y =>
    rw [List.cons_append] at h
    obtain ⟨hx, hrest⟩ := List.cons.inj h
    have hcut : mid ++ [zeroed last] = (l ++ [] :: r) ++ [y] := by
      rw [hrest]
      simp
    obtain ⟨rfl, hy⟩ := List.append_inj' hcut rfl
    obtain rfl := (List.cons.inj hy).1
    subst hx
    simp only [List.length_cons, List.length_append, List.length_replicate, List.length_nil]
      at hlength
    have hzeros : 8 - ((zeroed first :: l).length + (r ++ [zeroed last]).length)
        = 6 - (l.length + r.length) := by
      simp only [List.length_cons, List.length_append, List.length_nil]
      omega
    have htext : first :: (l ++ [] :: r ++ [last]) = first :: (l ++ [] :: (r ++ [last])) := by simp
    rw [hzeros, htext, List.cons_append, List.cons_append]
    refine Accepted.gap first last l r ?_ ?_ ?_ ?_ (by omega)
    · exact hextet_zeroed_iff.mp (hl _ List.mem_cons_self)
    · exact hextet_zeroed_iff.mp (hr _ (by simp))
    · exact fun g hg => hl g (List.mem_cons_of_mem _ hg)
    · exact fun g hg => hr g (by simp [hg])

theorem accepted_of_expand {s : Text} {groups : List Text} (hlength : groups.length = 8)
    (hgroups : ∀ g ∈ groups, Hextet g)
    (h : expandDouble (fillEnds s) = [58].intercalate groups) : Accepted s groups := by
  obtain ⟨p, P, hP⟩ := List.exists_cons_of_ne_nil (List.splitOn_ne_nil (58 : Byte) s)
  have hs : [58].intercalate (p :: P) = s := by rw [← hP, List.intercalate_splitOn]
  have hmem : ∀ g ∈ p :: P, (58 : Byte) ∉ g := by
    intro g hg
    exact Joined.notMem_of_mem_splitOn (hP ▸ hg)
  have hcolon : ∀ g ∈ groups, (58 : Byte) ∉ g := fun g hg => (hgroups g hg).colon_notMem
  have hne : groups ≠ [] := by
    rintro rfl
    cases hlength
  cases P using List.reverseRecOn with
  | nil =>
    -- a text without a colon is one group
    have hp := hmem p List.mem_cons_self
    have hnone : ¬ [58, 58] <:+: p := fun hdouble => hp (hdouble.subset List.mem_cons_self)
    have hcount := Joined.count_intercalate hne hcolon
    rw [List.intercalate_singleton] at hs
    rw [← hs, fillEnds_of_notMem hp] at h
    rw [← h, expandDouble, if_neg hnone, List.count_eq_zero_of_not_mem hp, hlength] at hcount
    cases hcount
  | append_singleton mid last =>
    have hfirst := hmem p List.mem_cons_self
    have hlast := hmem last (by simp)
    have hzeroed : ∀ g ∈ zeroed p :: (mid ++ [zeroed last]), (58 : Byte) ∉ g := by
      intro g hg
      rcases List.mem_cons.mp hg with rfl | hg
      · exact colon_notMem_zeroed hfirst
      · rcases List.mem_append.mp hg with hg | hg
        · exact hmem g (by simp [hg])
        · rw [List.mem_singleton.mp hg]
          exact colon_notMem_zeroed hlast
    rw [← hs, fillEnds_intercalate hfirst hlast] at h
    rw [← hs]
    rcases expandDouble_eq hlength hgroups h with heq | ⟨l, r, hl, hr, heq, hrow⟩
    · exact accepted_of_row hlength hgroups
        (Joined.intercalate_inj (List.cons_ne_nil _ _) hne hzeroed hcolon heq)
    · subst hrow
      have hl' : ∀ g ∈ l, Hextet g := fun g hg => hgroups g (by simp [hg])
      have hr' : ∀ g ∈ r, Hextet g := fun g hg => hgroups g (by simp [hg])
      refine accepted_of_gap hlength hl' hr' hl hr ?_
      refine Joined.intercalate_inj (List.cons_ne_nil _ _) (by simp) hzeroed ?_ heq
      intro g hg
      rcases List.mem_append.mp hg with hg | hg
      · exact (hl' g hg).colon_notMem
      · rcases List.mem_cons.mp hg with rfl | hg
        · exact List.not_mem_nil
        · exact (hr' g hg).colon_notMem

theorem match_eq_some_iff {s : Text} {groups : List Text} :
    matchAll (fields hextet 58 8) (expandDouble (fillEnds s)) = some groups
      ↔ Accepted s groups := by
  rw [matchAll_fields_eq_some_iff (by decide : hextet.cls 58 = false)]
  constructor
  · rintro ⟨hlength, hgroups, h⟩
    exact accepted_of_expand hlength hgroups h
  · intro h
    cases h with
    | full first last mid hfirst hlast hmid hlength =>
      have hrow : ∀ g ∈ zeroed first :: (mid ++ [zeroed last]), Hextet g := by
        intro g hg
        rcases List.mem_cons.mp hg with rfl | hg
        · exact hextet_zeroed_iff.mpr hfirst
        · rcases List.mem_append.mp hg with hg | hg
          · exact hmid g hg
          · rw [List.mem_singleton.mp hg]
            exact hextet_zeroed_iff.mpr hlast
      refine ⟨?_, hrow, ?_⟩
      · simp only [List.length_cons, List.length_append, List.length_nil]
        omega
      · rw [fillEnds_intercalate hfirst.colon_notMem hlast.colon_notMem,
          expandDouble_full (List.cons_ne_nil _ _) hrow]
    | gap first last l r hfirst hlast hl hr hlength =>
      have hl' : ∀ g ∈ zeroed first :: l, Hextet g :=
        List.forall_mem_cons.mpr ⟨hextet_zeroed_iff.mpr hfirst, hl⟩
      have hr' : ∀ g ∈ r ++ [zeroed last], Hextet g := by
        intro g hg
        rcases List.mem_append.mp hg with hg | hg
        · exact hr g hg
        · rw [List.mem_singleton.mp hg]
          exact hextet_zeroed_iff.mpr hlast
      have hzeros : 8 - ((zeroed first :: l).length + (r ++ [zeroed last]).length)
          = 6 - (l.length + r.length) := by
        simp only [List.length_cons, List.length_append, List.length_nil]
        omega
      have hfill := @fillEnds_intercalate first last (l ++ [] :: r) hfirst.colon_notMem
        hlast.colon_notMem
      have hexpand := expandDouble_gap (List.cons_ne_nil _ _) (by simp) hl' hr'
      rw [hzeros] at hexpand
      simp only [List.append_assoc, List.cons_append] at hfill hexpand ⊢
      refine ⟨?_, ?_, ?_⟩
      · simp only [List.length_cons, List.length_append, List.length_replicate, List.length_nil]
        omega
      · intro g hg
        rcases List.mem_cons.mp hg with rfl | hg
        · exact hextet_zeroed_iff.mpr hfirst
        · rcases List.mem_append.mp hg with hg | hg
          · exact hl g hg
          · rcases List.mem_append.mp hg with hg | hg
            · rw [List.eq_of_mem_replicate hg]
              exact hextet_zero
            · exact hr' g hg
      · rw [hfill, hexpand]

theorem Accepted.hextets {s : Text} {groups : List Text} (h : Accepted s groups) :
    groups.length = 8 ∧ ∀ g ∈ groups, Hextet g := by
  obtain ⟨hlength, hgroups, -⟩ := (matchAll_fields_eq_some_iff
    (by decide : hextet.cls 58 = false)).mp (match_eq_some_iff.mpr h)
  exact ⟨hlength, hgroups⟩

theorem accepted_row {row : List Text} (hlength : row.length = 8) (hrow : ∀ g ∈ row, Hextet g) :
    Accepted ([58].intercalate row) row := by
  obtain ⟨first, rest, rfl⟩ := List.exists_cons_of_length_eq_add_one hlength
  cases rest using List.reverseRecOn with
  | nil => cases hlength
  | append_singleton mid last =>
    refine accepted_of_row hlength hrow ?_
    rw [zeroed_of_hextet (hrow first List.mem_cons_self), zeroed_of_hextet (hrow last (by simp))]

/-! ## Groups as they are written -/

/-- Four digits in lower case. -/
def normalGroup (g : Text) : Text := lowerText (padGroup g)

/-- Eight groups of four lower-case digits. -/
structure CanonicalRow (row : List Text) : Prop where
  length : row.length = 8
  length_group : ∀ g ∈ row, g.length = 4
  lower : ∀ g ∈ row, ∀ c ∈ g, isLowerHex c = true

theorem lowerText_intercalate (row : List Text) :
    lowerText ([58].intercalate row) = [58].intercalate (row.map lowerText) := by
  induction row with
  | nil => rfl
  | cons g row ih =>
    cases row with
    | nil => rw [List.intercalate_singleton, List.map_cons, List.map_nil, List.intercalate_singleton]
    | cons g' row =>
      rw [List.intercalate_cons_cons, List.map_cons, List.map_cons, List.intercalate_cons_cons,
        ← List.map_cons, ← ih]
      unfold lowerText
      rw [List.map_append, List.map_append]
      rfl

/-- `lower` on a byte. -/
theorem lowerText_cons (c : Byte) (s : Text) :
    lowerText (c :: s)
      = (if 65 ≤ c.val ∧ c.val ≤ 90 then Fin.ofNat 256 (c.val + 32) else c) :: lowerText s := rfl

theorem lower_hex {c : Byte} (h : isHex c = true) :
    isLowerHex (if 65 ≤ c.val ∧ c.val ≤ 90 then Fin.ofNat 256 (c.val + 32) else c) = true
      ∧ hexValue (if 65 ≤ c.val ∧ c.val ≤ 90 then Fin.ofNat 256 (c.val + 32) else c)
        = hexValue c := by
  simp only [isHex, decide_eq_true_eq] at h
  split
  · rename_i hupper
    have hval : (Fin.ofNat 256 (c.val + 32)).val = c.val + 32 := Nat.mod_eq_of_lt (by omega)
    simp only [isLowerHex, hexValue, hval, decide_eq_true_eq]
    refine ⟨by omega, ?_⟩
    rw [if_neg (by omega), if_neg (by omega), if_neg (by omega), if_pos (by omega)]
    omega
  · simp only [isLowerHex, decide_eq_true_eq]
    exact ⟨by omega, trivial⟩

theorem lower_of_isLowerHex {c : Byte} (h : isLowerHex c = true) :
    (if 65 ≤ c.val ∧ c.val ≤ 90 then Fin.ofNat 256 (c.val + 32) else c) = c := by
  simp only [isLowerHex, decide_eq_true_eq] at h
  rw [if_neg (by omega)]

theorem lowerText_of_lower {s : Text} (h : ∀ c ∈ s, isLowerHex c = true) : lowerText s = s := by
  induction s with
  | nil => rfl
  | cons c s ih =>
    rw [lowerText_cons, lower_of_isLowerHex (h c List.mem_cons_self),
      ih fun d hd => h d (List.mem_cons_of_mem c hd)]

theorem isLowerHex_of_mem_lowerText {s : Text} (h : ∀ c ∈ s, isHex c = true) :
    ∀ c ∈ lowerText s, isLowerHex c = true := by
  intro c hc
  obtain ⟨d, hd, rfl⟩ := List.mem_map.mp hc
  exact (lower_hex (h d hd)).1

theorem hexNumber_lowerText {s : Text} (h : ∀ c ∈ s, isHex c = true) :
    hexNumber (lowerText s) = hexNumber s := by
  unfold hexNumber lowerText
  rw [List.foldl_map]
  generalize 0 = n
  induction s generalizing n with
  | nil => rfl
  | cons c s ih =>
    rw [List.foldl_cons, List.foldl_cons, (lower_hex (h c List.mem_cons_self)).2]
    exact ih (fun d hd => h d (List.mem_cons_of_mem c hd)) _

theorem hexNumber_padGroup (g : Text) : hexNumber (padGroup g) = hexNumber g := by
  unfold hexNumber padGroup
  rw [List.foldl_append]
  congr 1
  generalize 4 - g.length = k
  induction k with
  | zero => rfl
  | succ k ih =>
    rw [List.replicate_succ, List.foldl_cons]
    exact ih

theorem isHex_of_mem_padGroup {g : Text} (h : Hextet g) : ∀ c ∈ padGroup g, isHex c = true := by
  intro c hc
  rcases List.mem_append.mp hc with hc | hc
  · rw [List.eq_of_mem_replicate hc]
    decide
  · exact (hextet_iff.mp h).1 c hc

theorem hexNumber_normalGroup {g : Text} (h : Hextet g) :
    hexNumber (normalGroup g) = hexNumber g := by
  rw [normalGroup, hexNumber_lowerText (isHex_of_mem_padGroup h), hexNumber_padGroup]

theorem canonicalRow_map {groups : List Text} (hlength : groups.length = 8)
    (hgroups : ∀ g ∈ groups, Hextet g) : CanonicalRow (groups.map normalGroup) := by
  refine ⟨by rw [List.length_map, hlength], ?_, ?_⟩
  · intro g hg
    obtain ⟨g, hmem, rfl⟩ := List.mem_map.mp hg
    have hle := (hextet_iff.mp (hgroups g hmem)).2.2
    simp only [normalGroup, lowerText, padGroup, List.length_map, List.length_append,
      List.length_replicate]
    omega
  · intro g hg
    obtain ⟨g, hmem, rfl⟩ := List.mem_map.mp hg
    exact isLowerHex_of_mem_lowerText (isHex_of_mem_padGroup (hgroups g hmem))

theorem CanonicalRow.hextet {row : List Text} (h : CanonicalRow row) : ∀ g ∈ row, Hextet g := by
  intro g hg
  have hlength := h.length_group g hg
  exact hextet_iff.mpr ⟨fun c hc => isHex_of_isLowerHex (h.lower g hg c hc), by omega, by omega⟩

theorem CanonicalRow.map_normalGroup {row : List Text} (h : CanonicalRow row) :
    row.map normalGroup = row := by
  refine (List.map_congr_left fun g hg => ?_).trans (List.map_id row)
  have hpad : padGroup g = g := by
    rw [padGroup, h.length_group g hg]
    rfl
  rw [normalGroup, hpad, lowerText_of_lower (h.lower g hg), id_eq]

theorem normalizeGroups_eq_ok_iff {address check host : Text} {port port' : Option Nat} :
    normalizeGroups address check port = .ok (host, port')
      ↔ ∃ groups, Accepted check groups ∧ host = [58].intercalate (groups.map normalGroup)
        ∧ port' = port := by
  have hwrite : ∀ groups : List Text, lowerText ([58].intercalate (groups.map padGroup))
      = [58].intercalate (groups.map normalGroup) := by
    intro groups
    rw [lowerText_intercalate, List.map_map]
    rfl
  unfold normalizeGroups
  constructor
  · intro h
    split at h
    · cases h
    · rename_i groups hmatch
      cases h
      exact ⟨groups, match_eq_some_iff.mp hmatch, hwrite groups, rfl⟩
  · rintro ⟨groups, hgroups, rfl, rfl⟩
    rw [match_eq_some_iff.mpr hgroups]
    simp only [hwrite]

end KongGateway.Kong.Tools.Ip

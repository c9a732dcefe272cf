import KongGateway.Kong.Tools.Ip.Groups

/-!
# Ip — textual IPv6 addresses

The textual addresses are eight groups of hexadecimal digits, or fewer
with one double colon for at least one group. `normalize_ipv6` takes them
all and spells the same address, and it takes others: a single colon at
an end, with a zero read there, and a double colon that stands for no
group.
-/

namespace KongGateway.Kong.Tools.Ip

open Bytes Numerals LuaPattern

/-- The 128-bit number of eight groups. -/
def addressOf (row : List Text) : Nat := row.foldl (fun n g => n * 65536 + hexNumber g) 0

/-- The texts of addresses, each with its number. -/
inductive Textual : Text → Nat → Prop where
  | full (row : List Text) (hrow : ∀ g ∈ row, Hextet g) (hlength : row.length = 8) :
      Textual ([58].intercalate row) (addressOf row)
  | gap (l r : List Text) (hl : ∀ g ∈ l, Hextet g) (hr : ∀ g ∈ r, Hextet g)
      (hlength : l.length + r.length ≤ 7) :
      Textual ([58].intercalate l ++ [58, 58] ++ [58].intercalate r)
        (addressOf (l ++ List.replicate (8 - (l.length + r.length)) [48] ++ r))

/-- A number in eight groups of four lower-case digits. -/
def Spells (host : Text) (n : Nat) : Prop :=
  ∃ row, CanonicalRow row ∧ host = [58].intercalate row ∧ addressOf row = n

/-- What a text is taken for is what it is. -/
def Exact (s : Text) : Prop :=
  ((∃ result, normalizeIpv6 s = .ok (.ok result)) ↔ ∃ n, Textual s n)
    ∧ ∀ host port n, normalizeIpv6 s = .ok (.ok (host, port)) → Textual s n → Spells host n

/-- Eight groups with nothing at an end, or groups around a double colon, with
nothing at the far end of them or with eight of them. -/
inductive Overread : Text → Prop where
  | full (first last : Text) (mid : List Text) (hfirst : EndGroup first) (hlast : EndGroup last)
      (hmid : ∀ g ∈ mid, Hextet g) (hlength : mid.length = 6) (hend : first = [] ∨ last = []) :
      Overread ([58].intercalate (first :: (mid ++ [last])))
  | gap (first last : Text) (l r : List Text) (hfirst : EndGroup first) (hlast : EndGroup last)
      (hl : ∀ g ∈ l, Hextet g) (hr : ∀ g ∈ r, Hextet g) (hlength : l.length + r.length ≤ 6)
      (hend : (first = [] ∧ l ≠ []) ∨ (last = [] ∧ r ≠ [])
        ∨ (first ≠ [] ∧ last ≠ [] ∧ l.length + r.length = 6)) :
      Overread ([58].intercalate (first :: (l ++ [] :: (r ++ [last]))))

/-! ## Textual addresses are taken -/

theorem addressOf_normalGroup {groups : List Text} (h : ∀ g ∈ groups, Hextet g) :
    addressOf (groups.map normalGroup) = addressOf groups := by
  unfold addressOf
  rw [List.foldl_map]
  generalize 0 = n
  induction groups generalizing n with
  | nil => rfl
  | cons g groups ih =>
    rw [List.foldl_cons, List.foldl_cons, hexNumber_normalGroup (h g List.mem_cons_self)]
    exact ih (fun k hk => h k (List.mem_cons_of_mem g hk)) _

theorem normalizeIpv6_eq_ok_iff {s host : Text} {port : Option Nat} (h : (91 : Byte) ∉ s) :
    normalizeIpv6 s = .ok (.ok (host, port))
      ↔ ∃ groups, Accepted s groups ∧ host = [58].intercalate (groups.map normalGroup)
        ∧ port = none := by
  rw [normalizeIpv6, bracketed_of_notMem h, ← @normalizeGroups_eq_ok_iff s]
  exact ⟨fun heq => Except.ok.inj heq, fun heq => congrArg Except.ok heq⟩

theorem exists_left (l : List Text) (hl : ∀ g ∈ l, Hextet g) :
    ∃ first l', EndGroup first ∧ (∀ g ∈ l', Hextet g)
      ∧ [58].intercalate (first :: l') = [58].intercalate l
      ∧ ((l = [] ∧ first = [] ∧ l' = []) ∨ (l = first :: l' ∧ Hextet first)) := by
  cases l with
  | nil => exact ⟨[], [], Or.inl rfl, hl, rfl, Or.inl ⟨rfl, rfl, rfl⟩⟩
  | cons first l' =>
    obtain ⟨hfirst, hl'⟩ := List.forall_mem_cons.mp hl
    exact ⟨first, l', Or.inr hfirst, hl', rfl, Or.inr ⟨rfl, hfirst⟩⟩

theorem exists_right (r : List Text) (hr : ∀ g ∈ r, Hextet g) :
    ∃ last r', EndGroup last ∧ (∀ g ∈ r', Hextet g)
      ∧ [58].intercalate (r' ++ [last]) = [58].intercalate r
      ∧ ((r = [] ∧ last = [] ∧ r' = []) ∨ (r = r' ++ [last] ∧ Hextet last)) := by
  cases r using List.reverseRecOn with
  | nil => exact ⟨[], [], Or.inl rfl, hr, rfl, Or.inl ⟨rfl, rfl, rfl⟩⟩
  | append_singleton r' last =>
    have hlast := hr last (by simp)
    exact ⟨last, r', Or.inr hlast, fun g hg => hr g (by simp [hg]), rfl, Or.inr ⟨rfl, hlast⟩⟩

theorem gap_groups {first last : Text} {l r l' r' : List Text}
    (hleft : (l = [] ∧ first = [] ∧ l' = []) ∨ (l = first :: l' ∧ Hextet first))
    (hright : (r = [] ∧ last = [] ∧ r' = []) ∨ (r = r' ++ [last] ∧ Hextet last))
    (hlength : l.length + r.length ≤ 7) :
    l'.length + r'.length ≤ 6
      ∧ zeroed first :: (l' ++ List.replicate (6 - (l'.length + r'.length)) [48]
          ++ (r' ++ [zeroed last]))
        = l ++ List.replicate (8 - (l.length + r.length)) [48] ++ r := by
  rcases hleft with ⟨rfl, rfl, rfl⟩ | ⟨rfl, hfirst⟩
  · rcases hright with ⟨rfl, rfl, rfl⟩ | ⟨rfl, hlast⟩
    · exact ⟨by decide, rfl⟩
    · simp only [List.length_nil, List.length_append, List.length_cons, Nat.zero_add] at hlength ⊢
      have hcount : 8 - (r'.length + 1) = 6 - r'.length + 1 := by omega
      refine ⟨by omega, ?_⟩
      rw [zeroed_of_hextet hlast, hcount, List.replicate_succ]
      rfl
  · rcases hright with ⟨rfl, rfl, rfl⟩ | ⟨rfl, hlast⟩
    · simp only [List.length_nil, List.length_cons, Nat.add_zero] at hlength ⊢
      have hcount : 8 - (l'.length + 1) = 6 - l'.length + 1 := by omega
      refine ⟨by omega, ?_⟩
      rw [zeroed_of_hextet hfirst, hcount, List.replicate_succ', List.append_nil,
        List.nil_append, List.cons_append, List.append_assoc]
      rfl
    · simp only [List.length_append, List.length_cons, List.length_nil] at hlength ⊢
      have hcount : 8 - (l'.length + 1 + (r'.length + 1)) = 6 - (l'.length + r'.length) := by omega
      refine ⟨by omega, ?_⟩
      rw [zeroed_of_hextet hfirst, zeroed_of_hextet hlast, hcount]
      rfl

theorem Textual.accepted {s : Text} {n : Nat} (h : Textual s n) :
    ∃ groups, Accepted s groups ∧ addressOf groups = n := by
  cases h with
  | full row hrow hlength => exact ⟨row, accepted_row hlength hrow, rfl⟩
  | gap l r hl hr hlength =>
    obtain ⟨first, l', hfirst, hl', hleft, hcase⟩ := exists_left l hl
    obtain ⟨last, r', hlast, hr', hright, hcase'⟩ := exists_right r hr
    obtain ⟨hle, hgroups⟩ := gap_groups hcase hcase' hlength
    have htext : [58].intercalate l ++ [58, 58] ++ [58].intercalate r
        = [58].intercalate (first :: (l' ++ [] :: (r' ++ [last]))) := by
      rw [← hleft, ← hright, ← List.cons_append, intercalate_gap (List.cons_ne_nil _ _) (by simp)]
      simp
    exact ⟨_, htext ▸ Accepted.gap first last l' r' hfirst hlast hl' hr' hle,
      congrArg addressOf hgroups⟩

/-! ## The others are overread -/

theorem exists_start {first : Text} {l : List Text} (hfirst : EndGroup first)
    (hl : ∀ g ∈ l, Hextet g) (h : first = [] → l = []) :
    ∃ l', (∀ g ∈ l', Hextet g) ∧ [58].intercalate l' = [58].intercalate (first :: l)
      ∧ ((l'.length = 0 ∧ first = []) ∨ (l'.length = l.length + 1 ∧ first ≠ [])) := by
  by_cases hf : first = []
  · rw [hf, h hf]
    exact ⟨[], fun g hg => absurd hg List.not_mem_nil, rfl, Or.inl ⟨rfl, rfl⟩⟩
  · exact ⟨first :: l, List.forall_mem_cons.mpr ⟨hfirst.resolve_left hf, hl⟩, rfl,
      Or.inr ⟨rfl, hf⟩⟩

theorem exists_end {last : Text} {r : List Text} (hlast : EndGroup last)
    (hr : ∀ g ∈ r, Hextet g) (h : last = [] → r = []) :
    ∃ r', (∀ g ∈ r', Hextet g) ∧ [58].intercalate r' = [58].intercalate (r ++ [last])
      ∧ ((r'.length = 0 ∧ last = []) ∨ (r'.length = r.length + 1 ∧ last ≠ [])) := by
  by_cases he : last = []
  · rw [he, h he]
    exact ⟨[], fun g hg => absurd hg List.not_mem_nil, rfl, Or.inl ⟨rfl, rfl⟩⟩
  · refine ⟨r ++ [last], ?_, rfl, Or.inr ⟨by simp, he⟩⟩
    intro g hg
    rcases List.mem_append.mp hg with hg | hg
    · exact hr g hg
    · rw [List.mem_singleton.mp hg]
      exact hlast.resolve_left he

theorem Accepted.textual_or_overread {s : Text} {groups : List Text} (h : Accepted s groups) :
    (∃ n, Textual s n) ∨ Overread s := by
  cases h with
  | full first last mid hfirst hlast hmid hlength =>
    by_cases hend : first = [] ∨ last = []
    · exact Or.inr (Overread.full first last mid hfirst hlast hmid hlength hend)
    · push Not at hend
      left
      refine ⟨_, Textual.full (first :: (mid ++ [last])) ?_ ?_⟩
      · intro g hg
        rcases List.mem_cons.mp hg with rfl | hg
        · exact hfirst.resolve_left hend.1
        · rcases List.mem_append.mp hg with hg | hg
          · exact hmid g hg
          · rw [List.mem_singleton.mp hg]
            exact hlast.resolve_left hend.2
      · simp only [List.length_cons, List.length_append, List.length_nil]
        omega
  | gap first last l r hfirst hlast hl hr hlength =>
    by_cases hend : (first = [] ∧ l ≠ []) ∨ (last = [] ∧ r ≠ [])
        ∨ (first ≠ [] ∧ last ≠ [] ∧ l.length + r.length = 6)
    · exact Or.inr (Overread.gap first last l r hfirst hlast hl hr hlength hend)
    · left
      push Not at hend
      obtain ⟨hstart, hstop, hfull⟩ := hend
      obtain ⟨l', hl', htextl, hlenl⟩ := exists_start hfirst hl hstart
      obtain ⟨r', hr', htextr, hlenr⟩ := exists_end hlast hr hstop
      have hle : l'.length + r'.length ≤ 7 := by
        rcases hlenl with ⟨hnil, -⟩ | ⟨hsucc, hf⟩
        · rcases hlenr with ⟨hnil', -⟩ | ⟨hsucc', -⟩ <;> omega
        · rcases hlenr with ⟨hnil', -⟩ | ⟨hsucc', he⟩
          · omega
          · have hne := hfull hf he
            omega
      have htext : [58].intercalate l' ++ [58, 58] ++ [58].intercalate r'
          = [58].intercalate (first :: (l ++ [] :: (r ++ [last]))) := by
        rw [htextl, htextr, ← List.cons_append, intercalate_gap (List.cons_ne_nil _ _) (by simp)]
        simp
      exact ⟨_, htext ▸ Textual.gap l' r' hl' hr' hle⟩

theorem head_hextet {g : Text} (hg : Hextet g) (row : List Text) :
    ∃ c, ([58].intercalate (g :: row)).head? = some c ∧ c ≠ 58 := by
  obtain ⟨c, hc⟩ := Option.ne_none_iff_exists'.mp (mt List.head?_eq_none_iff.mp hg.ne_nil)
  refine ⟨c, by rw [Joined.head?_intercalate hg.ne_nil, hc], ?_⟩
  rintro rfl
  exact hg.colon_notMem (List.mem_of_head? hc)

theorem last_hextet {g : Text} (hg : Hextet g) (row : List Text) :
    ∃ c, ([58].intercalate (row ++ [g])).getLast? = some c ∧ c ≠ 58 := by
  obtain ⟨c, hc⟩ := Option.ne_none_iff_exists'.mp (mt List.getLast?_eq_none_iff.mp hg.ne_nil)
  refine ⟨c, by rw [Joined.getLast?_intercalate hg.ne_nil, hc], ?_⟩
  rintro rfl
  exact hg.colon_notMem (List.mem_of_getLast? hc)

theorem Textual.start {s : Text} {n : Nat} (h : Textual s n) (hs : s.head? = some 58) :
    ∃ t, s = 58 :: 58 :: t := by
  cases h with
  | full row hgroups hlength =>
    obtain ⟨g, row, rfl⟩ := List.exists_cons_of_length_eq_add_one hlength
    obtain ⟨c, hc, hne⟩ := head_hextet (hgroups g List.mem_cons_self) row
    exact absurd (Option.some.inj (hc.symm.trans hs)) hne
  | gap l r hl hr hlength =>
    cases l with
    | nil => exact ⟨[58].intercalate r, rfl⟩
    | cons g l =>
      obtain ⟨c, hc, hne⟩ := head_hextet (hl g List.mem_cons_self) l
      rw [List.append_assoc, List.head?_append, hc, Option.some_or] at hs
      exact absurd (Option.some.inj hs) hne

theorem Textual.stop {s : Text} {n : Nat} (h : Textual s n) (hs : s.getLast? = some 58) :
    ∃ t, s = t ++ [58, 58] := by
  cases h with
  | full row hgroups hlength =>
    cases row using List.reverseRecOn with
    | nil => cases hlength
    | append_singleton row g =>
      obtain ⟨c, hc, hne⟩ := last_hextet (hgroups g (by simp)) row
      exact absurd (Option.some.inj (hc.symm.trans hs)) hne
  | gap l r hl hr hlength =>
    cases r using List.reverseRecOn with
    | nil => exact ⟨[58].intercalate l, List.append_nil _⟩
    | append_singleton r g =>
      obtain ⟨c, hc, hne⟩ := last_hextet (hr g (by simp)) r
      rw [List.getLast?_append, hc, Option.some_or] at hs
      exact absurd (Option.some.inj hs) hne

theorem Textual.count {s : Text} {n : Nat} (h : Textual s n) (hstart : s.head? ≠ some 58)
    (hstop : s.getLast? ≠ some 58) : s.count 58 ≤ 7 := by
  cases h with
  | full row hgroups hlength =>
    have hne : row ≠ [] := by
      rintro rfl
      cases hlength
    have hcount := Joined.count_intercalate hne fun g hg => (hgroups g hg).colon_notMem
    omega
  | gap l r hl hr hlength =>
    have hnel : l ≠ [] := by
      rintro rfl
      exact hstart rfl
    have hner : r ≠ [] := by
      rintro rfl
      refine hstop ?_
      rw [List.intercalate_nil, List.append_nil, List.getLast?_append]
      rfl
    have hcount := count_gap hnel hner (fun g hg => (hl g hg).colon_notMem)
      fun g hg => (hr g hg).colon_notMem
    rw [List.append_assoc]
    exact hcount.le.trans hlength

/-- Behind an empty group at the start a group is not the text of an address. -/
theorem not_textual_of_start {g : Text} (hg : Hextet g) (row : List Text) (n : Nat) :
    ¬ Textual ([58].intercalate ([] :: g :: row)) n := by
  intro h
  obtain ⟨c, hc, hne⟩ := head_hextet hg row
  rw [List.intercalate_cons_cons, List.nil_append, List.singleton_append] at h
  obtain ⟨t, ht⟩ := h.start rfl
  rw [(List.cons.inj ht).2] at hc
  exact hne (Option.some.inj hc).symm

theorem not_textual_of_stop {g : Text} (hg : Hextet g) (row : List Text) (n : Nat) :
    ¬ Textual ([58].intercalate (row ++ [g] ++ [[]])) n := by
  intro h
  obtain ⟨c, hc, hne⟩ := last_hextet hg row
  rw [Joined.intercalate_append (by simp) (List.cons_ne_nil _ _), List.intercalate_singleton] at h
  obtain ⟨t, ht⟩ := h.stop (by simp)
  have hcut : [58].intercalate (row ++ [g]) ++ [58] = (t ++ [58]) ++ [58] := by
    rw [ht]
    simp
  rw [(List.append_inj' hcut rfl).1, List.getLast?_concat] at hc
  exact hne (Option.some.inj hc).symm

theorem Overread.not_textual {s : Text} (h : Overread s) : ¬ ∃ n, Textual s n := by
  rintro ⟨n, hn⟩
  cases h with
  | full first last mid hfirst hlast hmid hlength hend =>
    rcases hend with rfl | rfl
    · obtain ⟨g, mid, rfl⟩ := List.exists_cons_of_length_eq_add_one hlength
      exact not_textual_of_start (hmid g List.mem_cons_self) _ n hn
    · cases mid using List.reverseRecOn with
      | nil => cases hlength
      | append_singleton mid g => exact not_textual_of_stop (hmid g (by simp)) (first :: mid) n hn
  | gap first last l r hfirst hlast hl hr hlength hend =>
    rcases hend with ⟨rfl, hne⟩ | ⟨rfl, hne⟩ | ⟨hf, he, hfull⟩
    · obtain ⟨g, l, rfl⟩ := List.exists_cons_of_ne_nil hne
      exact not_textual_of_start (hl g List.mem_cons_self) _ n hn
    · cases r using List.reverseRecOn with
      | nil => exact absurd rfl hne
      | append_singleton r g =>
        have hrow : first :: (l ++ [] :: (r ++ [g] ++ [[]]))
            = (first :: (l ++ [] :: r)) ++ [g] ++ [[]] := by simp
        rw [hrow] at hn
        exact not_textual_of_stop (hr g (by simp)) _ n hn
    · have hfirst' := hfirst.resolve_left hf
      have hlast' := hlast.resolve_left he
      obtain ⟨c, hc, hne⟩ := head_hextet hfirst' (l ++ [] :: (r ++ [last]))
      obtain ⟨d, hd, hne'⟩ := last_hextet hlast' (first :: (l ++ [] :: r))
      have hrow : first :: (l ++ [] :: (r ++ [last])) = first :: (l ++ [] :: r) ++ [last] := by simp
      have hcount := hn.count (by rw [hc]; exact fun heq => hne (Option.some.inj heq))
        (by rw [hrow, hd]; exact fun heq => hne' (Option.some.inj heq))
      have hcolon : ∀ g ∈ first :: (l ++ [] :: r) ++ [last], (58 : Byte) ∉ g := by
        intro g hg
        simp only [List.cons_append, List.mem_cons, List.mem_append, List.append_assoc,
          List.not_mem_nil, or_false] at hg
        rcases hg with rfl | hg | rfl | hg | rfl
        · exact hfirst.colon_notMem
        · exact (hl g hg).colon_notMem
        · exact List.not_mem_nil
        · exact (hr g hg).colon_notMem
        · exact hlast.colon_notMem
      have hcount' := Joined.count_intercalate (by simp) hcolon
      rw [hrow] at hcount
      simp only [List.length_append, List.length_cons, List.length_nil] at hcount'
      omega

/-! ## When the text is read for what it is -/

theorem Overread.accepted {s : Text} (h : Overread s) : ∃ groups, Accepted s groups := by
  cases h with
  | full first last mid hfirst hlast hmid hlength hend =>
    exact ⟨_, Accepted.full first last mid hfirst hlast hmid hlength⟩
  | gap first last l r hfirst hlast hl hr hlength hend =>
    exact ⟨_, Accepted.gap first last l r hfirst hlast hl hr hlength⟩

theorem Overread.not_exact {s : Text} (h : Overread s) (hs : (91 : Byte) ∉ s) : ¬ Exact s := by
  rintro ⟨hiff, -⟩
  obtain ⟨groups, hgroups⟩ := h.accepted
  exact h.not_textual
    (hiff.mp ⟨_, (normalizeIpv6_eq_ok_iff hs).mpr ⟨groups, hgroups, rfl, rfl⟩⟩)

/-- A text without brackets is read for what it is unless it is overread. -/
theorem normalizeIpv6_exact_iff (s : Text) (hs : (91 : Byte) ∉ s ∧ (93 : Byte) ∉ s) :
    Exact s ↔ ¬ Overread s := by
  constructor
  · exact fun hexact hover => hover.not_exact hs.1 hexact
  · intro hover
    refine ⟨⟨?_, ?_⟩, ?_⟩
    · rintro ⟨⟨host, port⟩, hresult⟩
      obtain ⟨groups, hgroups, -, -⟩ := (normalizeIpv6_eq_ok_iff hs.1).mp hresult
      exact hgroups.textual_or_overread.resolve_right hover
    · rintro ⟨n, hn⟩
      obtain ⟨groups, hgroups, -⟩ := hn.accepted
      exact ⟨_, (normalizeIpv6_eq_ok_iff hs.1).mpr ⟨groups, hgroups, rfl, rfl⟩⟩
    · intro host port n hresult hn
      obtain ⟨groups, hgroups, rfl, -⟩ := (normalizeIpv6_eq_ok_iff hs.1).mp hresult
      obtain ⟨groups', hgroups', hnumber⟩ := hn.accepted
      have hsame : groups' = groups := by
        have hmatch := match_eq_some_iff.mpr hgroups
        rw [match_eq_some_iff.mpr hgroups'] at hmatch
        exact Option.some.inj hmatch
      subst hsame
      obtain ⟨hlength, hhextets⟩ := hgroups.hextets
      exact ⟨_, canonicalRow_map hlength hhextets, rfl,
        (addressOf_normalGroup hhextets).trans hnumber⟩

theorem normalizeIpv6_exact_loopback :
    ((91 : Byte) ∉ ofText "::1" ∧ (93 : Byte) ∉ ofText "::1")
      ∧ (Exact (ofText "::1") ↔ ¬ Overread (ofText "::1")) :=
  have h : (91 : Byte) ∉ ofText "::1" ∧ (93 : Byte) ∉ ofText "::1" := by decide
  ⟨h, normalizeIpv6_exact_iff _ h⟩

/-- `::1:` is taken although it ends with a single colon. -/
theorem trailing_colon_not_exact :
    ((91 : Byte) ∉ ofText "::1:" ∧ (93 : Byte) ∉ ofText "::1:") ∧ ¬ Exact (ofText "::1:") := by
  have hone : ∀ g ∈ [([49] : Text)], Hextet g := by
    intro g hg
    rw [List.mem_singleton.mp hg]
    refine hextet_iff.mpr ⟨fun c hc => ?_, le_rfl, by decide⟩
    rw [List.mem_singleton.mp hc]
    decide
  have hover : Overread (ofText "::1:") :=
    Overread.gap [] [] [] [[49]] (Or.inl rfl) (Or.inl rfl)
      (fun g hg => absurd hg List.not_mem_nil) hone (by decide)
      (Or.inr (Or.inl ⟨rfl, List.cons_ne_nil _ _⟩))
  have hs : (91 : Byte) ∉ ofText "::1:" ∧ (93 : Byte) ∉ ofText "::1:" := by decide
  exact ⟨hs, hover.not_exact hs.1⟩

end KongGateway.Kong.Tools.Ip

import KongGateway.Kong.Router.Transform

/-!
# Priority — the order that `get_priority` gives to routes

The weight, the header count and the regex priority are plain numbers,
so they are shifted within 32 bits: they end up on top of one another in
the lower half of the word, and a set bit 31 is a sign that covers the
upper half. `layout` lists the fields of the word as they really lie;
the word is compared field by field in that order.
-/

namespace KongGateway.Kong.Router.Transform

open LuaBit

/-! ## The fields of a route -/

def hasRegexPath (r : Route) : Bool := ((r.paths.getD []).head?.map isRegexMagic).getD false

/-- The length of the prefixes; 0 for regexes and without paths. -/
def uriLength (r : Route) : Nat :=
  if hasRegexPath r then 0 else ((r.paths.getD []).head?.map String.length).getD 0

def effectiveRegexPriority (r : Route) : Int :=
  if hasRegexPath r then r.regexPriority.getD 0 else 0

/-- What the word is meant to be compared by, most significant first. -/
def intendedKey (r : Route) : List Int :=
  [matchWeight r, (plainHostOnly r).toNat, cappedHeadersCount r, (hasRegexPath r).toNat,
    effectiveRegexPriority r, uriLength r]

/-- The 13 bits above the length: the weight at bit 10, the header
count at bit 1 and the regex priority at bit 0, laid over one another. -/
def overlay (r : Route) : Nat :=
  matchWeight r * 2 ^ 10 ||| cappedHeadersCount r * 2
    ||| (effectiveRegexPriority r % 2 ^ 13).toNat

/-- What the word is really compared by. With bit 12 of the overlay set
the 32-bit number is negative. -/
def layout (r : Route) : List Int :=
  if 2 ^ 12 ≤ overlay r then [1, 0, 0, overlay r, uriLength r]
  else [0, (plainHostOnly r).toNat, (hasRegexPath r).toNat, overlay r, uriLength r]

/-! ## The lower half of the word -/

theorem matchWeight_le (r : Route) : matchWeight r ≤ 7 := by
  unfold matchWeight
  split_ifs <;> decide

theorem cappedHeadersCount_le (r : Route) : cappedHeadersCount r ≤ 255 := by
  unfold cappedHeadersCount maxHeaderCount
  split <;> omega

theorem overlay_lt (r : Route) : overlay r < 2 ^ 13 := by
  have hweight := matchWeight_le r
  have hcount := cappedHeadersCount_le r
  refine Nat.or_lt_two_pow (Nat.or_lt_two_pow ?_ ?_) ?_
  · omega
  · omega
  · omega

/-- The four plain numbers, or-ed. -/
def lowerHalf (r : Route) : BitVec 32 :=
  tobit (matchWeight r) <<< 29
    ||| (tobit (cappedHeadersCount r) <<< 20
      ||| (tobit (effectiveRegexPriority r) <<< 19
        ||| (tobit (uriLength r) &&& tobit 0x7FFFF)))

theorem toNat_tobit (x : Int) : (tobit x).toNat = (x % 2 ^ 32).toNat := by
  rw [tobit, BitVec.toNat_ofInt]
  rfl

theorem toNat_tobit_shift (x : Int) (k : Nat) :
    (tobit x <<< k).toNat = (x % 2 ^ 32).toNat * 2 ^ k % 2 ^ 32 := by
  rw [BitVec.toNat_shiftLeft, toNat_tobit, Nat.shiftLeft_eq]

theorem toNat_lowerHalf (r : Route) (hlength : uriLength r < 2 ^ 19) :
    (lowerHalf r).toNat = 2 ^ 19 * overlay r + uriLength r := by
  have hweight : (tobit (matchWeight r) <<< 29).toNat = (matchWeight r * 2 ^ 10) <<< 19 := by
    have := matchWeight_le r
    rw [toNat_tobit_shift, Nat.shiftLeft_eq]
    omega
  have hcount : (tobit (cappedHeadersCount r) <<< 20).toNat
      = (cappedHeadersCount r * 2) <<< 19 := by
    have := cappedHeadersCount_le r
    rw [toNat_tobit_shift, Nat.shiftLeft_eq]
    omega
  have hregex : (tobit (effectiveRegexPriority r) <<< 19).toNat
      = (effectiveRegexPriority r % 2 ^ 13).toNat <<< 19 := by
    rw [toNat_tobit_shift, Nat.shiftLeft_eq]
    omega
  have hmask : (tobit 0x7FFFF).toNat = 2 ^ 19 - 1 := rfl
  have hlen : (tobit (uriLength r) &&& tobit 0x7FFFF).toNat = uriLength r := by
    rw [BitVec.toNat_and, toNat_tobit, hmask, Nat.and_two_pow_sub_one_eq_mod]
    omega
  rw [lowerHalf, BitVec.toNat_or, BitVec.toNat_or, BitVec.toNat_or, hweight, hcount, hregex, hlen,
    ← Nat.or_assoc, ← Nat.or_assoc, ← Nat.shiftLeft_or_distrib, ← Nat.shiftLeft_or_distrib,
    Nat.shiftLeft_eq, Nat.two_pow_add_eq_or_of_lt hlength, overlay, Nat.mul_comm (2 ^ 19)]

/-! ## The word -/

/-- The two bits that are set in 64 bits. -/
def upperBits (r : Route) : BitVec 64 :=
  (if plainHostOnly r then 1#64 <<< 60 else 0) ||| (if hasRegexPath r then 1#64 <<< 51 else 0)

theorem httpPriority_eq (r : Route) :
    httpPriority r (hasRegexPath r) (uriLength r)
      = bor [ofBit (tobit (matchWeight r) <<< 29),
          if plainHostOnly r then plainHostOnlyBit else .number 0,
          if hasRegexPath r then regexUrlBit else .number 0,
          ofBit (tobit (cappedHeadersCount r) <<< 20),
          ofBit (tobit (effectiveRegexPriority r) <<< 19),
          ofBit (tobit (uriLength r) &&& tobit 0x7FFFF)] := by
  simp only [httpPriority, lshiftUint64, lshift_number, band_number, effectiveRegexPriority,
    Nat.reduceMod]

theorem toUint64_plainHostOnlyBit (r : Route) :
    (if plainHostOnly r then plainHostOnlyBit else .number 0).toUint64
      = if plainHostOnly r then 1#64 <<< 60 else 0 := by
  cases plainHostOnly r <;> rfl

theorem toUint64_regexUrlBit (r : Route) :
    (if hasRegexPath r then regexUrlBit else .number 0).toUint64
      = if hasRegexPath r then 1#64 <<< 51 else 0 := by
  cases hasRegexPath r <;> rfl

theorem or_regroup (a b c d e f : BitVec 64) :
    a ||| (b ||| (c ||| (d ||| (e ||| (f ||| 0))))) = a ||| (d ||| (e ||| f)) ||| (b ||| c) := by
  rw [show f ||| 0 = f from BitVec.or_zero]
  ac_rfl

theorem toUint64_httpPriority (r : Route) :
    (httpPriority r (hasRegexPath r) (uriLength r)).toUint64
      = (lowerHalf r).signExtend 64 ||| upperBits r := by
  rw [httpPriority_eq, toUint64_bor]
  · simp only [List.foldr_cons, List.foldr_nil, toUint64_plainHostOnlyBit, toUint64_regexUrlBit,
      toUint64_ofBit, lowerHalf, upperBits, signExtend_or]
    exact or_regroup _ _ _ _ _ _
  · intro a ha
    simp only [List.mem_cons, List.not_mem_nil, or_false] at ha
    rcases ha with rfl | rfl | rfl | rfl | rfl | rfl
    · exact settled_ofBit _
    · cases plainHostOnly r <;> trivial
    · cases hasRegexPath r <;> trivial
    · exact settled_ofBit _
    · exact settled_ofBit _
    · exact settled_ofBit _

theorem upperBits_low (r : Route) : ∀ i < 32, (upperBits r).getLsbD i = false := by
  unfold upperBits
  cases plainHostOnly r <;> cases hasRegexPath r <;> decide

theorem toNat_upperBits (r : Route) :
    (upperBits r).toNat = (plainHostOnly r).toNat * 2 ^ 60 + (hasRegexPath r).toNat * 2 ^ 51 := by
  unfold upperBits
  cases plainHostOnly r <;> cases hasRegexPath r <;> rfl

theorem msb_lowerHalf (r : Route) (hlength : uriLength r < 2 ^ 19) :
    (lowerHalf r).msb = decide (2 ^ 12 ≤ overlay r) := by
  rw [BitVec.msb_eq_decide, toNat_lowerHalf r hlength]
  congr 1
  rw [eq_iff_iff]
  omega

theorem toNat_httpPriority (r : Route) (hlength : uriLength r < 2 ^ 19) :
    (httpPriority r (hasRegexPath r) (uriLength r)).toUint64.toNat
      = (if 2 ^ 12 ≤ overlay r then 2 ^ 64 - 2 ^ 32
          else (plainHostOnly r).toNat * 2 ^ 60 + (hasRegexPath r).toNat * 2 ^ 51)
        + (2 ^ 19 * overlay r + uriLength r) := by
  have hmsb := msb_lowerHalf r hlength
  have hoverlay := overlay_lt r
  have hvalue := toNat_lowerHalf r hlength
  rw [toUint64_httpPriority]
  split
  · rename_i hhigh
    rw [decide_eq_true hhigh] at hmsb
    rw [signExtend_or_of_msb hmsb (upperBits_low r), toNat_signExtend_of_msb hmsb, hvalue]
  · rename_i hhigh
    rw [decide_eq_false hhigh] at hmsb
    have hsum : (upperBits r).toNat
        = 2 ^ 32 * ((plainHostOnly r).toNat * 2 ^ 28 + (hasRegexPath r).toNat * 2 ^ 19) := by
      rw [toNat_upperBits]
      omega
    rw [BitVec.toNat_or, toNat_signExtend_of_not_msb hmsb, hvalue, hsum, Nat.or_comm,
      ← Nat.two_pow_add_eq_or_of_lt (by omega)]
    omega

theorem httpPriority_lt_iff {r r' : Route} (hlength : uriLength r < 2 ^ 19)
    (hlength' : uriLength r' < 2 ^ 19) :
    (httpPriority r' (hasRegexPath r') (uriLength r')).toUint64
        < (httpPriority r (hasRegexPath r) (uriLength r)).toUint64
      ↔ layout r' < layout r := by
  have hoverlay := overlay_lt r
  have hoverlay' := overlay_lt r'
  have hplain := Bool.toNat_le (plainHostOnly r)
  have hplain' := Bool.toNat_le (plainHostOnly r')
  have hregex := Bool.toNat_le (hasRegexPath r)
  have hregex' := Bool.toNat_le (hasRegexPath r')
  rw [BitVec.lt_def, toNat_httpPriority r hlength, toNat_httpPriority r' hlength', layout, layout]
  split <;> split <;> simp only [List.cons_lt_cons_iff] <;> simp <;> omega

/-! ## Routes in the right order -/

/-- The 32-bit number of a route is negative: it matches on four fields
or more, or bit 12 of its regex priority is set. -/
def Negative (r : Route) : Prop :=
  4 ≤ matchWeight r ∨ 2 ^ 12 ≤ effectiveRegexPriority r % 2 ^ 13

instance (r : Route) : Decidable (Negative r) := inferInstanceAs (Decidable (_ ∨ _))

/-- The weight, the header count and the regex priority, laid over one
another, are less, or the same and the length decides. With `tie` the
length need not differ. -/
def Below (tie : Prop) (r' r : Route) : Prop :=
  overlay r' < overlay r
    ∨ overlay r' = overlay r ∧ (uriLength r' < uriLength r ∨ uriLength r' = uriLength r ∧ tie)

/-- After the plain host, the regex path decides, and among routes that
have one the regex priority mixes with what it lies on. -/
def ByPath (tie : Prop) (r r' : Route) : Prop :=
  (hasRegexPath r').toNat < (hasRegexPath r).toNat
    ∨ hasRegexPath r' = hasRegexPath r ∧ (hasRegexPath r = false ∨ Below tie r' r)

/-- What has to hold of the fields of a route that is meant to come
before another one for it to do so, by the first field in which they
differ. Negative numbers come before all others. -/
def Kept (tie : Prop) (r r' : Route) : Prop :=
  if Negative r then Negative r' → Below tie r' r
  else ¬ Negative r' ∧
    if matchWeight r' < matchWeight r then
      (plainHostOnly r').toNat < (plainHostOnly r).toNat
        ∨ plainHostOnly r' = plainHostOnly r ∧ ByPath tie r r'
    else if (plainHostOnly r').toNat < (plainHostOnly r).toNat then True
    else if cappedHeadersCount r' < cappedHeadersCount r then ByPath tie r r'
    else hasRegexPath r' = true → Below tie r' r

theorem le_or_iff {a b n : Nat} : 2 ^ n ≤ a ||| b ↔ 2 ^ n ≤ a ∨ 2 ^ n ≤ b := by
  constructor
  · intro h
    by_contra hnot
    rw [not_or, not_le, not_le] at hnot
    exact absurd (Nat.or_lt_two_pow hnot.1 hnot.2) (Nat.not_lt.mpr h)
  · rintro (h | h)
    · exact h.trans Nat.left_le_or
    · exact h.trans Nat.right_le_or

theorem negative_iff (r : Route) : Negative r ↔ 2 ^ 12 ≤ overlay r := by
  have hcount := cappedHeadersCount_le r
  rw [overlay, le_or_iff, le_or_iff, Negative]
  omega

theorem overlay_of_noRegex {r : Route} (h : hasRegexPath r = false) :
    overlay r = matchWeight r * 2 ^ 10 + cappedHeadersCount r * 2 := by
  have hcount := cappedHeadersCount_le r
  have hzero : effectiveRegexPriority r = 0 := by simp [effectiveRegexPriority, h]
  rw [overlay, hzero, Nat.mul_comm (matchWeight r), Nat.two_pow_add_eq_or_of_lt (by omega)]
  simp

theorem uriLength_of_regex {r : Route} (h : hasRegexPath r = true) : uriLength r = 0 := by
  simp [uriLength, h]

theorem layout_eq_of_intendedKey_eq {r r' : Route} (h : intendedKey r' = intendedKey r) :
    layout r' = layout r := by
  simp only [intendedKey, List.cons.injEq] at h
  obtain ⟨hweight, hplain, hcount, hregex, hpriority, hlength, -⟩ := h
  have hoverlay : overlay r' = overlay r := by
    rw [overlay, overlay, Int.ofNat.inj hweight, Int.ofNat.inj hcount, hpriority]
  simp only [layout, hoverlay, hplain, hregex, hlength]

/-- A route that is meant to come first is laid out so exactly when it is
kept first. -/
theorem layout_lt_iff_kept {r r' : Route} (h : intendedKey r' < intendedKey r) (tie : Prop) :
    layout r' < layout r ∨ layout r' = layout r ∧ tie ↔ Kept tie r r' := by
  have hflat := @overlay_of_noRegex r
  have hflat' := @overlay_of_noRegex r'
  have hlen := @uriLength_of_regex r
  have hlen' := @uriLength_of_regex r'
  have hcount := cappedHeadersCount_le r
  have hcount' := cappedHeadersCount_le r'
  have hnone : hasRegexPath r = false → effectiveRegexPriority r = 0 := by
    intro hregex
    simp [effectiveRegexPriority, hregex]
  have hnone' : hasRegexPath r' = false → effectiveRegexPriority r' = 0 := by
    intro hregex
    simp [effectiveRegexPriority, hregex]
  unfold intendedKey at h
  simp only [layout, Kept, ByPath, Below, ← negative_iff]
  generalize overlay r = o, overlay r' = o', matchWeight r = w, matchWeight r' = w',
    cappedHeadersCount r = c, cappedHeadersCount r' = c', uriLength r = l, uriLength r' = l',
    effectiveRegexPriority r = q, effectiveRegexPriority r' = q', plainHostOnly r = p,
    plainHostOnly r' = p', hasRegexPath r = x, hasRegexPath r' = x' at *
  by_cases hn : Negative r
  · by_cases hn' : Negative r'
    · -- only the lower halves are compared
      by_cases htie : tie <;> simp [hn, hn', htie, List.cons_lt_cons_iff] <;> omega
    · simp [hn, hn', List.cons_lt_cons_iff]
  · by_cases hn' : Negative r'
    · simp [hn, hn', List.cons_lt_cons_iff]
    · -- the flags decide, then the lower halves
      simp only [hn, hn', if_false, not_false_eq_true, true_and] at h ⊢
      by_cases htie : tie <;> cases p <;> cases p' <;> cases x <;> cases x' <;>
        simp [List.cons_lt_cons_iff, htie] at * <;> omega

/-! ## Split routes -/

/-- The traditional HTTP routes of the schema, with paths below the
width of the length field. -/
structure Allowed (r : Route) : Prop where
  expression : r.expression = none
  protocols : isStreamRoute r = false
  paths : ∀ p ∈ r.paths.getD [], p ≠ "" ∧ p.length < 2 ^ 19

/-- All paths belong to one group. -/
def OneGroup (paths : List String) : Prop := ∀ p ∈ paths, ∀ q ∈ paths, pathKey p = pathKey q

theorem mem_insertPath {path : String} {groups : List (Nat × List String)} {k : Nat}
    {group : List String} (h : (k, group) ∈ insertPath path groups) :
    (k, group) ∈ groups
      ∨ k = pathKey path ∧ (group = [path] ∨ ∃ old, (k, old) ∈ groups ∧ group = old ++ [path]) := by
  induction groups with
  | nil =>
    obtain ⟨rfl, rfl⟩ : k = pathKey path ∧ group = [path] := by simpa [insertPath] using h
    exact .inr ⟨rfl, .inl rfl⟩
  | cons head rest ih =>
    obtain ⟨k', group'⟩ := head
    rw [insertPath] at h
    split at h
    · rename_i hk
      rcases List.mem_cons.mp h with hhead | hrest
      · obtain ⟨rfl, rfl⟩ := Prod.mk.inj hhead
        exact .inr ⟨hk, .inr ⟨group', List.mem_cons_self, rfl⟩⟩
      · exact .inl (List.mem_cons_of_mem _ hrest)
    · rcases List.mem_cons.mp h with hhead | hrest
      · exact .inl (hhead ▸ List.mem_cons_self)
      · rcases ih hrest with hold | ⟨hk, hnew | ⟨old, hold, hgroup⟩⟩
        · exact .inl (List.mem_cons_of_mem _ hold)
        · exact .inr ⟨hk, .inl hnew⟩
        · exact .inr ⟨hk, .inr ⟨old, List.mem_cons_of_mem _ hold, hgroup⟩⟩

/-- The groups made so far hold paths of their key only, all of them
among the paths given. -/
def Grouped (paths : List String) (groups : List (Nat × List String)) : Prop :=
  ∀ k group, (k, group) ∈ groups → ∀ p ∈ group, pathKey p = k ∧ p ∈ paths

theorem Grouped.insertPath {paths : List String} {groups : List (Nat × List String)}
    (h : Grouped paths groups) {path : String} (hpath : path ∈ paths) :
    Grouped paths (insertPath path groups) := by
  intro k group hgroup p hp
  rcases mem_insertPath hgroup with hold | ⟨rfl, rfl | ⟨old, hold, rfl⟩⟩
  · exact h k group hold p hp
  · obtain rfl : p = path := List.mem_singleton.mp hp
    exact ⟨rfl, hpath⟩
  · rcases List.mem_append.mp hp with hp | hp
    · exact h _ old hold p hp
    · obtain rfl : p = path := List.mem_singleton.mp hp
      exact ⟨rfl, hpath⟩

theorem mem_flatMap_insertPath (path : String) (groups : List (Nat × List String)) (p : String) :
    p ∈ (insertPath path groups).flatMap Prod.snd ↔ p = path ∨ p ∈ groups.flatMap Prod.snd := by
  induction groups with
  | nil => simp [insertPath]
  | cons head rest ih =>
    obtain ⟨k, group⟩ := head
    rw [insertPath]
    split
    · simp only [List.flatMap_cons, List.mem_append, List.mem_singleton]
      tauto
    · simp only [List.flatMap_cons, List.mem_append, ih]
      tauto

theorem foldl_insertPath {paths all : List String} {groups : List (Nat × List String)}
    (hsub : paths ⊆ all) (h : Grouped all groups) :
    Grouped all (paths.foldl (fun groups path => insertPath path groups) groups)
      ∧ ∀ p, p ∈ (paths.foldl (fun groups path => insertPath path groups) groups).flatMap Prod.snd
        ↔ p ∈ paths ∨ p ∈ groups.flatMap Prod.snd := by
  induction paths generalizing groups with
  | nil => simpa using h
  | cons path rest ih =>
    obtain ⟨hgrouped, hmem⟩ := ih (fun p hp => hsub (List.mem_cons_of_mem _ hp))
      (h.insertPath (hsub List.mem_cons_self))
    refine ⟨hgrouped, fun p => ?_⟩
    rw [List.foldl_cons, hmem, mem_flatMap_insertPath, List.mem_cons]
    tauto

theorem groupByRegexOrLength_spec (paths : List String) :
    (∀ group ∈ groupByRegexOrLength paths, OneGroup group ∧ group ⊆ paths)
      ∧ ((groupByRegexOrLength paths).length = 1 → OneGroup paths) := by
  obtain ⟨hgrouped, hmem⟩ :=
    foldl_insertPath (List.Subset.refl paths) (fun _ _ h => absurd h List.not_mem_nil)
  have hkey : ∀ group ∈ groupByRegexOrLength paths, ∃ k, ∀ p ∈ group, pathKey p = k ∧ p ∈ paths := by
    intro group hgroup
    obtain ⟨⟨k, group'⟩, hmember, rfl⟩ := List.mem_map.mp hgroup
    exact ⟨k, hgrouped k group' hmember⟩
  refine ⟨fun group hgroup => ?_, fun hone p hp q hq => ?_⟩
  · obtain ⟨k, hk⟩ := hkey group hgroup
    exact ⟨fun p hp q hq => (hk p hp).1.trans (hk q hq).1.symm, fun p hp => (hk p hp).2⟩
  · -- with one group, every path is in it
    obtain ⟨group, hgroup⟩ := List.length_eq_one_iff.mp hone
    obtain ⟨k, hk⟩ := hkey group (by rw [hgroup]; exact List.mem_singleton_self _)
    have hin : ∀ p ∈ paths, p ∈ group := by
      intro p hp
      have hflat := (hmem p).mpr (.inl hp)
      rw [List.mem_flatMap] at hflat
      obtain ⟨entry, hentry, hp'⟩ := hflat
      have : entry.2 ∈ groupByRegexOrLength paths := List.mem_map_of_mem hentry
      rw [hgroup, List.mem_singleton] at this
      exact this ▸ hp'
    exact (hk p (hin p hp)).1.trans (hk q (hin q hq)).1.symm

theorem splitRoute_spec {uuid : String → String} {r r' : Route} (hallowed : Allowed r)
    (h : r' ∈ splitRoute uuid r) : Allowed r' ∧ OneGroup (r'.paths.getD []) := by
  obtain ⟨hgroups, hone⟩ := groupByRegexOrLength_spec (r.paths.getD [])
  unfold splitRoute at h
  simp only at h
  split at h
  · rename_i hkept
    obtain rfl : r' = r := List.mem_singleton.mp h
    refine ⟨hallowed, fun p hp q hq => ?_⟩
    rw [hallowed.expression] at hkept
    cases hpaths : r'.paths with
    | none => simp [hpaths] at hp
    | some paths =>
      rw [hpaths] at hp hq hkept
      match paths with
      | [] => simp at hp
      | [path] =>
        simp only [Option.getD_some, List.mem_singleton] at hp hq
        rw [hp, hq]
      | first :: second :: rest => simp [isEmptyField] at hkept
  · split at h
    · rename_i hlength
      obtain rfl : r' = r := List.mem_singleton.mp h
      exact ⟨hallowed, hone hlength⟩
    · obtain ⟨index, hindex, rfl⟩ := List.mem_mapIdx.mp h
      obtain ⟨hgroup, hsub⟩ := hgroups _ (List.getElem_mem hindex)
      exact ⟨⟨hallowed.expression, hallowed.protocols, fun p hp => hallowed.paths p (hsub hp)⟩,
        hgroup⟩

theorem regexUrlAndLength_eq {r : Route} (hpaths : ∀ p ∈ r.paths.getD [], p ≠ "")
    (hgroup : OneGroup (r.paths.getD [])) :
    regexUrlAndLength r = .ok (hasRegexPath r, uriLength r) := by
  rw [regexUrlAndLength, uriLength, hasRegexPath]
  cases hlist : r.paths.getD [] with
  | nil => rfl
  | cons p rest =>
    rw [hlist] at hpaths hgroup
    have hkey : ∀ q ∈ rest, pathKey q = pathKey p := fun q hq =>
      hgroup q (List.mem_cons_of_mem p hq) p List.mem_cons_self
    have hlength : ∀ q ∈ p :: rest, 0 < q.length := fun q hq =>
      Nat.pos_of_ne_zero fun hzero => hpaths q hq (String.length_eq_zero_iff.mp hzero)
    cases hregex : isRegexMagic p with
    | true =>
      have hall : rest.all isRegexMagic = true := by
        rw [List.all_eq_true]
        intro q hq
        by_contra hnot
        have hk := hkey q hq
        rw [pathKey, if_neg hnot, pathKey, if_pos hregex] at hk
        exact absurd hk (Nat.ne_of_gt (hlength q (List.mem_cons_of_mem p hq)))
      simp [hregex, hall]
    | false =>
      have hall : (rest.all fun q => decide (q.length = p.length)) = true := by
        rw [List.all_eq_true]
        intro q hq
        have hk := hkey q hq
        have hp := hlength p List.mem_cons_self
        simp only [pathKey, hregex, Bool.false_eq_true, if_false] at hk
        rw [decide_eq_true_eq]
        split at hk
        · omega
        · exact hk
      simp [hregex, hall]

theorem uriLength_lt {r : Route} (hallowed : Allowed r) : uriLength r < 2 ^ 19 := by
  rw [uriLength]
  split
  · decide
  · cases hlist : r.paths.getD [] with
    | nil => decide
    | cons p rest => exact (hallowed.paths p (hlist ▸ List.mem_cons_self)).2

theorem getPriority_eq {r : Route} (hallowed : Allowed r) (hgroup : OneGroup (r.paths.getD [])) :
    getPriority r = .ok (httpPriority r (hasRegexPath r) (uriLength r)) := by
  rw [getPriority, hallowed.expression, hallowed.protocols,
    regexUrlAndLength_eq (fun p hp => (hallowed.paths p hp).1) hgroup]
  simp [matchWeight_le r]

theorem mem_splitRoutesAndServicesByPath {Service : Type} {uuid : String → String}
    {routesAndServices : List (Route × Option Service)} {r' : Route}
    (h : r' ∈ (splitRoutesAndServicesByPath uuid routesAndServices).map Prod.fst) :
    ∃ r ∈ routesAndServices.map Prod.fst, r' ∈ splitRoute uuid r := by
  obtain ⟨entry, hentry, rfl⟩ := List.mem_map.mp h
  rw [splitRoutesAndServicesByPath, List.mem_append, List.mem_flatMap, List.mem_flatMap] at hentry
  rcases hentry with ⟨⟨r, service⟩, hmem, hsplit⟩ | ⟨⟨r, service⟩, hmem, hsplit⟩
  · obtain ⟨r', hr', rfl⟩ := List.mem_map.mp hsplit
    exact ⟨r, List.mem_map_of_mem hmem, List.mem_of_mem_head? (Option.mem_toList.mp hr')⟩
  · obtain ⟨r', hr', rfl⟩ := List.mem_map.mp hsplit
    exact ⟨r, List.mem_map_of_mem hmem, List.mem_of_mem_tail hr'⟩

/-- Two routes stand in the order of their intended keys exactly when the
one that is meant to come first is kept first; if that is the second of
them, equal words are in order, too. -/
theorem get_priority_orders_iff {Service : Type} (uuid : String → String)
    (routesAndServices : List (Route × Option Service))
    (hallowed : ∀ r ∈ routesAndServices.map Prod.fst, Allowed r) {r r' : Route}
    (hr : r ∈ (splitRoutesAndServicesByPath uuid routesAndServices).map Prod.fst)
    (hr' : r' ∈ (splitRoutesAndServicesByPath uuid routesAndServices).map Prod.fst) :
    ∃ priority priority', getPriority r = .ok priority ∧ getPriority r' = .ok priority'
      ∧ ((priority'.toUint64 < priority.toUint64 ↔ intendedKey r' < intendedKey r)
        ↔ (intendedKey r' < intendedKey r → Kept False r r')
          ∧ (intendedKey r < intendedKey r' → Kept True r' r)) := by
  obtain ⟨r₀, hr₀, hsplit⟩ := mem_splitRoutesAndServicesByPath hr
  obtain ⟨r₀', hr₀', hsplit'⟩ := mem_splitRoutesAndServicesByPath hr'
  obtain ⟨hok, hgroup⟩ := splitRoute_spec (hallowed r₀ hr₀) hsplit
  obtain ⟨hok', hgroup'⟩ := splitRoute_spec (hallowed r₀' hr₀') hsplit'
  refine ⟨_, _, getPriority_eq hok hgroup, getPriority_eq hok' hgroup', ?_⟩
  rw [httpPriority_lt_iff (uriLength_lt hok) (uriLength_lt hok')]
  rcases lt_trichotomy (intendedKey r') (intendedKey r) with hlt | heq | hlt
  · have hkept := layout_lt_iff_kept hlt False
    simpa [hlt, hlt.not_gt] using hkept
  · have hlayout := layout_eq_of_intendedKey_eq heq
    simp [heq, hlayout]
  · have hkept := layout_lt_iff_kept hlt True
    rw [and_true, ← le_iff_lt_or_eq, ← not_lt] at hkept
    simpa [hlt, hlt.not_gt] using hkept

/-! ### Two routes in the wrong order, and two in the right one -/

def hostRoute : Route := { hosts := some ["example.com"], paths := some ["/a"] }
def methodRoute : Route :=
  { methods := some ["GET"], headers := some [("x-team", ["a"])], paths := some ["/a"] }
def longerRoute : Route := { hosts := some ["example.com"], paths := some ["/abc"] }

def sampleRoutes : List (Route × Option Unit) :=
  [(hostRoute, none), (methodRoute, none), (longerRoute, none)]

theorem allowed_of_sample : ∀ r ∈ sampleRoutes.map Prod.fst, Allowed r := by
  intro r hr
  simp only [sampleRoutes, List.map_cons, List.map_nil, List.mem_cons, List.not_mem_nil,
    or_false] at hr
  rcases hr with rfl | rfl | rfl
  · exact ⟨rfl, rfl, by decide⟩
  · exact ⟨rfl, rfl, by decide⟩
  · exact ⟨rfl, rfl, by decide⟩

/-- The route with a plain host is put before the one that matches on
more fields. -/
theorem get_priority_puts_plain_host_first :
    hostRoute ∈ (splitRoutesAndServicesByPath id sampleRoutes).map Prod.fst
      ∧ methodRoute ∈ (splitRoutesAndServicesByPath id sampleRoutes).map Prod.fst
      ∧ ∃ priority priority', getPriority hostRoute = .ok priority
        ∧ getPriority methodRoute = .ok priority'
        ∧ priority'.toUint64 < priority.toUint64
        ∧ ¬ intendedKey methodRoute < intendedKey hostRoute :=
  ⟨by decide, by decide, .uint64 0x1000000040000002#64, .number 0x60100002, rfl, rfl, by decide,
    by decide⟩

theorem get_priority_orders_iff_by_length :
    ∃ priority priority', getPriority longerRoute = .ok priority
      ∧ getPriority hostRoute = .ok priority'
      ∧ ((priority'.toUint64 < priority.toUint64
          ↔ intendedKey hostRoute < intendedKey longerRoute)
        ↔ (intendedKey hostRoute < intendedKey longerRoute → Kept False longerRoute hostRoute)
          ∧ (intendedKey longerRoute < intendedKey hostRoute → Kept True hostRoute longerRoute)) :=
  get_priority_orders_iff id sampleRoutes allowed_of_sample (by decide) (by decide)

end KongGateway.Kong.Router.Transform

import KongGateway.Kong.Tools.Uri.Triplets

/-!
# Canonical — `normalize` gives a canonical text

`normalize` decodes and runs the loop, whatever early exit it takes
(`normalize_eq`), and what the loop leaves of a decoded text is decoded
and left alone by the loop. A reserved triplet is kept with its segment;
it goes only when a `..` takes the segment out.
-/

namespace KongGateway.Kong.Tools

open Segments LuaStd

/-! ## The early exits -/

theorem splitAtText_ne_none {pat l : List Char} (hpat : pat ≠ []) (h : pat <:+: l) :
    splitAtText pat l ≠ none := by
  induction l with
  | nil => exact absurd (List.infix_nil.mp h) hpat
  | cons c rest ih =>
    rw [splitAtText]
    split_ifs with hstart
    · simp
    · rcases List.infix_cons_iff.mp h with hbefore | hrest
      · exact absurd (List.isPrefixOf_iff_prefix.mpr hbefore) hstart
      · simpa using ih hrest

theorem settled_of_plain {mergeSlashes : Bool} {s : Segment} {rest : List Segment}
    (hrest : ∀ t ∈ rest, '/' ∉ t) (hdot : '.' ∉ s ++ slashed rest)
    (hmerge : mergeSlashes = true → ¬ ['/', '/'] <:+: s ++ slashed rest) :
    Settled mergeSlashes rest := by
  induction rest generalizing s with
  | nil => exact ⟨by simp, by simp, by simp⟩
  | cons t rest ih =>
    rw [slashed_cons] at hdot hmerge
    have hrest' : ∀ u ∈ rest, '/' ∉ u := fun u hu => hrest u (List.mem_cons_of_mem t hu)
    have hdot' : '.' ∉ t ++ slashed rest := fun hmem =>
      hdot (List.mem_append_right s (List.mem_cons_of_mem _ hmem))
    have hsettled := ih hrest' hdot' fun hm hdouble =>
      hmerge hm (hdouble.trans ⟨s ++ ['/'], [], by simp⟩)
    refine ⟨hrest, List.forall_mem_cons.mpr ⟨fun h => hdot' (List.mem_append_left _ h.mem_dot),
      hsettled.no_dot⟩, fun hm hmem => ?_⟩
    cases rest with
    | nil => simp at hmem
    | cons next rest =>
      rw [List.dropLast_cons_cons] at hmem
      rcases List.mem_cons.mp hmem with rfl | hmem
      · exact hmerge hm ⟨s, next ++ slashed rest, by simp⟩
      · exact hsettled.merged hm hmem

theorem resolveText_of_plain {mergeSlashes : Bool} {s : Segment} {rest : List Segment}
    (hrest : ∀ t ∈ rest, '/' ∉ t) (hdot : '.' ∉ s ++ slashed rest)
    (hmerge : mergeSlashes = true → ¬ ['/', '/'] <:+: s ++ slashed rest) :
    (resolveText mergeSlashes (s :: rest)).reverse.flatten = s ++ slashed rest := by
  have hsettled := settled_of_plain hrest hdot hmerge
  rw [resolveText, if_neg fun h => hdot (List.mem_append_left _ h.mem_dot)]
  split_ifs with hnil
  · rw [resolve_eq, hsettled.survivors_eq, flatten_stored, hnil]
    rfl
  · rw [resolve_eq, hsettled.survivors_eq, flatten_stored]
    simp

/-- **`normalize` is decoding and the loop.** -/
theorem normalize_eq (u : List Char) (mergeSlashes : Bool) :
    normalize u mergeSlashes
      = (resolveText mergeSlashes (split '/' (decodeTriplets u))).reverse.flatten := by
  rw [normalize]
  by_cases hsimple : u = [] ∨ u = ['/']
  · rw [if_pos hsimple]
    rcases hsimple with rfl | rfl <;> rfl
  · rw [if_neg hsimple]
    have hdecode : (if u.contains '%' = true then decodeTriplets u else u) = decodeTriplets u := by
      split_ifs with hmem
      · rfl
      · exact (decodeTriplets_of_not_mem fun h => hmem (List.contains_iff_mem.mpr h)).symm
    rw [hdecode]
    obtain ⟨s, rest, hsplit, hd⟩ := split_join (decodeTriplets u)
    have hmem : ∀ t ∈ s :: rest, '/' ∉ t := fun t ht => not_mem_split (by rw [hsplit]; exact ht)
    rw [List.forall_mem_cons] at hmem
    rw [hsplit, hd]
    dsimp only
    split_ifs with hplain
    · simp only [Bool.and_eq_true, Bool.or_eq_true, Bool.not_eq_true', Option.isNone_iff_eq_none]
        at hplain
      refine (resolveText_of_plain hmem.2 (fun h => ?_) fun hm hdouble => ?_).symm
      · exact Bool.false_ne_true (hplain.1.symm.trans (List.contains_iff_mem.mpr h))
      · rcases hplain.2 with hno | hnone
        · exact Bool.false_ne_true (hno.symm.trans hm)
        · exact splitAtText_ne_none (by simp) hdouble hnone
    · rw [removeDots_text mergeSlashes hmem.1 hmem.2 (Nat.le_refl _)]

/-! ## What is left of a decoded text -/

/-- A normalized text, with the segments that it is made of. -/
structure Normalized (mergeSlashes : Bool) (u : List Char) (first : Segment)
    (kept : List Segment) : Prop where
  left : Left mergeSlashes ((split '/' u).map decodeTriplets) first kept
  normalize_eq : normalize u mergeSlashes = first ++ slashed kept
  encoded : Encoded Reserved (first ++ slashed kept)

theorem encoded_survivors {mergeSlashes : Bool} {ok : Char → Char → Prop}
    {segments : List Segment} (h : ∀ s ∈ segments, Encoded ok s) :
    ∀ s ∈ (survivors mergeSlashes segments).1, Encoded ok s := by
  induction segments with
  | nil => simp [survivors]
  | cons s rest ih =>
    rw [List.forall_mem_cons] at h
    cases rest with
    | nil =>
      rw [survivors]
      split_ifs
      · simpa using Encoded.nil
      · simpa using Encoded.nil
      · simpa using h.1
    | cons next rest =>
      rw [survivors, readBack]
      split_ifs
      · exact ih h.2
      · exact ih h.2
      · exact List.forall_mem_cons.mpr ⟨h.1, ih h.2⟩
      · exact ih h.2

theorem exists_normalized {u : List Char} (h : Encoded Hex u) (mergeSlashes : Bool) :
    ∃ first kept, Normalized mergeSlashes u first kept := by
  have hsplit := split_decode h
  obtain ⟨first, kept, hleft⟩ :=
    @exists_left mergeSlashes (split '/' (decodeTriplets u)) fun s => not_mem_split
  have hsegments : ∀ s ∈ split '/' (decodeTriplets u), Encoded Reserved s := by
    obtain ⟨s, rest, heq, hd⟩ := split_join (decodeTriplets u)
    have hencoded := encoded_decode h
    rw [hd, encoded_slashed_iff fun _ _ => Reserved.hex] at hencoded
    rw [heq]
    exact List.forall_mem_cons.mpr hencoded
  -- an empty segment has no triplet, the others are survivors
  have hall : ∀ s ∈ first :: kept, Encoded Reserved s := by
    intro s hs
    by_cases hnil : s = []
    · rw [hnil]
      exact .nil
    · have hmem : s ∈ (first :: kept).filter (· ≠ []) :=
        List.mem_filter.mpr ⟨hs, by simpa using hnil⟩
      rw [hleft.survive] at hmem
      exact encoded_survivors hsegments s (List.mem_filter.mp hmem).1
  refine ⟨first, kept, ?_, ?_, ?_⟩
  · rwa [hsplit] at hleft
  · rw [Tools.normalize_eq, hleft.text]
  · exact (encoded_slashed_iff fun _ _ => Reserved.hex).mpr (List.forall_mem_cons.mp hall)

theorem Normalized.encoded_segments {mergeSlashes : Bool} {u : List Char} {first : Segment}
    {kept : List Segment} (h : Normalized mergeSlashes u first kept) :
    Encoded Reserved first ∧ ∀ s ∈ kept, Encoded Reserved s :=
  (encoded_slashed_iff fun _ _ => Reserved.hex).mp h.encoded

theorem Normalized.normalize_of_decode {mergeSlashes : Bool} {u v : List Char} {first : Segment}
    {kept : List Segment} (h : Normalized mergeSlashes u first kept)
    (hv : decodeTriplets v = first ++ slashed kept) :
    normalize v mergeSlashes = first ++ slashed kept := by
  rw [Tools.normalize_eq, hv, h.left.split_eq, h.left.resolveText_eq]

theorem flatMap_filter_nil {β : Type*} {f : Segment → List β} (hf : f [] = [])
    (segments : List Segment) :
    (segments.filter (· ≠ [])).flatMap f = segments.flatMap f := by
  induction segments with
  | nil => rfl
  | cons s rest ih =>
    rw [List.filter_cons, List.flatMap_cons, ← ih]
    by_cases hs : s = []
    · simp [hs, hf]
    · simp [hs]

theorem Normalized.triplets_eq {mergeSlashes : Bool} {u : List Char} {first : Segment}
    {kept : List Segment} (h : Normalized mergeSlashes u first kept) :
    triplets (first ++ slashed kept)
      = (survivors mergeSlashes ((split '/' u).map decodeTriplets)).1.flatMap triplets := by
  rw [triplets_slashed h.encoded_segments.1 h.encoded_segments.2, ← List.flatMap_cons,
    ← flatMap_filter_nil rfl, h.left.survive, flatMap_filter_nil rfl]

/-- Without a `..` every triplet survives. -/
theorem survivors_flatMap {β : Type*} {f : Segment → List β} (hnil : f [] = []) (hone : f ['.'] = [])
    (mergeSlashes : Bool) {segments : List Segment} (h : ∀ s ∈ segments, s ≠ ['.', '.']) :
    (survivors mergeSlashes segments).2 = 0
      ∧ (survivors mergeSlashes segments).1.flatMap f = segments.flatMap f := by
  induction segments with
  | nil => exact ⟨rfl, rfl⟩
  | cons s rest ih =>
    rw [List.forall_mem_cons] at h
    obtain ⟨htaken, hflat⟩ := ih h.2
    cases rest with
    | nil =>
      rw [survivors, if_neg h.1]
      split_ifs with hs
      · simp [hs, hnil, hone]
      · exact ⟨rfl, rfl⟩
    | cons next rest =>
      rw [survivors, readBack, if_neg h.1, if_pos htaken, List.flatMap_cons, ← hflat]
      split_ifs with hskip
      · refine ⟨htaken, ?_⟩
        rcases hskip with rfl | ⟨-, rfl⟩
        · rw [hone, List.nil_append]
        · rw [hnil, List.nil_append]
      · exact ⟨rfl, List.flatMap_cons⟩

theorem flatMap_split {u : List Char} (h : Encoded Hex u) :
    ((split '/' u).map decodeTriplets).flatMap triplets = reservedTriplets u := by
  rw [← triplets_decode h, ← split_decode h]
  obtain ⟨s, rest, heq, hd⟩ := split_join (decodeTriplets u)
  have hencoded := encoded_decode h
  rw [hd, encoded_slashed_iff fun _ _ => Reserved.hex] at hencoded
  rw [heq, hd, triplets_slashed hencoded.1 hencoded.2, List.flatMap_cons]

/-! ## The canonical text -/

/-- What is said of the normalized text of `u`. -/
structure Canonical (u : List Char) (mergeSlashes : Bool) : Prop where
  idempotent : normalize (normalize u mergeSlashes) mergeSlashes = normalize u mergeSlashes
  no_dot_segment : ∀ s ∈ split '/' (normalize u mergeSlashes), s ≠ ['.'] ∧ s ≠ ['.', '.']
  /-- There is no other triplet than reserved ones in upper case. -/
  reserved : Followed Reserved (normalize u mergeSlashes)
  /-- A segment keeps its reserved triplets when it is decoded, … -/
  decoded : ∀ s ∈ split '/' u, triplets (decodeTriplets s) = reservedTriplets s
  /-- … and they stay, in order, with the segments that no later `..`
  takes out. -/
  kept : triplets (normalize u mergeSlashes)
    = (survivors mergeSlashes ((split '/' u).map decodeTriplets)).1.flatMap triplets
  all_kept : (∀ s ∈ split '/' u, decodeTriplets s ≠ ['.', '.']) →
    triplets (normalize u mergeSlashes) = reservedTriplets u
  merged : mergeSlashes = true → u.head? = some '/' → ¬ ['/', '/'] <:+: normalize u mergeSlashes

/-- **`normalize` is canonical**: for every text whose percent signs are
all followed by two hexadecimal digits. -/
theorem normalize_canonical {u : List Char} (hu : Followed Hex u) (mergeSlashes : Bool) :
    Canonical u mergeSlashes := by
  have h := Encoded.of_followed hu
  obtain ⟨first, kept, hnormal⟩ := exists_normalized h mergeSlashes
  have heq := hnormal.normalize_eq
  refine ⟨?_, ?_, ?_, ?_, ?_, ?_, ?_⟩
  · rw [heq]
    exact hnormal.normalize_of_decode (decodeTriplets_of_reserved hnormal.encoded)
  · rw [heq, hnormal.left.split_eq]
    intro s hs
    have hdot : ¬ Dot s := by
      rcases List.mem_cons.mp hs with rfl | hs
      · exact hnormal.left.no_dot
      · exact hnormal.left.settled.no_dot s hs
    exact ⟨fun hone => hdot (.inl hone), fun htwo => hdot (.inr htwo)⟩
  · rw [heq]
    exact hnormal.encoded.followed fun _ _ => Reserved.hex
  · intro s hs
    refine triplets_decode ?_
    obtain ⟨t, rest, hsplit, rfl⟩ := split_join u
    rw [encoded_slashed_iff fun _ _ hok => hok] at h
    rw [hsplit] at hs
    exact List.forall_mem_cons.mpr h s hs
  · rw [heq]
    exact hnormal.triplets_eq
  · intro hdots
    rw [heq, hnormal.triplets_eq, ← flatMap_split h]
    refine (survivors_flatMap rfl rfl mergeSlashes ?_).2
    simpa using hdots
  · rintro rfl -
    rw [heq]
    exact hnormal.left.no_double_slash

theorem normalize_canonical_mixed :
    Followed Hex "/a%2f/%2E%2e//b%41".toList ∧ Canonical "/a%2f/%2E%2e//b%41".toList true := by
  have h : Encoded Hex "/a%2f/%2E%2e//b%41".toList :=
    .char (by decide) <| .char (by decide) <| .triplet (by decide) <| .char (by decide) <|
      .triplet (by decide) <| .triplet (by decide) <| .char (by decide) <| .char (by decide) <|
      .char (by decide) <| .triplet (by decide) .nil
  have hfollowed := h.followed fun _ _ hok => hok
  exact ⟨hfollowed, normalize_canonical hfollowed true⟩

/-- A reserved triplet goes with its segment. -/
theorem dot_segment_takes_triplet :
    ('2', 'F') ∈ reservedTriplets "/a%2F/..".toList ∧
      ('2', 'F') ∉ triplets (normalize "/a%2F/..".toList false) ∧
      ¬ ∀ (u : List Char) (mergeSlashes : Bool), Followed Hex u →
        ∀ t ∈ reservedTriplets u, t ∈ triplets (normalize u mergeSlashes) := by
  have hmem : ('2', 'F') ∈ reservedTriplets "/a%2F/..".toList := by decide
  have hgone : ('2', 'F') ∉ triplets (normalize "/a%2F/..".toList false) := by decide
  refine ⟨hmem, hgone, fun hall => hgone (hall _ false ?_ _ hmem)⟩
  refine Encoded.followed (fun _ _ hok => hok) ?_
  exact .char (by decide) <| .char (by decide) <| .triplet (by decide) <| .char (by decide) <|
    .char (by decide) <| .char (by decide) .nil

end KongGateway.Kong.Tools

import KongGateway.Kong.Tools.Uri

/-!
# DotSegments — the loop of `normalize` over segments

What the loop does to a path, said of its segments: `resolve` reads them
once from the left and keeps the stored texts as the loop does, and
`survivors` says from the right which of them are left when all is read.
`removeDots_eq` connects the first to the loop, `resolve_eq` the second
to the first. The rest is about the segments that survive.
-/

namespace KongGateway.Kong.Tools

open Segments

abbrev Segment := List Char

/-- The text of segments, each behind a slash. -/
def slashed (segments : List Segment) : List Char := segments.flatMap ('/' :: ·)

@[simp] theorem slashed_nil : slashed [] = [] := rfl

@[simp] theorem slashed_cons (s : Segment) (rest : List Segment) :
    slashed (s :: rest) = '/' :: (s ++ slashed rest) := rfl

theorem slashed_rooted (segments : List Segment) : Rooted (slashed segments) := by
  cases segments with
  | nil => exact .inl rfl
  | cons s rest => exact .inr ⟨_, rfl⟩

/-! ## The segments of a text -/

theorem not_mem_split {l : List Char} {s : Segment} (hs : s ∈ split '/' l) : '/' ∉ s := by
  induction l generalizing s with
  | nil =>
    rw [split, List.mem_singleton] at hs
    simp [hs]
  | cons c rest ih =>
    rw [split] at hs
    split_ifs at hs with hc
    · rcases List.mem_cons.mp hs with rfl | hs
      · exact List.not_mem_nil
      · exact ih hs
    · cases hrest : split '/' rest with
      | nil => exact absurd hrest (split_ne_nil rest)
      | cons first others =>
        rw [hrest] at hs ih
        rcases List.mem_cons.mp hs with rfl | hs
        · simp only [List.mem_cons, not_or]
          exact ⟨Ne.symm hc, ih List.mem_cons_self⟩
        · exact ih (List.mem_cons_of_mem first hs)

theorem split_join (l : List Char) :
    ∃ s rest, split '/' l = s :: rest ∧ l = s ++ slashed rest := by
  induction l with
  | nil => exact ⟨[], [], rfl, rfl⟩
  | cons c l ih =>
    obtain ⟨s, rest, hsplit, hl⟩ := ih
    rw [split]
    split_ifs with hc
    · exact ⟨[], s :: rest, by rw [hsplit], by rw [hc, hl]; rfl⟩
    · exact ⟨c :: s, rest, by rw [hsplit], by rw [hl]; rfl⟩

theorem split_slashed {s : Segment} {rest : List Segment} (hs : '/' ∉ s)
    (hrest : ∀ t ∈ rest, '/' ∉ t) : split '/' (s ++ slashed rest) = s :: rest := by
  induction rest generalizing s with
  | nil => rw [slashed_nil, List.append_nil, split_of_not_mem hs]
  | cons t rest ih =>
    rw [slashed_cons, split_append_sep, split_of_not_mem hs,
      ih (hrest t List.mem_cons_self) fun u hu => hrest u (List.mem_cons_of_mem _ hu)]
    rfl

theorem starts_iff {q p s tail : List Char} (hp : q ++ ['/'] = p) (hq : '/' ∉ q) (hs : '/' ∉ s)
    (htail : Rooted tail) : p <+: s ++ tail ↔ s = q ∧ tail ≠ [] := by
  subst hp
  induction q generalizing s with
  | nil =>
    cases s with
    | nil =>
      rcases htail with rfl | ⟨rest, rfl⟩ <;> simp
    | cons c s =>
      have hc : '/' ≠ c := by
        rintro rfl
        exact hs List.mem_cons_self
      simp [List.cons_prefix_cons, hc]
  | cons d q ih =>
    cases s with
    | nil =>
      have hd : d ≠ '/' := by
        rintro rfl
        exact hq List.mem_cons_self
      rcases htail with rfl | ⟨rest, rfl⟩ <;> simp [List.cons_prefix_cons, hd]
    | cons c s =>
      rw [List.cons_append, List.cons_append, List.cons_prefix_cons,
        ih (fun h => hq (List.mem_cons_of_mem _ h)) fun h => hs (List.mem_cons_of_mem _ h),
        List.cons.injEq, ← and_assoc, eq_comm]

theorem text_eq_iff {q s tail : List Char} (hq : '/' ∉ q) (htail : Rooted tail) :
    s ++ tail = q ↔ s = q ∧ tail = [] := by
  constructor
  · intro h
    rcases htail with rfl | ⟨rest, rfl⟩
    · exact ⟨by rwa [List.append_nil] at h, rfl⟩
    · exact absurd (by simp [← h]) hq
  · rintro ⟨rfl, rfl⟩
    exact List.append_nil s

/-! ## The loop over segments -/

/-- The loop of `normalize` on a text that starts with a slash. A dot
segment at the end leaves its slash behind. -/
def resolve (mergeSlashes : Bool) : List Segment → List (List Char) → List (List Char)
  | [], output => output
  | [s], output =>
    if s = ['.'] then ['/'] :: output
    else if s = ['.', '.'] then ['/'] :: output.tail
    else ('/' :: s) :: output
  | s :: next :: rest, output =>
    if s = ['.'] then resolve mergeSlashes (next :: rest) output
    else if s = ['.', '.'] then resolve mergeSlashes (next :: rest) output.tail
    else if mergeSlashes = true ∧ s = [] then resolve mergeSlashes (next :: rest) output
    else resolve mergeSlashes (next :: rest) (('/' :: s) :: output)

/-- The loop of `normalize` on any text, whose first segment has no
slash in front of it. -/
def resolveText (mergeSlashes : Bool) : List Segment → List (List Char)
  | [] => []
  | s :: rest =>
    if Dot s then resolveText mergeSlashes rest
    else if s = [] then resolve mergeSlashes rest []
    else resolve mergeSlashes rest [s]

theorem removeDots_nil (mergeSlashes : Bool) (fuel : Nat) (output : List (List Char)) :
    removeDots mergeSlashes fuel [] output = output := by
  cases fuel <;> rfl

section Round

variable {mergeSlashes : Bool} {s tail : List Char}

theorem takeWhile_segment (hs : '/' ∉ s) (htail : Rooted tail) :
    (s ++ tail).takeWhile (· ≠ '/') = s ∧ (s ++ tail).dropWhile (· ≠ '/') = tail := by
  have hall : ∀ c ∈ s, (decide (c ≠ '/')) = true := by
    intro c hc
    simp only [decide_eq_true_eq]
    rintro rfl
    exact hs hc
  rw [List.takeWhile_append_of_pos hall, List.dropWhile_append_of_pos hall]
  rcases htail with rfl | ⟨rest, rfl⟩ <;> simp

theorem removeDots_store (hs : '/' ∉ s) (htail : Rooted tail) (hdot : ¬ Dot s)
    (hmerge : ¬ (mergeSlashes = true ∧ s = [] ∧ tail ≠ [])) (fuel : Nat)
    (output : List (List Char)) :
    removeDots mergeSlashes (fuel + 1) ('/' :: (s ++ tail)) output
      = removeDots mergeSlashes fuel tail (('/' :: s) :: output) := by
  obtain ⟨htake, hdrop⟩ := takeWhile_segment hs htail
  have h₁ : ¬ '/' :: (s ++ tail) = ['/', '.'] := by
    rw [List.cons.injEq, text_eq_iff (by decide) htail]
    exact fun h => hdot (.inl h.2.1)
  have h₂ : ¬ '/' :: (s ++ tail) = ['/', '.', '.'] := by
    rw [List.cons.injEq, text_eq_iff (by decide) htail]
    exact fun h => hdot (.inr h.2.1)
  have h₃ : ¬ ['/', '.', '/'] <+: '/' :: (s ++ tail) := by
    rw [List.cons_prefix_cons, starts_iff (p := ['.', '/']) (q := ['.']) rfl (by decide) hs htail]
    exact fun h => hdot (.inl h.2.1)
  have h₄ : ¬ ['/', '.', '.', '/'] <+: '/' :: (s ++ tail) := by
    rw [List.cons_prefix_cons, starts_iff (p := ['.', '.', '/']) (q := ['.', '.']) rfl (by decide) hs htail]
    exact fun h => hdot (.inr h.2.1)
  have h₅ : ¬ (mergeSlashes = true ∧ ['/', '/'] <+: '/' :: (s ++ tail)) := by
    rw [List.cons_prefix_cons, starts_iff (p := ['/']) (q := []) rfl (by decide) hs htail]
    exact fun h => hmerge ⟨h.1, h.2.2⟩
  rw [removeDots, if_neg h₁, if_neg h₂, if_neg (by simp), if_neg (by simp), if_neg (by simp),
    if_neg h₃, if_neg h₄, if_neg h₅, htake, hdrop]

theorem removeDots_store_first (hs : '/' ∉ s) (htail : Rooted tail) (hdot : ¬ Dot s)
    (hne : s ≠ []) (fuel : Nat) (output : List (List Char)) :
    removeDots mergeSlashes (fuel + 1) (s ++ tail) output
      = removeDots mergeSlashes fuel tail (s :: output) := by
  obtain ⟨c, s, rfl⟩ := List.exists_cons_of_ne_nil hne
  have hc : c ≠ '/' := by
    rintro rfl
    exact hs List.mem_cons_self
  obtain ⟨htake, hdrop⟩ := takeWhile_segment (fun h => hs (List.mem_cons_of_mem c h)) htail
  have h₁ : ¬ (c :: s ++ tail = ['.'] ∨ c :: s ++ tail = ['.', '.']) := by
    rw [text_eq_iff (by decide) htail, text_eq_iff (by decide) htail]
    exact fun h => hdot (h.imp And.left And.left)
  have h₂ : ¬ ['.', '.', '/'] <+: c :: s ++ tail := by
    rw [starts_iff (p := ['.', '.', '/']) (q := ['.', '.']) rfl (by decide) hs htail]
    exact fun h => hdot (.inr h.1)
  have h₃ : ¬ ['.', '/'] <+: c :: s ++ tail := by
    rw [starts_iff (p := ['.', '/']) (q := ['.']) rfl (by decide) hs htail]
    exact fun h => hdot (.inl h.1)
  rw [List.cons_append] at h₁ h₂ h₃ ⊢
  rw [removeDots, if_neg (by simp [hc]), if_neg (by simp [hc]), if_neg h₁, if_neg h₂, if_neg h₃,
    if_neg (by simp [List.cons_prefix_cons, hc.symm]),
    if_neg (by simp [List.cons_prefix_cons, hc.symm]),
    if_neg (by simp [List.cons_prefix_cons, hc.symm]), htake, hdrop]

end Round

/-- **The loop on a text that starts with a slash** goes over its
segments. -/
theorem removeDots_eq (mergeSlashes : Bool) {segments : List Segment}
    (hsegments : ∀ s ∈ segments, '/' ∉ s) {fuel : Nat} (hfuel : (slashed segments).length ≤ fuel)
    (output : List (List Char)) :
    removeDots mergeSlashes fuel (slashed segments) output
      = resolve mergeSlashes segments output := by
  induction segments generalizing fuel output with
  | nil => exact removeDots_nil mergeSlashes fuel output
  | cons s rest ih =>
    have hs := hsegments s List.mem_cons_self
    have hrest : ∀ t ∈ rest, '/' ∉ t := fun t ht => hsegments t (List.mem_cons_of_mem _ ht)
    rw [slashed_cons, List.length_cons, List.length_append] at hfuel
    obtain ⟨fuel, rfl⟩ := Nat.exists_eq_add_of_lt (show 0 < fuel by omega)
    rw [Nat.zero_add]
    cases rest with
    | nil =>
      rw [slashed_cons, slashed_nil, List.append_nil, resolve]
      split_ifs with h₁ h₂
      · -- the slash that is left is stored in a round of its own
        obtain ⟨fuel, rfl⟩ := Nat.exists_eq_add_of_lt (show 0 < fuel by simp_all; omega)
        rw [h₁, removeDots, if_pos rfl, Nat.zero_add]
        exact (removeDots_store (s := []) List.not_mem_nil (.inl rfl) not_dot_nil (by simp)
          fuel output).trans (removeDots_nil _ _ _)
      · obtain ⟨fuel, rfl⟩ := Nat.exists_eq_add_of_lt (show 0 < fuel by simp_all; omega)
        rw [h₂, removeDots, if_neg (by decide), if_pos rfl, Nat.zero_add]
        exact (removeDots_store (s := []) List.not_mem_nil (.inl rfl) not_dot_nil (by simp)
          fuel output.tail).trans (removeDots_nil _ _ _)
      · have hstore := @removeDots_store mergeSlashes s [] hs (.inl rfl)
          (fun h => h.elim h₁ h₂) (by simp) fuel output
        rw [List.append_nil] at hstore
        rw [hstore, removeDots_nil]
    | cons next rest =>
      rw [slashed_cons, resolve]
      have hlen : (slashed (next :: rest)).length ≤ fuel := by omega
      split_ifs with h₁ h₂ h₃
      · rw [h₁, ← ih hrest hlen, slashed_cons, removeDots]
        rw [if_neg (by simp), if_neg (by simp), if_neg (by simp), if_neg (by simp),
          if_neg (by simp), if_pos ⟨_, rfl⟩]
        rfl
      · rw [h₂, ← ih hrest hlen, slashed_cons, removeDots]
        rw [if_neg (by simp), if_neg (by simp), if_neg (by simp), if_neg (by simp),
          if_neg (by simp), if_neg (by simp), if_pos ⟨_, rfl⟩]
        rfl
      · rw [h₃.2, ← ih hrest hlen, slashed_cons, removeDots]
        rw [if_neg (by simp), if_neg (by simp), if_neg (by simp), if_neg (by simp),
          if_neg (by simp), if_neg (by simp), if_neg (by simp), if_pos ⟨h₃.1, _, rfl⟩]
        rfl
      · rw [← ih hrest hlen]
        exact removeDots_store hs (slashed_rooted _) (fun h => h.elim h₁ h₂)
          (fun h => h₃ ⟨h.1, h.2.1⟩) fuel output

/-- **The loop on any text.** -/
theorem removeDots_text (mergeSlashes : Bool) {s : Segment} {rest : List Segment}
    (hs : '/' ∉ s) (hrest : ∀ t ∈ rest, '/' ∉ t) {fuel : Nat}
    (hfuel : (s ++ slashed rest).length ≤ fuel) :
    removeDots mergeSlashes fuel (s ++ slashed rest) []
      = resolveText mergeSlashes (s :: rest) := by
  induction rest generalizing s fuel with
  | nil =>
    rw [slashed_nil, List.append_nil] at hfuel ⊢
    rw [resolveText]
    split_ifs with hdot hnil
    · obtain ⟨fuel, rfl⟩ := Nat.exists_eq_add_of_lt
        (show 0 < fuel by rcases hdot with rfl | rfl <;> simp_all <;> omega)
      rw [Nat.zero_add]
      rcases hdot with rfl | rfl <;> exact removeDots_nil _ _ _
    · rw [hnil, removeDots_nil, resolve]
    · obtain ⟨fuel, rfl⟩ := Nat.exists_eq_add_of_lt
        (show 0 < fuel from Nat.lt_of_lt_of_le (List.length_pos_of_ne_nil hnil) hfuel)
      have hstore := @removeDots_store_first mergeSlashes s [] hs (.inl rfl) hdot hnil
        (0 + fuel) []
      rw [List.append_nil] at hstore
      rw [hstore, removeDots_nil, resolve]
  | cons t rest ih =>
    have ht := hrest t List.mem_cons_self
    have hothers : ∀ u ∈ rest, '/' ∉ u := fun u hu => hrest u (List.mem_cons_of_mem _ hu)
    rw [List.length_append] at hfuel
    rw [resolveText]
    split_ifs with hdot hnil
    · rw [slashed_cons, List.length_cons] at hfuel
      obtain ⟨fuel, rfl⟩ := Nat.exists_eq_add_of_lt (show 0 < fuel by omega)
      have hlen : (t ++ slashed rest).length ≤ 0 + fuel := by omega
      rw [← ih ht hothers hlen, slashed_cons]
      rcases hdot with rfl | rfl
      · show removeDots mergeSlashes (0 + fuel + 1) ('.' :: '/' :: (t ++ slashed rest)) [] = _
        rw [removeDots, if_neg (by simp), if_neg (by simp), if_neg (by simp), if_neg (by simp),
          if_pos ⟨_, rfl⟩]
        rfl
      · show removeDots mergeSlashes (0 + fuel + 1) ('.' :: '.' :: '/' :: (t ++ slashed rest)) []
          = _
        rw [removeDots, if_neg (by simp), if_neg (by simp), if_neg (by simp), if_pos ⟨_, rfl⟩]
        rfl
    · rw [hnil, List.nil_append]
      exact removeDots_eq mergeSlashes hrest (by omega) []
    · have hpos := List.length_pos_of_ne_nil hnil
      obtain ⟨fuel, rfl⟩ := Nat.exists_eq_add_of_lt (show 0 < fuel by omega)
      rw [removeDots_store_first hs (slashed_rooted _) hdot hnil]
      exact removeDots_eq mergeSlashes hrest (by omega) [s]

/-! ## The segments that survive -/

/-- One segment in front of those that are left, of which `state.2` more
are to go. An empty segment is passed over when slashes are merged. -/
def readBack (mergeSlashes : Bool) (s : Segment) (state : List Segment × Nat) :
    List Segment × Nat :=
  if s = ['.'] ∨ mergeSlashes = true ∧ s = [] then state
  else if s = ['.', '.'] then (state.1, state.2 + 1)
  else if state.2 = 0 then (s :: state.1, 0)
  else (state.1, state.2 - 1)

/-- The segments that are left, and how many of those before them go,
read from the right. A dot segment at the end leaves an empty one. -/
def survivors (mergeSlashes : Bool) : List Segment → List Segment × Nat
  | [] => ([], 0)
  | [s] => if s = ['.'] then ([[]], 0) else if s = ['.', '.'] then ([[]], 1) else ([s], 0)
  | s :: next :: rest => readBack mergeSlashes s (survivors mergeSlashes (next :: rest))

/-- **What the loop leaves**: the texts of the survivors on those of the
texts before that no `..` took out. -/
theorem resolve_eq (mergeSlashes : Bool) (segments : List Segment) (output : List (List Char)) :
    resolve mergeSlashes segments output
      = ((survivors mergeSlashes segments).1.map ('/' :: ·)).reverse
        ++ output.drop (survivors mergeSlashes segments).2 := by
  induction segments, output using resolve.induct mergeSlashes with
  | case1 output => rfl
  | case2 output => rfl
  | case3 output => simp [resolve, survivors]
  | case4 s output h₁ h₂ => simp [resolve, survivors, h₁, h₂]
  | case5 next rest output ih => rw [resolve, if_pos rfl, ih, survivors, readBack, if_pos (.inl rfl)]
  | case6 next rest output _ ih =>
    rw [resolve, if_neg (by simp), if_pos rfl, ih, survivors, readBack, if_neg (by simp),
      if_pos rfl, List.drop_tail]
  | case7 s next rest output h₁ h₂ h₃ ih =>
    rw [resolve, if_neg h₁, if_neg h₂, if_pos h₃, ih, survivors, readBack, if_pos (.inr h₃)]
  | case8 s next rest output h₁ h₂ h₃ ih =>
    rw [resolve, if_neg h₁, if_neg h₂, if_neg h₃, ih, survivors, readBack,
      if_neg (fun h => h.elim h₁ h₃), if_neg h₂]
    split_ifs with htaken
    · simp [htaken]
    · obtain ⟨taken, htaken⟩ := Nat.exists_eq_succ_of_ne_zero htaken
      rw [htaken, List.drop_succ_cons, Nat.succ_eq_add_one, Nat.add_sub_cancel]

/-- Segments that the loop leaves alone. -/
structure Settled (mergeSlashes : Bool) (segments : List Segment) : Prop where
  no_slash : ∀ s ∈ segments, '/' ∉ s
  no_dot : ∀ s ∈ segments, ¬ Dot s
  merged : mergeSlashes = true → [] ∉ segments.dropLast

theorem Settled.tail {mergeSlashes : Bool} {s : Segment} {rest : List Segment}
    (h : Settled mergeSlashes (s :: rest)) : Settled mergeSlashes rest := by
  refine ⟨fun t ht => h.no_slash t (List.mem_cons_of_mem s ht),
    fun t ht => h.no_dot t (List.mem_cons_of_mem s ht), fun hmerge hmem => ?_⟩
  cases rest with
  | nil => simp at hmem
  | cons next rest =>
    refine h.merged hmerge ?_
    rw [List.dropLast_cons_cons]
    exact List.mem_cons_of_mem s hmem

theorem survivors_settled (mergeSlashes : Bool) {segments : List Segment}
    (hsegments : ∀ s ∈ segments, '/' ∉ s) :
    Settled mergeSlashes (survivors mergeSlashes segments).1 := by
  have hempty : Settled mergeSlashes [[]] := ⟨by simp, by simp [not_dot_nil], by simp⟩
  induction segments with
  | nil => exact ⟨by simp [survivors], by simp [survivors], by simp [survivors]⟩
  | cons s rest ih =>
    have hs := hsegments s List.mem_cons_self
    have hrest := ih fun t ht => hsegments t (List.mem_cons_of_mem _ ht)
    cases rest with
    | nil =>
      rw [survivors]
      split_ifs with h₁ h₂
      · exact hempty
      · exact hempty
      · exact ⟨by simpa using hs, by simpa using fun h : Dot s => h.elim h₁ h₂, by simp⟩
    | cons next rest =>
      rw [survivors, readBack]
      split_ifs with h₁ h₂ h₃
      · exact hrest
      · exact hrest
      · refine ⟨List.forall_mem_cons.mpr ⟨hs, hrest.no_slash⟩,
          List.forall_mem_cons.mpr ⟨fun h => h.elim (fun h => h₁ (.inl h)) h₂, hrest.no_dot⟩,
          fun hmerge hmem => ?_⟩
        generalize (survivors mergeSlashes (next :: rest)).1 = kept at hrest hmem
        cases kept with
        | nil => simp at hmem
        | cons t kept =>
          rw [List.dropLast_cons_cons] at hmem
          rcases List.mem_cons.mp hmem with hnil | hmem
          · exact h₁ (.inr ⟨hmerge, hnil.symm⟩)
          · exact hrest.merged hmerge hmem
      · exact hrest

theorem Settled.survivors_eq {mergeSlashes : Bool} {segments : List Segment}
    (h : Settled mergeSlashes segments) : survivors mergeSlashes segments = (segments, 0) := by
  induction segments with
  | nil => rfl
  | cons s rest ih =>
    have hdot := h.no_dot s List.mem_cons_self
    cases rest with
    | nil => rw [survivors, if_neg fun hs => hdot (.inl hs), if_neg fun hs => hdot (.inr hs)]
    | cons next rest =>
      have hskip : ¬ (s = ['.'] ∨ mergeSlashes = true ∧ s = []) := by
        rintro (hs | ⟨hmerge, hs⟩)
        · exact hdot (.inl hs)
        · refine h.merged hmerge ?_
          rw [hs, List.dropLast_cons_cons]
          exact List.mem_cons_self
      rw [survivors, ih h.tail, readBack, if_neg hskip, if_neg fun hs => hdot (.inr hs),
        if_pos rfl]

/-! ## The text the loop leaves -/

theorem flatten_stored (kept : List Segment) (output : List (List Char)) :
    ((kept.map ('/' :: ·)).reverse ++ output).reverse.flatten
      = output.reverse.flatten ++ slashed kept := by
  rw [List.reverse_append, List.reverse_reverse, List.flatten_append]
  rfl

/-- The first segment and the others of the text that the loop leaves. -/
structure Left (mergeSlashes : Bool) (segments : List Segment) (first : Segment)
    (kept : List Segment) : Prop where
  text : (resolveText mergeSlashes segments).reverse.flatten = first ++ slashed kept
  no_slash : '/' ∉ first
  no_dot : ¬ Dot first
  settled : Settled mergeSlashes kept
  /-- But for empty ones, these are the survivors. -/
  survive : (first :: kept).filter (· ≠ []) = (survivors mergeSlashes segments).1.filter (· ≠ [])

theorem exists_left (mergeSlashes : Bool) {segments : List Segment}
    (hsegments : ∀ s ∈ segments, '/' ∉ s) :
    ∃ first kept, Left mergeSlashes segments first kept := by
  induction segments with
  | nil =>
    exact ⟨[], [], rfl, List.not_mem_nil, not_dot_nil, ⟨by simp, by simp, by simp⟩, rfl⟩
  | cons s rest ih =>
    have hs := hsegments s List.mem_cons_self
    have hrest : ∀ t ∈ rest, '/' ∉ t := fun t ht => hsegments t (List.mem_cons_of_mem _ ht)
    have hsettled := survivors_settled mergeSlashes hrest
    by_cases hdot : Dot s
    · obtain ⟨first, kept, h⟩ := ih hrest
      refine ⟨first, kept, ?_, h.no_slash, h.no_dot, h.settled, h.survive.trans ?_⟩
      · rw [resolveText, if_pos hdot]
        exact h.text
      · cases rest with
        | nil => rcases hdot with rfl | rfl <;> rfl
        | cons next rest =>
          rw [survivors, readBack]
          rcases hdot with rfl | rfl
          · rw [if_pos (.inl rfl)]
          · rw [if_neg (by simp), if_pos rfl]
    · by_cases hnil : s = []
      · refine ⟨[], (survivors mergeSlashes rest).1, ?_, List.not_mem_nil, not_dot_nil, hsettled,
          ?_⟩
        · rw [resolveText, if_neg hdot, if_pos hnil, resolve_eq, flatten_stored]
          simp
        · subst hnil
          cases rest with
          | nil => rfl
          | cons next rest =>
            rw [survivors, readBack]
            split_ifs <;> simp
      · -- the first text is taken out like the others
        by_cases htaken : (survivors mergeSlashes rest).2 = 0
        · refine ⟨s, (survivors mergeSlashes rest).1, ?_, hs, hdot, hsettled, ?_⟩
          · rw [resolveText, if_neg hdot, if_neg hnil, resolve_eq, htaken, flatten_stored]
            simp
          · cases rest with
            | nil =>
              rw [survivors, survivors, if_neg fun h => hdot (.inl h),
                if_neg fun h => hdot (.inr h)]
            | cons next rest =>
              rw [survivors, readBack,
                if_neg fun h => h.elim (fun h => hdot (.inl h)) fun h => hnil h.2,
                if_neg fun h => hdot (.inr h), if_pos htaken]
        · refine ⟨[], (survivors mergeSlashes rest).1, ?_, List.not_mem_nil, not_dot_nil,
            hsettled, ?_⟩
          · obtain ⟨taken, hsucc⟩ := Nat.exists_eq_succ_of_ne_zero htaken
            rw [resolveText, if_neg hdot, if_neg hnil, resolve_eq, hsucc, flatten_stored]
            simp
          · cases rest with
            | nil => exact absurd rfl htaken
            | cons next rest =>
              rw [survivors, readBack,
                if_neg fun h => h.elim (fun h => hdot (.inl h)) fun h => hnil h.2,
                if_neg fun h => hdot (.inr h), if_neg htaken]
              simp

theorem Left.resolveText_eq {mergeSlashes : Bool} {segments kept : List Segment} {first : Segment}
    (h : Left mergeSlashes segments first kept) :
    (resolveText mergeSlashes (first :: kept)).reverse.flatten = first ++ slashed kept := by
  rw [resolveText, if_neg h.no_dot]
  split_ifs with hnil
  · rw [resolve_eq, h.settled.survivors_eq, flatten_stored, hnil]
    rfl
  · rw [resolve_eq, h.settled.survivors_eq, flatten_stored]
    simp

theorem Left.split_eq {mergeSlashes : Bool} {segments kept : List Segment} {first : Segment}
    (h : Left mergeSlashes segments first kept) :
    split '/' (first ++ slashed kept) = first :: kept :=
  split_slashed h.no_slash h.settled.no_slash

theorem Left.no_double_slash {segments kept : List Segment} {first : Segment}
    (h : Left true segments first kept) : ¬ ['/', '/'] <:+: first ++ slashed kept := by
  rintro ⟨before, after, heq⟩
  have hsplit := h.split_eq
  rw [← heq, show before ++ ['/', '/'] ++ after = before ++ '/' :: ([] ++ '/' :: after) by simp,
    split_append_sep, split_append_sep, split_of_not_mem List.not_mem_nil] at hsplit
  obtain ⟨t, others, hbefore⟩ := List.exists_cons_of_ne_nil (@split_ne_nil Char _ '/' before)
  rw [hbefore, List.cons_append] at hsplit
  refine h.settled.merged rfl ?_
  rw [← (List.cons.inj hsplit).2,
    List.dropLast_append_of_ne_nil (by simp), List.singleton_append,
    List.dropLast_cons_of_ne_nil (split_ne_nil after)]
  simp

end KongGateway.Kong.Tools

import KongGateway.Kong.Balancers.Slots
import KongGateway.Kong.Balancers.Weights

/-!
# DnsUpdate — the addresses of a target follow its DNS answers

`update_dns_result` compares a sorted answer with the one before it by
key, and finds the addresses to change by ip and port. The addresses are
those of the top entries of the last answer as long as the two agree:
no endpoint twice among the top entries, no endpoint of a top entry
among the entries of lower priority before, and no second priority in
an answer that starts from nothing.
-/

namespace KongGateway.Kong.Balancers

/-! ## Lists with distinct keys -/

section Lists

variable {α β γ δ : Type} [DecidableEq γ] [DecidableEq δ]

theorem filter_of_nodup_map {f : α → γ} {l : List α} (h : (l.map f).Nodup) {a : α} (ha : a ∈ l) :
    (l.filter fun x => decide (f x = f a)) = [a] := by
  induction l with
  | nil => exact absurd ha List.not_mem_nil
  | cons x rest ih =>
    rw [List.map_cons, List.nodup_cons] at h
    rcases List.mem_cons.mp ha with rfl | hrest
    · rw [List.filter_cons_of_pos (by simp), List.filter_eq_nil_iff.mpr]
      intro y hy hsame
      exact h.1 (of_decide_eq_true hsame ▸ List.mem_map_of_mem hy)
    · have hne : ¬ f x = f a := fun hsame => h.1 (hsame ▸ List.mem_map_of_mem hrest)
      rw [List.filter_cons_of_neg (by simpa using hne), ih h.2 hrest]

theorem perm_of_filter {f : α → γ} {w : α → δ} {f' : β → γ} {w' : β → δ} {l : List α} {l' : List β}
    (h : ∀ g, ((l.filter fun a => decide (f a = g)).map w).Perm
      ((l'.filter fun a => decide (f' a = g)).map w')) :
    (l.map fun a => (f a, w a)).Perm (l'.map fun a => (f' a, w' a)) := by
  rw [List.perm_iff_count]
  rintro ⟨g, x⟩
  have hcount := (h g).count_eq x
  simp only [List.count_eq_countP, List.countP_map, List.countP_filter] at hcount ⊢
  refine Eq.trans (List.countP_congr ?_) (hcount.trans (List.countP_congr ?_))
  · intro a _
    simp [Prod.ext_iff, and_comm]
  · intro a _
    simp [Prod.ext_iff, and_comm]

end Lists

/-! ## Entries and their slots -/

section Entries

variable {target : Target} {entries : List Entry} {g : String × Nat}

theorem entrySlots_append (l l' : List Entry) :
    entrySlots target (l ++ l') g = entrySlots target l g ++ entrySlots target l' g := by
  rw [entrySlots, List.filter_append, List.map_append]
  rfl

theorem entrySlots_perm {l l' : List Entry} (h : l.Perm l') :
    (entrySlots target l g).Perm (entrySlots target l' g) := (h.filter _).map _

theorem entrySlots_of_mem (h : (entries.map (endpoint target)).Nodup) {e : Entry}
    (he : e ∈ entries) : entrySlots target entries (endpoint target e)
      = [(entryWeight target e, false)] := by
  rw [entrySlots, filter_of_nodup_map h he]
  rfl

theorem entrySlots_of_not_mem (h : g ∉ entries.map (endpoint target)) :
    entrySlots target entries g = [] := by
  rw [entrySlots, List.map_eq_nil_iff, List.filter_eq_nil_iff]
  intro e he hg
  exact h (of_decide_eq_true hg ▸ List.mem_map_of_mem he)

theorem entrySlots_length_le (h : (entries.map (endpoint target)).Nodup) :
    (entrySlots target entries g).length ≤ 1 := by
  by_cases hg : g ∈ entries.map (endpoint target)
  · obtain ⟨e, he, rfl⟩ := List.mem_map.mp hg
    rw [entrySlots_of_mem h he]
    simp
  · rw [entrySlots_of_not_mem hg]
    simp

theorem entrySlots_enabled : (entrySlots target entries g).filter (fun slot => !slot.2)
    = entrySlots target entries g := by
  rw [List.filter_eq_self]
  intro slot hslot
  obtain ⟨e, -, rfl⟩ := List.mem_map.mp hslot
  rfl

end Entries

/-! ## The loops -/

section Loops

variable (lib : Lib) {b₀ b : Balancer} {t : TargetId} {g : String × Nat}

theorem foldl_addAddress (h : UnderWay b₀ b t) (entries : List Entry) :
    UnderWay b₀ (entries.foldl (fun b entry => (addAddress lib b t entry).2) b) t
      ∧ Same (KeepsOrder b₀)
        (slots (entries.foldl (fun b entry => (addAddress lib b t entry).2) b) t g)
        (slots b t g ++ entrySlots (b₀.target t) entries g) := by
  induction entries generalizing b with
  | nil =>
    refine ⟨h, .of_eq ?_⟩
    simp [entrySlots]
  | cons entry rest ih =>
    obtain ⟨hfirst, hslots⟩ := h.addAddress lib entry g
    obtain ⟨hrest, hslots'⟩ := ih hfirst
    refine ⟨hrest, hslots'.trans ((hslots.append _).trans (.of_eq ?_))⟩
    rw [List.append_assoc, ← entrySlots_append]
    rfl

theorem foldl_disableAddress_other (h : UnderWay b₀ b t) {entries : List Entry}
    (hg : g ∉ entries.map (endpoint (b₀.target t))) :
    UnderWay b₀ (entries.foldl (fun b entry => disableAddress lib b t entry) b) t
      ∧ Same (KeepsOrder b₀)
        (slots (entries.foldl (fun b entry => disableAddress lib b t entry) b) t g)
        (slots b t g) := by
  induction entries generalizing b with
  | nil => exact ⟨h, .refl _ _⟩
  | cons entry rest ih =>
    rw [List.map_cons, List.mem_cons, not_or] at hg
    obtain ⟨hfirst, hslots⟩ := h.disableAddress lib entry g
    rw [if_neg (Ne.symm hg.1)] at hslots
    obtain ⟨hrest, hslots'⟩ := ih hfirst hg.2
    exact ⟨hrest, hslots'.trans hslots⟩

theorem foldl_disableAddress_single (h : UnderWay b₀ b t) {entries : List Entry}
    (hlen : (slots b t g).length ≤ 1) (hg : g ∈ entries.map (endpoint (b₀.target t))) :
    UnderWay b₀ (entries.foldl (fun b entry => disableAddress lib b t entry) b) t
      ∧ slots (entries.foldl (fun b entry => disableAddress lib b t entry) b) t g
        = (slots b t g).map fun _ => (0, true) := by
  induction entries generalizing b with
  | nil => exact absurd hg List.not_mem_nil
  | cons entry rest ih =>
    obtain ⟨hfirst, hslots⟩ := h.disableAddress lib entry g
    have hdisabled : endpoint (b₀.target t) entry = g →
        slots (disableAddress lib b t entry) t g = (slots b t g).map fun _ => (0, true) := by
      intro hentry
      have hone : disableFirst (slots b t g) = (slots b t g).map fun _ => (0, true) := by
        match hlist : slots b t g, hlen with
        | [], _ => rfl
        | [slot], _ => rfl
      rw [if_pos hentry, hone] at hslots
      exact hslots.eq_of_length_le (by simpa using hlen)
    have hsame : ¬ endpoint (b₀.target t) entry = g →
        slots (disableAddress lib b t entry) t g = slots b t g := by
      intro hentry
      rw [if_neg hentry] at hslots
      exact hslots.eq_of_length_le hlen
    have hshort : (slots (disableAddress lib b t entry) t g).length ≤ 1 := by
      by_cases hentry : endpoint (b₀.target t) entry = g
      · rw [hdisabled hentry, List.length_map]
        exact hlen
      · rwa [hsame hentry]
    by_cases hmem : g ∈ rest.map (endpoint (b₀.target t))
    · obtain ⟨hrest, hslots'⟩ := ih hfirst hshort hmem
      refine ⟨hrest, hslots'.trans ?_⟩
      by_cases hentry : endpoint (b₀.target t) entry = g
      · rw [hdisabled hentry, List.map_map]
        rfl
      · rw [hsame hentry]
    · have hentry : endpoint (b₀.target t) entry = g := by
        rcases List.mem_cons.mp hg with heq | hrest
        · exact heq.symm
        · exact absurd hrest hmem
      obtain ⟨hrest, hslots'⟩ := foldl_disableAddress_other lib hfirst hmem
      exact ⟨hrest, (hslots'.eq_of_length_le hshort).trans (hdisabled hentry)⟩

theorem foldl_disableAddress_pair (h : UnderWay b₀ b t) {entries : List Entry} {entry : Entry}
    (honce : (entries.filter fun e => decide (endpoint (b₀.target t) e = g)) = [entry])
    {x y : Nat × Bool} (hslots : slots b t g = [x, y]) (hpair : KeepsOrder b₀ ∨ x = y) :
    UnderWay b₀ (entries.foldl (fun b entry => disableAddress lib b t entry) b) t
      ∧ (slots (entries.foldl (fun b entry => disableAddress lib b t entry) b) t g).Perm
        [(0, true), y] := by
  obtain ⟨before, after, rfl, hbefore, hentry, hafter⟩ := List.filter_eq_cons_iff.mp honce
  have hnone : ∀ l : List Entry, (∀ e ∈ l, ¬ decide (endpoint (b₀.target t) e = g) = true) →
      g ∉ l.map (endpoint (b₀.target t)) := by
    intro l hl hmem
    obtain ⟨e, he, hsame⟩ := List.mem_map.mp hmem
    exact hl e he (decide_eq_true hsame)
  rw [List.foldl_append, List.foldl_cons]
  obtain ⟨hfirst, hkept⟩ := foldl_disableAddress_other lib h (hnone before hbefore)
  rw [hslots] at hkept
  have hpaired := hkept.eq_of_pair hpair
  obtain ⟨hsecond, hdisabled⟩ := hfirst.disableAddress lib entry g
  rw [if_pos (of_decide_eq_true hentry), hpaired] at hdisabled
  obtain ⟨hthird, hlast⟩ := foldl_disableAddress_other lib hsecond
    (hnone after (List.filter_eq_nil_iff.mp hafter))
  exact ⟨hthird, hlast.1.trans hdisabled.1⟩

end Loops

/-! ## An answer of the same type -/

section Merge

variable (lib : Lib) {b₀ b : Balancer} {t : TargetId} {g : String × Nat} {oldSorted : List Entry}

theorem entryOfKey_some {key : String} {o : Entry} (h : entryOfKey oldSorted key = some o) :
    o ∈ oldSorted ∧ o.sortKey = key := by
  rw [entryOfKey] at h
  have hkey := List.find?_some h
  exact ⟨List.mem_reverse.mp (List.mem_of_find?_eq_some h), of_decide_eq_true hkey⟩

theorem entryOfKey_isSome (key : String) :
    (entryOfKey oldSorted key).isSome ↔ key ∈ oldSorted.map Entry.sortKey := by
  rw [entryOfKey, List.find?_isSome]
  simp

/-- What an entry of the new answer does to the balancer. -/
def mergeEntry (t : TargetId) (oldSorted : List Entry) (b : Balancer) (newEntry : Entry) :
    Balancer := (updateEntry lib t oldSorted (b, false, []) newEntry).1

/-- Whether an entry of the new answer sets `dirty`. -/
def entryDirty (oldSorted : List Entry) (newEntry : Entry) : Bool :=
  match entryOfKey oldSorted newEntry.sortKey with
  | none => true
  | some oldEntry => weightChanged oldEntry newEntry

/-- The keys that are `done` are those of entries there were before. -/
def keysDone (oldSorted entries : List Entry) : List String :=
  (entries.map Entry.sortKey).filter fun key => (entryOfKey oldSorted key).isSome

theorem updateEntry_eq (dirty : Bool) (done : List String) (newEntry : Entry) :
    updateEntry lib t oldSorted (b, dirty, done) newEntry
      = (mergeEntry lib t oldSorted b newEntry, dirty || entryDirty oldSorted newEntry,
        keysDone oldSorted [newEntry] ++ done) := by
  cases hkey : entryOfKey oldSorted newEntry.sortKey with
  | none => simp [updateEntry, mergeEntry, entryDirty, keysDone, hkey]
  | some oldEntry =>
    cases hchanged : weightChanged oldEntry newEntry with
    | true => simp [updateEntry, mergeEntry, entryDirty, keysDone, hkey, hchanged]
    | false => simp [updateEntry, mergeEntry, entryDirty, keysDone, hkey, hchanged]

theorem foldl_updateEntry (t : TargetId) (oldSorted entries : List Entry) (b : Balancer)
    (dirty : Bool) (done : List String) :
    ∃ done', done'.Perm (keysDone oldSorted entries ++ done)
      ∧ entries.foldl (updateEntry lib t oldSorted) (b, dirty, done)
        = (entries.foldl (mergeEntry lib t oldSorted) b,
          dirty || entries.any (entryDirty oldSorted), done') := by
  induction entries generalizing b dirty done with
  | nil => exact ⟨done, .refl _, by simp⟩
  | cons entry rest ih =>
    rw [List.foldl_cons, updateEntry_eq]
    obtain ⟨done', hperm, hfold⟩ := ih (mergeEntry lib t oldSorted b entry)
      (dirty || entryDirty oldSorted entry) (keysDone oldSorted [entry] ++ done)
    refine ⟨done', hperm.trans ?_, ?_⟩
    · have hcons : keysDone oldSorted (entry :: rest)
          = keysDone oldSorted [entry] ++ keysDone oldSorted rest := by
        rw [keysDone, keysDone, keysDone, ← List.filter_append]
        rfl
      rw [hcons, List.append_assoc]
      exact List.perm_append_comm_assoc _ _ _
    · rw [hfold, List.foldl_cons, List.any_cons, Bool.or_assoc]

theorem mergeEntry_of_clean {entry : Entry} (h : entryDirty oldSorted entry = false) :
    mergeEntry lib t oldSorted b entry = b := by
  cases hkey : entryOfKey oldSorted entry.sortKey with
  | none => simp [entryDirty, hkey] at h
  | some oldEntry =>
    have hweight : weightChanged oldEntry entry = false := by simpa [entryDirty, hkey] using h
    simp [mergeEntry, updateEntry, hkey, hweight]

theorem foldl_mergeEntry_of_clean {entries : List Entry}
    (h : entries.any (entryDirty oldSorted) = false) :
    entries.foldl (mergeEntry lib t oldSorted) b = b := by
  induction entries with
  | nil => rfl
  | cons entry rest ih =>
    rw [List.any_cons, Bool.or_eq_false_iff] at h
    rw [List.foldl_cons, mergeEntry_of_clean lib h.1, ih h.2]

/-- The keys that are not `done` are those the new answer does not
have. -/
theorem filter_not_done {entries : List Entry} {done : List String}
    (hdone : done.Perm (keysDone oldSorted entries)) :
    (oldSorted.filter fun e => decide (e.sortKey ∉ done))
      = oldSorted.filter fun e => decide (e.sortKey ∉ entries.map Entry.sortKey) := by
  refine List.filter_congr fun e he => ?_
  rw [Bool.eq_iff_iff, decide_eq_true_iff, decide_eq_true_iff, hdone.mem_iff, keysDone,
    List.mem_filter]
  have hknown : (entryOfKey oldSorted e.sortKey).isSome :=
    (entryOfKey_isSome _).mpr (List.mem_map_of_mem he)
  rw [hknown]
  simp

/-- As many keys `done` as there were entries: all of them are. -/
theorem filter_not_done_eq_nil {entries : List Entry} {done : List String}
    (hnodup : (entries.map Entry.sortKey).Nodup)
    (hdone : done.Perm (keysDone oldSorted entries)) (hlen : done.length = oldSorted.length) :
    (oldSorted.filter fun e => decide (e.sortKey ∉ done)) = [] := by
  have hsub : done ⊆ oldSorted.map Entry.sortKey := by
    intro key hkey
    rw [hdone.mem_iff, keysDone, List.mem_filter] at hkey
    exact (entryOfKey_isSome key).mp hkey.2
  have hdistinct : done.Nodup := hdone.nodup_iff.mpr (hnodup.filter _)
  have hall : done.Perm (oldSorted.map Entry.sortKey) :=
    (List.subperm_of_subset hdistinct hsub).perm_of_length_le (by rw [List.length_map, hlen])
  rw [List.filter_eq_nil_iff]
  intro e he hnot
  exact of_decide_eq_true hnot (hall.mem_iff.mpr (List.mem_map_of_mem he))

/-- The new entries are merged, then those the new answer does not have
are disabled. -/
theorem mergeAddresses_eq {newSorted : List Entry}
    (hnodup : ((topEntries newSorted).map Entry.sortKey).Nodup) :
    (mergeAddresses lib t oldSorted newSorted b).1
      = ((oldSorted.filter fun e =>
          decide (e.sortKey ∉ (topEntries newSorted).map Entry.sortKey)).foldl
        (fun b entry => disableAddress lib b t entry)
        ((topEntries newSorted).foldl (mergeEntry lib t oldSorted) b)) := by
  obtain ⟨done, hperm, hfold⟩ :=
    foldl_updateEntry lib t oldSorted (topEntries newSorted) b false []
  rw [List.append_nil] at hperm
  rw [mergeAddresses, hfold]
  dsimp only
  split
  · rw [filter_not_done hperm]
  · rename_i hlen
    rw [← filter_not_done hperm, filter_not_done_eq_nil hnodup hperm (not_not.mp hlen)]
    rfl

/-- An update that is not `dirty` has not touched the balancer. -/
theorem mergeAddresses_of_clean {newSorted : List Entry}
    (h : (mergeAddresses lib t oldSorted newSorted b).2 = false) :
    (mergeAddresses lib t oldSorted newSorted b).1 = b := by
  obtain ⟨done, -, hfold⟩ :=
    foldl_updateEntry lib t oldSorted (topEntries newSorted) b false []
  rw [mergeAddresses, hfold] at h ⊢
  dsimp only at h ⊢
  split at h
  · cases h
  · rename_i hlen
    rw [if_neg hlen]
    rw [Bool.false_or] at h
    exact foldl_mergeEntry_of_clean lib h

theorem weight_eq_none_iff (e : Entry) : e.weight = none ↔ e.type ≠ .srv := by
  cases e with
  | _ => simp [Entry.weight, Entry.type]

/-- An entry whose weight counts as unchanged stands for the same
weight. -/
theorem entryWeight_of_unchanged (target : Target) {o e : Entry} (htype : o.type = e.type)
    (h : weightChanged o e = false) : entryWeight target o = entryWeight target e := by
  cases hweight : e.weight with
  | none =>
    have hnone : o.weight = none := by
      rwa [weight_eq_none_iff, htype, ← weight_eq_none_iff]
    rw [entryWeight, entryWeight, hnone, hweight]
  | some weight =>
    rw [weightChanged, hweight] at h
    dsimp only at h
    rw [Bool.and_eq_false_iff] at h
    rcases h with hsame | hzero
    · rw [entryWeight, entryWeight, not_not.mp (of_decide_eq_false hsame), hweight]
    · rw [Bool.not_eq_false', Bool.and_eq_true, decide_eq_true_eq, decide_eq_true_eq] at hzero
      rw [entryWeight, entryWeight, hzero.2, hweight, hzero.1]
      rfl

theorem mergeEntry_new {entry : Entry} (hkey : entryOfKey oldSorted entry.sortKey = none) :
    mergeEntry lib t oldSorted b entry = (addAddress lib b t entry).2 := by
  rw [mergeEntry, updateEntry, hkey]

theorem mergeEntry_known (target : Target) {entry o : Entry}
    (hkey : entryOfKey oldSorted entry.sortKey = some o) :
    mergeEntry lib t oldSorted b entry
      = if weightChanged o entry then (changeWeight lib b t o (entryWeight target entry)).2
        else b := by
  rw [mergeEntry, updateEntry, hkey]
  dsimp only
  split
  · rename_i hchanged
    rw [entryWeight]
    rw [weightChanged] at hchanged
    cases hweight : entry.weight with
    | none =>
      rw [hweight] at hchanged
      cases hchanged
    | some weight =>
      cases weight with
      | zero => rfl
      | succ weight => rfl
  · rfl

theorem mergeEntry_other (h : UnderWay b₀ b t) {entry : Entry}
    (htype : ∀ o ∈ oldSorted, o.type = entry.type) (hg : endpoint (b₀.target t) entry ≠ g) :
    UnderWay b₀ (mergeEntry lib t oldSorted b entry) t
      ∧ Same (KeepsOrder b₀) (slots (mergeEntry lib t oldSorted b entry) t g) (slots b t g) := by
  cases hkey : entryOfKey oldSorted entry.sortKey with
  | none =>
    rw [mergeEntry_new lib hkey]
    obtain ⟨hadd, hslots⟩ := h.addAddress lib entry g
    rw [entrySlots_of_not_mem (by simpa using Ne.symm hg), List.append_nil] at hslots
    exact ⟨hadd, hslots⟩
  | some o =>
    obtain ⟨ho, hsame⟩ := entryOfKey_some hkey
    rw [mergeEntry_known lib (b₀.target t) hkey]
    split
    · obtain ⟨hchange, hslots⟩ :=
        h.changeWeight lib o (entryWeight (b₀.target t) entry) g
      rw [endpoint_eq_of_sortKey (b₀.target t) (htype o ho) hsame, if_neg hg] at hslots
      exact ⟨hchange, hslots⟩
    · exact ⟨h, .refl _ _⟩

theorem foldl_mergeEntry_other (h : UnderWay b₀ b t) {entries : List Entry}
    (htype : ∀ o ∈ oldSorted, ∀ e ∈ entries, o.type = e.type)
    (hg : g ∉ entries.map (endpoint (b₀.target t))) :
    UnderWay b₀ (entries.foldl (mergeEntry lib t oldSorted) b) t
      ∧ Same (KeepsOrder b₀) (slots (entries.foldl (mergeEntry lib t oldSorted) b) t g)
        (slots b t g) := by
  induction entries generalizing b with
  | nil => exact ⟨h, .refl _ _⟩
  | cons entry rest ih =>
    rw [List.map_cons, List.mem_cons, not_or] at hg
    obtain ⟨hfirst, hslots⟩ := mergeEntry_other lib h
      (fun o ho => htype o ho entry List.mem_cons_self) (Ne.symm hg.1)
    obtain ⟨hrest, hslots'⟩ := ih hfirst
      (fun o ho e he => htype o ho e (List.mem_cons_of_mem _ he)) hg.2
    exact ⟨hrest, hslots'.trans hslots⟩

theorem mergeEntry_self (h : UnderWay b₀ b t) {entry : Entry}
    (htype : ∀ o ∈ oldSorted, o.type = entry.type)
    (hslots : ∀ o, entryOfKey oldSorted entry.sortKey = some o →
      slots b t (endpoint (b₀.target t) entry) = [(entryWeight (b₀.target t) o, false)]) :
    UnderWay b₀ (mergeEntry lib t oldSorted b entry) t
      ∧ Same (KeepsOrder b₀)
        (slots (mergeEntry lib t oldSorted b entry) t (endpoint (b₀.target t) entry))
        (if entryOfKey oldSorted entry.sortKey = none then
          slots b t (endpoint (b₀.target t) entry) ++ [(entryWeight (b₀.target t) entry, false)]
        else [(entryWeight (b₀.target t) entry, false)]) := by
  cases hkey : entryOfKey oldSorted entry.sortKey with
  | none =>
    rw [mergeEntry_new lib hkey, if_pos rfl]
    obtain ⟨hadd, hadded⟩ := h.addAddress lib entry (endpoint (b₀.target t) entry)
    rw [entrySlots_of_mem (by simp) List.mem_cons_self] at hadded
    exact ⟨hadd, hadded⟩
  | some o =>
    obtain ⟨ho, hsame⟩ := entryOfKey_some hkey
    rw [mergeEntry_known lib (b₀.target t) hkey, if_neg (Option.some_ne_none o)]
    split
    · obtain ⟨hchange, hchanged⟩ := h.changeWeight lib o (entryWeight (b₀.target t) entry)
        (endpoint (b₀.target t) entry)
      rw [if_pos (endpoint_eq_of_sortKey (b₀.target t) (htype o ho) hsame), hslots o hkey]
        at hchanged
      exact ⟨hchange, hchanged⟩
    · rename_i hunchanged
      rw [← entryWeight_of_unchanged (b₀.target t) (htype o ho) (by simpa using hunchanged),
        hslots o hkey]
      exact ⟨h, .refl _ _⟩

/-- The loop over the new entries, seen from the endpoint of one of
them. -/
theorem foldl_mergeEntry_self (h : UnderWay b₀ b t) {entries : List Entry}
    (htype : ∀ o ∈ oldSorted, ∀ e ∈ entries, o.type = e.type)
    (hnodup : (entries.map (endpoint (b₀.target t))).Nodup) {entry : Entry} (he : entry ∈ entries)
    (hlen : (slots b t (endpoint (b₀.target t) entry)).length ≤ 1)
    (hslots : ∀ o, entryOfKey oldSorted entry.sortKey = some o →
      slots b t (endpoint (b₀.target t) entry) = [(entryWeight (b₀.target t) o, false)]) :
    UnderWay b₀ (entries.foldl (mergeEntry lib t oldSorted) b) t
      ∧ Same (KeepsOrder b₀)
        (slots (entries.foldl (mergeEntry lib t oldSorted) b) t (endpoint (b₀.target t) entry))
        (if entryOfKey oldSorted entry.sortKey = none then
          slots b t (endpoint (b₀.target t) entry) ++ [(entryWeight (b₀.target t) entry, false)]
        else [(entryWeight (b₀.target t) entry, false)]) := by
  obtain ⟨before, after, rfl⟩ := List.append_of_mem he
  rw [List.map_append, List.map_cons, List.nodup_append, List.nodup_cons] at hnodup
  obtain ⟨-, ⟨hafter, -⟩, hapart⟩ := hnodup
  have hbefore : endpoint (b₀.target t) entry ∉ before.map (endpoint (b₀.target t)) :=
    fun hmem => hapart _ hmem _ List.mem_cons_self rfl
  rw [List.foldl_append, List.foldl_cons]
  obtain ⟨hfirst, hkept⟩ := foldl_mergeEntry_other lib h
    (fun o ho e hmem => htype o ho e (List.mem_append_left _ hmem)) hbefore
  have hsame := hkept.eq_of_length_le hlen
  obtain ⟨hsecond, hmerged⟩ := mergeEntry_self lib hfirst
    (fun o ho => htype o ho entry he) (fun o ho => hsame.trans (hslots o ho))
  obtain ⟨hthird, hlast⟩ := foldl_mergeEntry_other lib hsecond
    (fun o ho e hmem => htype o ho e (List.mem_append_right _ (List.mem_cons_of_mem _ hmem)))
    hafter
  rw [hsame] at hmerged
  exact ⟨hthird, hlast.trans hmerged⟩

end Merge

/-! ## One answer -/

section Answer

variable (lib : Lib) {b : Balancer} {t : TargetId} {g : String × Nat}
  {oldSorted newSorted top : List Entry}

theorem slots_recycle (g : String × Nat) (newSorted : List Entry) (h : UnderWay b b t)
    (hslots : ∀ g, (slots b t g).Perm (entrySlots (b.target t) top g)) (htop : top ⊆ oldSorted)
    (hnodup : (top.map (endpoint (b.target t))).Nodup) :
    UnderWay b (recycleAddresses lib t oldSorted newSorted b) t
      ∧ ((slots (recycleAddresses lib t oldSorted newSorted b) t g).filter fun slot => !slot.2).Perm
        (entrySlots (b.target t) newSorted g) := by
  have hlen : (slots b t g).length ≤ 1 :=
    (hslots g).length_eq.trans_le (entrySlots_length_le hnodup)
  rw [recycleAddresses]
  -- what is left of the old slots is disabled
  obtain ⟨hdisabled, hgone⟩ : UnderWay b
        (oldSorted.reverse.foldl (fun b entry => disableAddress lib b t entry) b) t
      ∧ (slots (oldSorted.reverse.foldl (fun b entry => disableAddress lib b t entry) b) t g).filter
        (fun slot => !slot.2) = [] := by
    by_cases hg : g ∈ oldSorted.reverse.map (endpoint (b.target t))
    · obtain ⟨hway, hslots'⟩ := foldl_disableAddress_single lib h hlen hg
      refine ⟨hway, ?_⟩
      rw [hslots', List.filter_eq_nil_iff]
      intro slot hslot
      obtain ⟨-, -, rfl⟩ := List.mem_map.mp hslot
      simp
    · obtain ⟨hway, hslots'⟩ := foldl_disableAddress_other lib h hg
      have hnone : slots b t g = [] := by
        refine List.Perm.eq_nil ((hslots g).trans (.of_eq (entrySlots_of_not_mem ?_)))
        intro hmem
        obtain ⟨e, he, rfl⟩ := List.mem_map.mp hmem
        exact hg (List.mem_map_of_mem (List.mem_reverse.mpr (htop he)))
      refine ⟨hway, ?_⟩
      rw [hslots'.eq_of_length_le hlen, hnone]
      rfl
  obtain ⟨hway, hadded⟩ := foldl_addAddress lib (g := g) hdisabled newSorted
  refine ⟨hway, (hadded.1.filter _).trans (.of_eq ?_)⟩
  rw [List.filter_append, hgone, List.nil_append, entrySlots_enabled]

/-- When an answer of the same type can be compared with the one before
it: `top` are the top entries before, `newTop` those of the answer. -/
@[mk_iff]
structure Comparable (b : Balancer) (target : Target) (oldSorted top newTop : List Entry) :
    Prop where
  /-- no endpoint twice -/
  once : (newTop.map (endpoint target)).Nodup
  /-- no entry of lower priority named an endpoint of the new top entries -/
  lower : ∀ o ∈ oldSorted, o ∉ top → ∀ e ∈ newTop, endpoint target o ≠ endpoint target e
  /-- an endpoint that comes back under another key comes back with its
  weight, or the addresses are in the order they were added in -/
  rekeyed : ∀ o ∈ top, ∀ e ∈ newTop, endpoint target o = endpoint target e →
    o.sortKey ≠ e.sortKey → KeepsOrder b ∨ entryWeight target o = entryWeight target e

instance (b : Balancer) (target : Target) (oldSorted top newTop : List Entry) :
    Decidable (Comparable b target oldSorted top newTop) :=
  decidable_of_iff' _ (comparable_iff b target oldSorted top newTop)

/-- The entries of an endpoint that are disabled are the one of the top
entries. -/
theorem filter_dropped {target : Target} {p : Entry → Bool} {newTop : List Entry}
    (hnodup : ((oldSorted.filter p).map (endpoint target)).Nodup)
    (h : Comparable b target oldSorted (oldSorted.filter p) newTop) {o e : Entry}
    (ho : o ∈ oldSorted.filter p) (he : e ∈ newTop)
    (hsame : endpoint target o = endpoint target e)
    (hdropped : o.sortKey ∉ newTop.map Entry.sortKey) :
    ((oldSorted.filter fun o => decide (o.sortKey ∉ newTop.map Entry.sortKey)).filter fun o' =>
      decide (endpoint target o' = endpoint target e)) = [o] := by
  have htop : ((oldSorted.filter p).filter fun o' =>
      decide (endpoint target o' = endpoint target e)) = [o] := by
    rw [← hsame]
    exact filter_of_nodup_map hnodup ho
  have hsub : (oldSorted.filter fun o' => decide (endpoint target o' = endpoint target e))
      = (oldSorted.filter p).filter fun o' =>
        decide (endpoint target o' = endpoint target e) := by
    rw [List.filter_filter]
    refine List.filter_congr fun o' ho' => ?_
    by_cases hend : endpoint target o' = endpoint target e
    · have hp : p o' = true := by
        by_contra hp
        exact h.lower o' ho' (fun hmem => hp (List.mem_filter.mp hmem).2) e he hend
      simp [hend, hp]
    · simp [hend]
  rw [List.filter_comm, hsub, htop, List.filter_cons_of_pos (by simpa using hdropped)]
  rfl

theorem slots_of_top {p : Entry → Bool}
    (hslots : ∀ g, (slots b t g).Perm (entrySlots (b.target t) (oldSorted.filter p) g))
    (hnodup : ((oldSorted.filter p).map (endpoint (b.target t))).Nodup) {o e : Entry}
    (ho : o ∈ oldSorted.filter p) (hend : endpoint (b.target t) o = endpoint (b.target t) e) :
    slots b t (endpoint (b.target t) e) = [(entryWeight (b.target t) o, false)] := by
  have hperm := hslots (endpoint (b.target t) e)
  rw [← hend, entrySlots_of_mem hnodup ho] at hperm
  rw [← hend]
  exact hperm.eq_singleton

/-- A known entry under the key of a new top entry is a top entry of the
same endpoint. -/
theorem top_of_entryOfKey {target : Target} {p : Entry → Bool} {newTop : List Entry}
    (htype : ∀ o ∈ oldSorted, ∀ e ∈ newTop, o.type = e.type)
    (h : Comparable b target oldSorted (oldSorted.filter p) newTop) {o e : Entry}
    (he : e ∈ newTop) (hkey : entryOfKey oldSorted e.sortKey = some o) :
    o ∈ oldSorted.filter p ∧ o.sortKey = e.sortKey ∧ endpoint target o = endpoint target e := by
  obtain ⟨ho, hsame⟩ := entryOfKey_some hkey
  have hend := endpoint_eq_of_sortKey target (htype o ho e he) hsame
  refine ⟨?_, hsame, hend⟩
  by_contra hnot
  exact h.lower o ho hnot e he hend

/-- An endpoint whose new top entry has an unknown key is empty, unless a
top entry had it under a key that is gone. -/
theorem slots_of_new_key {p : Entry → Bool} {newTop : List Entry}
    (hslots : ∀ g, (slots b t g).Perm (entrySlots (b.target t) (oldSorted.filter p) g))
    (htype : ∀ o ∈ oldSorted, ∀ e ∈ newTop, o.type = e.type)
    (honce : (newTop.map (endpoint (b.target t))).Nodup) {e : Entry} (he : e ∈ newTop)
    (hnew : entryOfKey oldSorted e.sortKey = none)
    (hkept : ¬ ∃ o ∈ oldSorted.filter p,
      endpoint (b.target t) o = endpoint (b.target t) e ∧ o.sortKey ∉ newTop.map Entry.sortKey) :
    slots b t (endpoint (b.target t) e) = [] := by
  refine List.Perm.eq_nil ((hslots _).trans (.of_eq (entrySlots_of_not_mem ?_)))
  intro hmem
  obtain ⟨o, ho, hend⟩ := List.mem_map.mp hmem
  refine hkept ⟨o, ho, hend, fun hkey => ?_⟩
  -- the key of `o` would be that of `e`
  obtain ⟨e', he', hsame⟩ := List.mem_map.mp hkey
  have hend' := endpoint_eq_of_sortKey (b.target t)
    (htype o (List.mem_of_mem_filter ho) e' he') hsame.symm
  have heq : e' = e := List.inj_on_of_nodup_map honce he' he (hend'.symm.trans hend)
  have hknown : (entryOfKey oldSorted e.sortKey).isSome := by
    rw [entryOfKey_isSome, ← heq, hsame]
    exact List.mem_map_of_mem (List.mem_of_mem_filter ho)
  rw [hnew] at hknown
  cases hknown

theorem slots_merge_self (h : UnderWay b b t) {p : Entry → Bool} {newTop : List Entry}
    (hslots : ∀ g, (slots b t g).Perm (entrySlots (b.target t) (oldSorted.filter p) g))
    (hnodup : ((oldSorted.filter p).map (endpoint (b.target t))).Nodup)
    (htype : ∀ o ∈ oldSorted, ∀ e ∈ newTop, o.type = e.type)
    (hcomparable : Comparable b (b.target t) oldSorted (oldSorted.filter p) newTop) {e : Entry}
    (he : e ∈ newTop) :
    UnderWay b ((oldSorted.filter fun o => decide (o.sortKey ∉ newTop.map Entry.sortKey)).foldl
        (fun b entry => disableAddress lib b t entry)
        (newTop.foldl (mergeEntry lib t oldSorted) b)) t
      ∧ ((slots ((oldSorted.filter fun o => decide (o.sortKey ∉ newTop.map Entry.sortKey)).foldl
          (fun b entry => disableAddress lib b t entry)
          (newTop.foldl (mergeEntry lib t oldSorted) b)) t (endpoint (b.target t) e)).filter
        fun slot => !slot.2).Perm [(entryWeight (b.target t) e, false)] := by
  have hlen : (slots b t (endpoint (b.target t) e)).length ≤ 1 :=
    (hslots _).length_eq.trans_le (entrySlots_length_le hnodup)
  have hkeyed := fun o => top_of_entryOfKey (o := o) htype hcomparable he
  obtain ⟨hmerged, hself⟩ := foldl_mergeEntry_self lib h htype hcomparable.once he hlen
    fun o hkey => slots_of_top hslots hnodup (hkeyed o hkey).1 (hkeyed o hkey).2.2
  -- the endpoint is disabled only if a top entry had it under another key
  by_cases hdropped : ∃ o ∈ oldSorted.filter p,
      endpoint (b.target t) o = endpoint (b.target t) e ∧ o.sortKey ∉ newTop.map Entry.sortKey
  · obtain ⟨o, ho, hend, hkey⟩ := hdropped
    have hne : o.sortKey ≠ e.sortKey :=
      fun hsame => hkey (hsame ▸ List.mem_map_of_mem he)
    have hnew : entryOfKey oldSorted e.sortKey = none := by
      cases hfound : entryOfKey oldSorted e.sortKey with
      | none => rfl
      | some o' =>
        obtain ⟨ho', hsame, hend'⟩ := hkeyed o' hfound
        have heq : o = o' := List.inj_on_of_nodup_map hnodup ho ho' (hend.trans hend'.symm)
        exact absurd (heq ▸ hsame) hne
    rw [if_pos hnew, slots_of_top hslots hnodup ho hend] at hself
    have horder : KeepsOrder b ∨ (entryWeight (b.target t) o, false)
        = (entryWeight (b.target t) e, false) :=
      (hcomparable.rekeyed o ho e he hend hne).imp_right fun hweight => by rw [hweight]
    have hpair := hself.eq_of_pair horder
    obtain ⟨hway, hlast⟩ := foldl_disableAddress_pair lib hmerged
      (filter_dropped hnodup hcomparable ho he hend hkey) hpair horder
    exact ⟨hway, hlast.filter _⟩
  · have hother : endpoint (b.target t) e ∉
        (oldSorted.filter fun o => decide (o.sortKey ∉ newTop.map Entry.sortKey)).map
          (endpoint (b.target t)) := by
      intro hmem
      obtain ⟨o, ho, hend⟩ := List.mem_map.mp hmem
      obtain ⟨hmem', hkey⟩ := List.mem_filter.mp ho
      refine hdropped ⟨o, ?_, hend, of_decide_eq_true hkey⟩
      by_contra hnot
      exact hcomparable.lower o hmem' hnot e he hend
    obtain ⟨hway, hlast⟩ := foldl_disableAddress_other lib hmerged hother
    have hone : slots (newTop.foldl (mergeEntry lib t oldSorted) b) t (endpoint (b.target t) e)
        = [(entryWeight (b.target t) e, false)] := by
      cases hfound : entryOfKey oldSorted e.sortKey with
      | some o =>
        rw [hfound, if_neg (Option.some_ne_none o)] at hself
        exact hself.eq_of_length_le (by simp)
      | none =>
        rw [hfound, if_pos rfl] at hself
        rw [slots_of_new_key hslots htype hcomparable.once he hfound hdropped] at hself
        exact hself.eq_of_length_le (by simp)
    rw [hone] at hlast
    exact ⟨hway, (hlast.filter _).1⟩

theorem slots_merge_other (h : UnderWay b b t) {p : Entry → Bool} {newTop : List Entry}
    (hslots : ∀ g, (slots b t g).Perm (entrySlots (b.target t) (oldSorted.filter p) g))
    (hnodup : ((oldSorted.filter p).map (endpoint (b.target t))).Nodup)
    (htype : ∀ o ∈ oldSorted, ∀ e ∈ newTop, o.type = e.type)
    (hg : g ∉ newTop.map (endpoint (b.target t))) :
    UnderWay b ((oldSorted.filter fun o => decide (o.sortKey ∉ newTop.map Entry.sortKey)).foldl
        (fun b entry => disableAddress lib b t entry)
        (newTop.foldl (mergeEntry lib t oldSorted) b)) t
      ∧ (slots ((oldSorted.filter fun o => decide (o.sortKey ∉ newTop.map Entry.sortKey)).foldl
        (fun b entry => disableAddress lib b t entry)
        (newTop.foldl (mergeEntry lib t oldSorted) b)) t g).filter (fun slot => !slot.2) = [] := by
  have hlen : (slots b t g).length ≤ 1 :=
    (hslots g).length_eq.trans_le (entrySlots_length_le hnodup)
  obtain ⟨hmerged, hkept⟩ := foldl_mergeEntry_other lib h htype hg
  have hsame := hkept.eq_of_length_le hlen
  by_cases hdropped : g ∈ (oldSorted.filter fun o =>
      decide (o.sortKey ∉ newTop.map Entry.sortKey)).map (endpoint (b.target t))
  · obtain ⟨hway, hdisabled⟩ := foldl_disableAddress_single lib hmerged (hsame ▸ hlen) hdropped
    refine ⟨hway, ?_⟩
    rw [hdisabled, List.filter_eq_nil_iff]
    intro slot hslot
    obtain ⟨-, -, rfl⟩ := List.mem_map.mp hslot
    simp
  · obtain ⟨hway, hlast⟩ := foldl_disableAddress_other lib hmerged hdropped
    refine ⟨hway, ?_⟩
    have hempty : slots b t g = [] := by
      refine List.Perm.eq_nil ((hslots g).trans (.of_eq (entrySlots_of_not_mem ?_)))
      intro hmem
      obtain ⟨o, ho, rfl⟩ := List.mem_map.mp hmem
      have ho' := List.mem_of_mem_filter ho
      refine hdropped (List.mem_map_of_mem (List.mem_filter.mpr ⟨ho', decide_eq_true ?_⟩))
      intro hkey
      obtain ⟨e, he, hsame⟩ := List.mem_map.mp hkey
      exact hg (List.mem_map.mpr
        ⟨e, he, (endpoint_eq_of_sortKey (b.target t) (htype o ho' e he) hsame.symm).symm⟩)
    rw [hsame, hempty] at hlast
    rw [hlast.eq_of_length_le (by simp)]
    rfl

theorem nodup_sortKey {target : Target} {entries : List Entry} (htype : OneType entries)
    (h : (entries.map (endpoint target)).Nodup) : (entries.map Entry.sortKey).Nodup := by
  rw [List.Nodup, List.pairwise_map] at h ⊢
  refine h.imp_of_mem fun he he' hne hkey => hne ?_
  exact endpoint_eq_of_sortKey target (htype _ he _ he') hkey

theorem slots_mergeAddresses (h : UnderWay b b t) {p : Entry → Bool}
    (hslots : ∀ g, (slots b t g).Perm (entrySlots (b.target t) (oldSorted.filter p) g))
    (hnodup : ((oldSorted.filter p).map (endpoint (b.target t))).Nodup)
    (htype : ∀ o ∈ oldSorted, ∀ e ∈ topEntries newSorted, o.type = e.type)
    (hone : OneType (topEntries newSorted))
    (hcomparable : Comparable b (b.target t) oldSorted (oldSorted.filter p)
      (topEntries newSorted)) :
    UnderWay b (mergeAddresses lib t oldSorted newSorted b).1 t
      ∧ ((slots (mergeAddresses lib t oldSorted newSorted b).1 t g).filter
        fun slot => !slot.2).Perm (entrySlots (b.target t) (topEntries newSorted) g) := by
  rw [mergeAddresses_eq lib (nodup_sortKey hone hcomparable.once)]
  by_cases hg : g ∈ (topEntries newSorted).map (endpoint (b.target t))
  · obtain ⟨e, he, rfl⟩ := List.mem_map.mp hg
    rw [entrySlots_of_mem hcomparable.once he]
    exact slots_merge_self lib h hslots hnodup htype hcomparable he
  · obtain ⟨hway, hnone⟩ := slots_merge_other lib h hslots hnodup htype hg
    rw [entrySlots_of_not_mem hg, hnone]
    exact ⟨hway, .refl _⟩

end Answer

/-! ## Runs of answers -/

/-- What update_dns_result receives: the table it has already, or a new
one with records of one type that may be kept. -/
inductive Received where
  | cached
  | fresh (query : Query) (oneType : OneType query.entries)
      (lasting : ∀ e ∈ query.entries, e.ttl ≠ 0)

def Received.reply : Received → Reply
  | .cached => .cached
  | .fresh query _ _ => .answer query

/-- A reply processed at a time. -/
def receive (lib : Lib) (t : TargetId) (b : Balancer) (reply : Nat × Received) : Balancer :=
  updateDnsResult lib reply.1 b t reply.2.reply

/-- The entries a target knows. -/
def Target.known (target : Target) : List Entry := target.lastSorted.getD []

/-- An answer of another type than the one before it, or one after an
empty one. -/
def TypeChanges (target : Target) (entries : List Entry) : Prop :=
  some ((typeOf entries).getD .a) ≠ typeOf target.known

instance (target : Target) (entries : List Entry) : Decidable (TypeChanges target entries) := by
  unfold TypeChanges
  infer_instance

/-- The answers that update_dns_result gets right. -/
@[mk_iff]
structure Traceable (b : Balancer) (t : TargetId) (entries : List Entry) : Prop where
  /-- the top entries before it name no endpoint twice -/
  knownOnce : ((leastPriority (b.target t).known).map (endpoint (b.target t))).Nodup
  /-- after a change of type there is no second priority -/
  recycled : TypeChanges (b.target t) entries → leastPriority entries = entries
  compared : ¬ TypeChanges (b.target t) entries → Comparable b (b.target t) (b.target t).known
    (leastPriority (b.target t).known) (leastPriority entries)

instance (b : Balancer) (t : TargetId) (entries : List Entry) :
    Decidable (Traceable b t entries) :=
  decidable_of_iff' _ (traceable_iff b t entries)

def TraceableReply (t : TargetId) (b : Balancer) (reply : Nat × Received) : Prop :=
  match reply.2 with
  | .cached => True
  | .fresh query _ _ => Traceable b t query.entries

instance (t : TargetId) (b : Balancer) : ∀ reply, Decidable (TraceableReply t b reply)
  | (_, .cached) => inferInstanceAs (Decidable True)
  | (_, .fresh query _ _) => inferInstanceAs (Decidable (Traceable b t query.entries))

section Runs

variable (lib : Lib) {b₀ b : Balancer} {t : TargetId} {entries : List Entry}

/-- The addresses of the target are those of the top entries of the last
answer, which the target knows. -/
structure Tracked (b₀ b : Balancer) (t : TargetId) (entries : List Entry) : Prop where
  underWay : UnderWay b₀ b t
  oneType : OneType entries
  known : (b.target t).known = sortEntries lib entries
  slots : ∀ g, (slots b t g).Perm (entrySlots (b₀.target t) (leastPriority entries) g)

theorem typeOf_of_mem (h : OneType entries) {e : Entry} (he : e ∈ entries) :
    typeOf entries = some e.type := by
  cases entries with
  | nil => exact absurd he List.not_mem_nil
  | cons first rest => exact congrArg some (h first List.mem_cons_self e he)

theorem Comparable.of_perm {target : Target} {oldSorted top top' newTop newTop' : List Entry}
    (h : Comparable b target oldSorted top newTop) (htop : top'.Perm top)
    (hnew : newTop'.Perm newTop) : Comparable b target oldSorted top' newTop' where
  once := (hnew.map _).nodup_iff.mpr h.once
  lower := fun o ho hnot e he =>
    h.lower o ho (fun hmem => hnot (htop.mem_iff.mpr hmem)) e (hnew.mem_iff.mp he)
  rekeyed := fun o ho e he => h.rekeyed o (htop.mem_iff.mp ho) e (hnew.mem_iff.mp he)

theorem UnderWay.trans {b' : Balancer} (h : UnderWay b₀ b t) (h' : UnderWay b b' t) :
    UnderWay b₀ b' t where
  registered := h'.registered
  listed := h'.listed
  port := h'.port.trans h.port
  weight := h'.weight.trans h.weight
  order := fun ho => h'.order (h.order ho)

/-- The addresses are changed, and whether any was. -/
def applyAnswer (b : Balancer) (t : TargetId) (entries : List Entry) : Balancer × Bool :=
  if TypeChanges (b.target t) entries then
    (recycleAddresses lib t (b.target t).known (sortEntries lib entries) b, true)
  else mergeAddresses lib t (b.target t).known (sortEntries lib entries) b

def remember (b : Balancer) (t : TargetId) (query : Query) (sorted : List Entry) : Balancer :=
  b.modifyTarget t fun target => { target with lastQuery := some query, lastSorted := some sorted }

/-- The end of an update: the answer is kept, and if anything changed
the disabled addresses go. -/
def keepAnswer (b : Balancer) (t : TargetId) (query : Query) (dirty : Bool) : Balancer :=
  let stored := remember b t query (sortEntries lib query.entries)
  if dirty then deleteDisabledAddresses lib (afterHostUpdate lib stored) t else stored

theorem updateAddresses_eq (b : Balancer) (t : TargetId) (query : Query) :
    updateAddresses lib b t query
      = keepAnswer lib (applyAnswer lib b t query.entries).1 t query
        (applyAnswer lib b t query.entries).2 := rfl

theorem remember_target (b : Balancer) (t : TargetId) (query : Query) (sorted : List Entry)
    (t' : TargetId) :
    ((remember b t query sorted).target t').addresses = (b.target t').addresses
      ∧ ((remember b t query sorted).target t').port = (b.target t').port
      ∧ ((remember b t query sorted).target t').weight = (b.target t').weight := by
  by_cases heq : t' = t
  · subst heq
    simp [remember, Balancer.modifyTarget]
  · simp [remember, Balancer.modifyTarget, heq]

theorem remember_lastSorted (b : Balancer) (t : TargetId) (query : Query) (sorted : List Entry) :
    ((remember b t query sorted).target t).lastSorted = some sorted := by
  simp [remember, Balancer.modifyTarget]

theorem Registered.remember (h : Registered b) (query : Query) (sorted : List Entry) :
    Registered (remember b t query sorted) :=
  h.of_lists rfl rfl rfl fun t' => (remember_target b t query sorted t').1

theorem deleteDisabledAddresses_lastSorted (b : Balancer) :
    ((deleteDisabledAddresses lib b t).target t).lastSorted = (b.target t).lastSorted := by
  have hdropped := (dropDisabled_target b t t).2.2.2.2.2
  rw [deleteDisabledAddresses_eq]
  split
  · rw [(afterHostUpdate_rearranged lib _).lastSorted, hdropped]
  · exact hdropped

theorem keepAnswer_lastSorted (b : Balancer) (query : Query) (dirty : Bool) :
    ((keepAnswer lib b t query dirty).target t).lastSorted
      = some (sortEntries lib query.entries) := by
  rw [keepAnswer]
  split
  · rw [deleteDisabledAddresses_lastSorted, (afterHostUpdate_rearranged lib _).lastSorted,
      remember_lastSorted]
  · exact remember_lastSorted b t query _

theorem UnderWay.keepAnswer {b' : Balancer} (h : UnderWay b b' t) (query : Query) {dirty : Bool}
    (hclean : dirty = false → ∀ g, ∀ slot ∈ slots b' t g, slot.2 = false) :
    UnderWay b (keepAnswer lib b' t query dirty) t
      ∧ ∀ g, (slots (keepAnswer lib b' t query dirty) t g).Perm
        ((slots b' t g).filter fun slot => !slot.2) := by
  have htarget := remember_target b' t query (sortEntries lib query.entries) t
  have hstored : UnderWay b (remember b' t query (sortEntries lib query.entries)) t :=
    h.of_step (h.registered.remember query _) rfl htarget.2.1 htarget.2.2 rfl
  have hslots : ∀ g, slots (remember b' t query (sortEntries lib query.entries)) t g
      = slots b' t g := by
    intro g
    rw [slots, htarget.1]
    rfl
  cases dirty with
  | false =>
    refine ⟨hstored, fun g => List.Perm.of_eq ((hslots g).trans ?_)⟩
    rw [eq_comm, List.filter_eq_self]
    intro slot hslot
    rw [hclean rfl g slot hslot]
    rfl
  | true =>
    have hafter := hstored.afterHostUpdate lib
    refine ⟨(hafter.deleteDisabledAddresses lib ("", 0)).1, fun g => ?_⟩
    have hsame := slots_afterHostUpdate lib (t := t) (g := g) (KeepsOrder b) hstored.order
    rw [hslots] at hsame
    exact (hafter.deleteDisabledAddresses lib g).2.1.trans (hsame.1.filter _)

theorem Tracked.start (h : Tracked lib b₀ b t entries)
    (honce : ((leastPriority (b.target t).known).map (endpoint (b.target t))).Nodup) :
    UnderWay b b t
      ∧ (leastPriority (b.target t).known).Perm (topEntries (b.target t).known)
      ∧ (∀ g, (Balancers.slots b t g).Perm
        (entrySlots (b.target t) (topEntries (b.target t).known) g))
      ∧ ((topEntries (b.target t).known).map (endpoint (b.target t))).Nodup := by
  have htop := topEntries_perm lib h.oneType
  have hleast := leastPriority_perm (sortEntries_perm lib entries)
  rw [← h.known] at htop hleast
  refine ⟨⟨h.underWay.registered, h.underWay.listed, rfl, rfl, id⟩, hleast.trans htop.symm,
    fun g => ?_, ((htop.trans hleast.symm).map _).nodup_iff.mpr honce⟩
  rw [h.underWay.entrySlots]
  exact (h.slots g).trans (entrySlots_perm htop.symm)

theorem Tracked.recycle (h : Tracked lib b₀ b t entries) {new : List Entry}
    (htraceable : Traceable b t new) (hchanges : TypeChanges (b.target t) new) (g : String × Nat) :
    UnderWay b (applyAnswer lib b t new).1 t
      ∧ ((Balancers.slots (applyAnswer lib b t new).1 t g).filter fun slot => !slot.2).Perm
        (entrySlots (b.target t) (leastPriority new) g) := by
  obtain ⟨hway, -, hslots, hnodup⟩ := h.start lib htraceable.knownOnce
  obtain ⟨hway', hnew⟩ := slots_recycle lib g (sortEntries lib new) hway hslots
    (List.takeWhile_prefix _).subset hnodup
  rw [applyAnswer, if_pos hchanges, htraceable.recycled hchanges]
  exact ⟨hway', hnew.trans (entrySlots_perm (sortEntries_perm lib new))⟩

theorem Tracked.merge (h : Tracked lib b₀ b t entries) {new : List Entry} (hone : OneType new)
    (htraceable : Traceable b t new) (hchanges : ¬ TypeChanges (b.target t) new)
    (g : String × Nat) :
    UnderWay b (applyAnswer lib b t new).1 t
      ∧ ((Balancers.slots (applyAnswer lib b t new).1 t g).filter fun slot => !slot.2).Perm
        (entrySlots (b.target t) (leastPriority new) g)
      ∧ ((applyAnswer lib b t new).2 = false → (applyAnswer lib b t new).1 = b) := by
  obtain ⟨hway, hleast, hslots, hnodup⟩ := h.start lib htraceable.knownOnce
  have hnew := topEntries_perm lib hone
  have hcompared := (htraceable.compared hchanges).of_perm hleast.symm hnew
  have hmem : ∀ e ∈ topEntries (sortEntries lib new), e ∈ new := fun e he =>
    (sortEntries_perm lib new).mem_iff.mp ((List.takeWhile_prefix _).subset he)
  have htype : ∀ o ∈ (b.target t).known, ∀ e ∈ topEntries (sortEntries lib new),
      o.type = e.type := by
    intro o ho e he
    have hsame := not_not.mp hchanges
    have hknown : OneType (b.target t).known := by
      rw [h.known]
      exact h.oneType.perm (sortEntries_perm lib entries)
    rw [typeOf_of_mem hone (hmem e he), typeOf_of_mem hknown ho] at hsame
    exact (Option.some.inj hsame).symm
  have htops : OneType (topEntries (sortEntries lib new)) :=
    fun e he e' he' => hone e (hmem e he) e' (hmem e' he')
  have hfilter := topEntries_eq_filter lib h.oneType
  rw [← h.known] at hfilter
  rw [hfilter] at hslots hnodup hcompared
  obtain ⟨hway', hmerged⟩ :=
    slots_mergeAddresses lib (g := g) hway hslots hnodup htype htops hcompared
  rw [applyAnswer, if_neg hchanges]
  exact ⟨hway', hmerged.trans (entrySlots_perm hnew), mergeAddresses_of_clean lib⟩

theorem Tracked.updateAddresses (h : Tracked lib b₀ b t entries) (query : Query)
    (hone : OneType query.entries) (htraceable : Traceable b t query.entries) :
    Tracked lib b₀ (updateAddresses lib b t query) t query.entries := by
  have hclean : ∀ g, ∀ slot ∈ Balancers.slots b t g, slot.2 = false := by
    intro g slot hslot
    obtain ⟨e, -, rfl⟩ := List.mem_map.mp ((h.slots g).mem_iff.mp hslot)
    rfl
  have happlied : ∀ g, UnderWay b (applyAnswer lib b t query.entries).1 t
      ∧ ((Balancers.slots (applyAnswer lib b t query.entries).1 t g).filter
        fun slot => !slot.2).Perm (entrySlots (b.target t) (leastPriority query.entries) g)
      ∧ ((applyAnswer lib b t query.entries).2 = false →
        (applyAnswer lib b t query.entries).1 = b) := by
    intro g
    by_cases hchanges : TypeChanges (b.target t) query.entries
    · obtain ⟨hway, hslots⟩ := h.recycle lib htraceable hchanges g
      refine ⟨hway, hslots, fun hdirty => ?_⟩
      rw [applyAnswer, if_pos hchanges] at hdirty
      cases hdirty
    · exact h.merge lib hone htraceable hchanges g
  obtain ⟨hway, -, hunchanged⟩ := happlied ("", 0)
  obtain ⟨hlast, hfinal⟩ := hway.keepAnswer lib query fun hdirty => by
    rw [hunchanged hdirty]
    exact hclean
  rw [updateAddresses_eq]
  refine ⟨h.underWay.trans hlast, hone, ?_, fun g => ?_⟩
  · rw [Target.known, keepAnswer_lastSorted]
    rfl
  · rw [← h.underWay.entrySlots]
    exact (hfinal g).trans (happlied g).2.1

/-- The ips, ports and weights of the addresses of a target. -/
def addressSet (b : Balancer) (t : TargetId) : List ((String × Nat) × Nat) :=
  (b.target t).addresses.map fun a =>
    (((b.address a).ip, (b.address a).port), (b.address a).weight)

/-- The ips, ports and weights an answer stands for. -/
def answerSet (target : Target) (entries : List Entry) : List ((String × Nat) × Nat) :=
  (leastPriority entries).map fun e => (endpoint target e, entryWeight target e)

theorem Tracked.addressSet (h : Tracked lib b₀ b t entries) :
    (addressSet b t).Perm (answerSet (b₀.target t) entries) := by
  refine perm_of_filter fun g => ?_
  have hslots := (h.slots g).map Prod.fst
  rw [Balancers.slots, entrySlots, List.map_map, List.map_map] at hslots
  exact hslots

/-- A target before its first answer. -/
structure FreshTarget (b : Balancer) (t : TargetId) : Prop where
  registered : Registered b
  listed : t ∈ b.targets
  addresses : (b.target t).addresses = []
  lastSorted : (b.target t).lastSorted = none

theorem FreshTarget.tracked (h : FreshTarget b t) : Tracked lib b b t [] where
  underWay := ⟨h.registered, h.listed, rfl, rfl, id⟩
  oneType := fun e he => absurd he List.not_mem_nil
  known := by
    rw [Target.known, h.lastSorted, (sortEntries_perm lib []).eq_nil]
    rfl
  slots := by
    intro g
    rw [Balancers.slots, h.addresses]
    exact .refl _

theorem receive_fresh (now : Nat) (query : Query) (oneType : OneType query.entries)
    (lasting : ∀ e ∈ query.entries, e.ttl ≠ 0) :
    receive lib t b (now, .fresh query oneType lasting) = updateAddresses lib b t query := by
  have hhead : ¬ query.entries.head?.map Entry.ttl = some 0 := by
    intro hzero
    obtain ⟨e, he, httl⟩ := Option.map_eq_some_iff.mp hzero
    exact lasting e (List.mem_of_mem_head? he) httl
  rw [receive]
  dsimp only [Received.reply]
  rw [updateDnsResult]
  exact if_neg fun h => hhead h.1

theorem Tracked.receive (h : ∃ entries, Tracked lib b₀ b t entries) (reply : Nat × Received)
    (htraceable : TraceableReply t b reply) :
    ∃ entries, Tracked lib b₀ (receive lib t b reply) t entries := by
  obtain ⟨entries, htracked⟩ := h
  obtain ⟨now, received⟩ := reply
  cases received with
  | cached => exact ⟨entries, htracked⟩
  | fresh query oneType lasting =>
    refine ⟨query.entries, ?_⟩
    rw [receive_fresh]
    exact htracked.updateAddresses lib query oneType htraceable

/-- After every run of answers that update_dns_result can trace, the
addresses of the target are those of the top entries of the last
answer. -/
theorem addresses_follow_answers (hfresh : FreshTarget b₀ t) (replies : List (Nat × Received))
    (now : Nat) (query : Query) (oneType : OneType query.entries)
    (lasting : ∀ e ∈ query.entries, e.ttl ≠ 0)
    (hrun : Run.Guarded (receive lib t) (TraceableReply t) b₀
      (replies ++ [(now, .fresh query oneType lasting)])) :
    (addressSet (Run.exec (receive lib t) b₀
      (replies ++ [(now, .fresh query oneType lasting)])) t).Perm
      (answerSet (b₀.target t) query.entries) := by
  obtain ⟨hbefore, hlast, -⟩ := Run.guarded_append.mp hrun
  have hstep : ∀ b reply, (∃ entries, Tracked lib b₀ b t entries) → TraceableReply t b reply →
      ∃ entries, Tracked lib b₀ (receive lib t b reply) t entries :=
    fun b reply h htraceable => Tracked.receive lib h reply htraceable
  obtain ⟨entries, htracked⟩ := hbefore.invariant hstep ⟨[], hfresh.tracked lib⟩
  rw [Run.exec_append, Run.exec_cons, Run.exec_nil, receive_fresh]
  exact (htracked.updateAddresses lib query oneType hlast).addressSet lib

end Runs

/-! ### Answers for one target -/

theorem emptyBalancer_freshTarget (algorithm : Option Algorithm) :
    FreshTarget (emptyBalancer algorithm) 0 :=
  ⟨(emptyBalancer_fresh algorithm).registered, by simp [emptyBalancer], rfl, rfl⟩

def serviceRecord (name : String) (priority : UInt16) : Entry := .srv name 80 10 priority 30

def serviceQuery (names : List (String × UInt16)) : Query :=
  ⟨names.map fun name => serviceRecord name.1 name.2, 30000, false⟩

theorem serviceQuery_oneType (names : List (String × UInt16)) :
    OneType (serviceQuery names).entries := by
  intro e he e' he'
  obtain ⟨name, -, rfl⟩ := List.mem_map.mp he
  obtain ⟨name', -, rfl⟩ := List.mem_map.mp he'
  rfl

theorem serviceQuery_lasting (names : List (String × UInt16)) :
    ∀ e ∈ (serviceQuery names).entries, e.ttl ≠ 0 := by
  intro e he
  obtain ⟨name, -, rfl⟩ := List.mem_map.mp he
  exact Nat.succ_ne_zero 29

def serviceAnswer (names : List (String × UInt16)) : Nat × Received :=
  (0, .fresh (serviceQuery names) (serviceQuery_oneType names) (serviceQuery_lasting names))

/-- The server of lower priority is taken for one with an address: when
it is the only one left, the target has none. -/
theorem backup_server_is_lost :
    let b := emptyBalancer (some AlgorithmType.roundRobin.empty)
    let both := serviceAnswer [("a.example.com", 1), ("b.example.com", 2)]
    let last := [("b.example.com", 2)]
    FreshTarget b 0
      ∧ addressSet (Run.exec (receive Lib.plain 0) b [both, both, serviceAnswer last]) 0 = []
      ∧ addressSet (Run.exec (receive Lib.plain 0) b [serviceAnswer last]) 0
        = [(("b.example.com", 80), 10)]
      ∧ answerSet (b.target 0) (serviceQuery last).entries = [(("b.example.com", 80), 10)] :=
  ⟨emptyBalancer_freshTarget _, by decide, by decide, by decide⟩

theorem addresses_follow_service_answers :
    let b := emptyBalancer (some AlgorithmType.roundRobin.empty)
    let last := [("b.example.com", 2), ("c.example.com", 2)]
    (addressSet (Run.exec (receive Lib.plain 0) b
      ([serviceAnswer [("a.example.com", 1), ("b.example.com", 1)], (1, .cached)]
        ++ [serviceAnswer last])) 0).Perm (answerSet (b.target 0) (serviceQuery last).entries) :=
  addresses_follow_answers Lib.plain (emptyBalancer_freshTarget _) _ _ _ _ _ (by decide)

end KongGateway.Kong.Balancers

import Mathlib.Data.List.Basic

/-!
# Iteration — rows from pages

`kong.db.iteration` turns a function that reads pages into an iterator
over rows. The next page is read when the rows of a page have run out at
an index above the page size. No hook is registered for
`dao:iterator:post`, and `row_to_entity` keeps what the model has of an
entity.
-/

namespace KongGateway.Kong.Db.Iteration

variable {α ο : Type}

/-- A page at an offset; the size and the options are fixed. -/
abbrev Pager (α ο : Type) := Option ο → Except String (List α × Option ο)

/-! ## The iterators -/

/-- What a call of an iterator returns; a row comes with the number of its
page. -/
inductive Next (α : Type) where
  | row (row : α) (page : Nat)
  | error (err : String)
  | done
  deriving DecidableEq, Repr

/-- The variables of `page_iterator` between two calls. -/
structure PageIterator (α ο : Type) where
  page : Nat
  i : Nat
  rows : Except String (List α)
  offset : Option ο

def PageIterator.load (pager : Pager α ο) (page i : Nat) (offset : Option ο) :
    PageIterator α ο :=
  match pager offset with
  | .ok (rows, offset) => { page, i, rows := .ok rows, offset }
  | .error err => { page, i, rows := .error err, offset := none }

def pageIterator (pager : Pager α ο) : PageIterator α ο := .load pager 1 0 none

/-- The offset to go on from when the rows have run out: `i > size and
offset`. -/
def nextOffset (size i : Nat) (offset : Option ο) : Option ο := if i > size then offset else none

def PageIterator.next (pager : Pager α ο) (size : Nat) (it : PageIterator α ο) :
    Next α × PageIterator α ο :=
  match it.rows with
  | .error err => (.error err, it)
  | .ok rows =>
    let i := it.i + 1
    match rows[i - 1]? with
    | some row => (.row row it.page, { it with i })
    | none =>
      match nextOffset size i it.offset with
      | none => (.done, { it with i })
      | some offset =>
        let it := PageIterator.load pager (it.page + 1) 1 (some offset)
        match it.rows with
        | .error err => (.error err, it)
        | .ok rows =>
          match rows[0]? with
          | some row => (.row row it.page, it)
          | none => (.done, it)

/-- `by_row`: an error is returned once. -/
structure ByRow (α ο : Type) where
  failed : Bool
  rows : PageIterator α ο

def byRow (pager : Pager α ο) : ByRow α ο := { failed := false, rows := pageIterator pager }

def ByRow.next (pager : Pager α ο) (size : Nat) (it : ByRow α ο) : Next α × ByRow α ο :=
  if it.failed then (.done, it)
  else
    match it.rows.next pager size with
    | (.error err, rows) => (.error err, { failed := true, rows })
    | (result, rows) => (result, { it with rows })

/-- The results of a loop over an iterator, up to its end. -/
def ByRow.collect (pager : Pager α ο) (size : Nat) :
    (fuel : Nat) → ByRow α ο → Option (List (Except String α))
  | 0, _ => none
  | fuel + 1, it =>
    match it.next pager size with
    | (.row row _, it) => (collect pager size fuel it).map (.ok row :: ·)
    | (.error err, it) => (collect pager size fuel it).map (.error err :: ·)
    | (.done, _) => some []

/-- The rows of all pages, from the first one to the one without an
offset. -/
def followOffsets (pager : Pager α ο) : (fuel : Nat) → Option ο →
    Option (List (Except String α))
  | 0, _ => none
  | fuel + 1, offset =>
    match pager offset with
    | .error err => some [.error err]
    | .ok (rows, none) => some (rows.map .ok)
    | .ok (rows, some offset) =>
      (followOffsets pager fuel (some offset)).map (rows.map .ok ++ ·)

/-- Given enough steps, a run ends and has yielded the items, each
once. -/
def VisitsAll (run : (fuel : Nat) → Option (List (Except String α))) (all : List α) : Prop :=
  ∃ n, ∀ fuel, n ≤ fuel → ∃ items : List α, run fuel = some (items.map .ok) ∧ items.Perm all

/-! ## Runs -/

/-- A loop from here ends with these rows. -/
def Yields (pager : Pager α ο) (size : Nat) (it : ByRow α ο) (items : List α) : Prop :=
  ∃ n, ∀ fuel, n ≤ fuel → it.collect pager size fuel = some (items.map .ok)

section Runs

variable {pager : Pager α ο} {size : Nat}

theorem yields_row {it it' : ByRow α ο} {row : α} {page : Nat} {items : List α}
    (hnext : it.next pager size = (.row row page, it')) (h : Yields pager size it' items) :
    Yields pager size it (row :: items) := by
  obtain ⟨n, hn⟩ := h
  refine ⟨n + 1, fun fuel hfuel => ?_⟩
  obtain ⟨fuel, rfl⟩ : ∃ k, fuel = k + 1 := ⟨fuel - 1, by omega⟩
  rw [ByRow.collect, hnext]
  simp only
  rw [hn fuel (by omega)]
  rfl

theorem yields_done {it it' : ByRow α ο} (hnext : it.next pager size = (.done, it')) :
    Yields pager size it [] := by
  refine ⟨1, fun fuel hfuel => ?_⟩
  obtain ⟨fuel, rfl⟩ : ∃ k, fuel = k + 1 := ⟨fuel - 1, by omega⟩
  rw [ByRow.collect, hnext]
  rfl

/-- The iterator inside a page. -/
def within (page i : Nat) (rows : List α) (offset : Option ο) : ByRow α ο :=
  { failed := false, rows := { page, i, rows := .ok rows, offset } }

theorem next_within {rows : List α} {page i : Nat} {offset : Option ο} (h : i < rows.length) :
    (within page i rows offset).next pager size
      = (.row rows[i] page, within page (i + 1) rows offset) := by
  simp only [within, ByRow.next, PageIterator.next, Bool.false_eq_true, if_false,
    Nat.add_sub_cancel, List.getElem?_eq_getElem h]

theorem next_end {rows : List α} {page i : Nat} {offset : Option ο} (hi : rows.length ≤ i)
    (h : i < size ∨ offset = none) :
    (within page i rows offset).next pager size = (.done, within page (i + 1) rows offset) := by
  have hend : nextOffset size (i + 1) offset = none := by
    rcases h with h | h
    · exact if_neg (by omega)
    · rw [nextOffset, h, ite_self]
  simp only [within, ByRow.next, PageIterator.next, Bool.false_eq_true, if_false,
    Nat.add_sub_cancel, List.getElem?_eq_none hi, hend]

/-- After a full page the iterator goes on as at the start of the page at
the offset. -/
theorem next_full {rows rows' : List α} {page : Nat} {offset : ο} {offset' : Option ο}
    (hfull : size ≤ rows.length) (hpager : pager (some offset) = .ok (rows', offset')) :
    (within page rows.length rows (some offset)).next pager size
      = match rows'[0]? with
        | some row => (.row row (page + 1), within (page + 1) 1 rows' offset')
        | none => (.done, within (page + 1) 1 rows' offset') := by
  have hload : PageIterator.load pager (page + 1) 1 (some offset)
      = { page := page + 1, i := 1, rows := .ok rows', offset := offset' } := by
    rw [PageIterator.load, hpager]
  have hgt : nextOffset size (rows.length + 1) (some offset) = some offset := if_pos (by omega)
  simp only [within, ByRow.next, PageIterator.next, Bool.false_eq_true, if_false,
    Nat.add_sub_cancel, List.getElem?_eq_none (Nat.le_refl _), hgt, hload]
  cases rows'[0]? with
  | none => rfl
  | some row => rfl

theorem yields_within {rows : List α} {page : Nat} {offset : Option ο} {tail : List α}
    (htail : Yields pager size (within page rows.length rows offset) tail) (k i : Nat)
    (hi : i + k = rows.length) :
    Yields pager size (within page i rows offset) (rows.drop i ++ tail) := by
  induction k generalizing i with
  | zero =>
    obtain rfl : i = rows.length := hi
    simpa using htail
  | succ k ih =>
    have hlt : i < rows.length := by omega
    rw [List.drop_eq_getElem_cons hlt]
    exact yields_row (next_within hlt) (ih (i + 1) (by omega))

theorem yields_start {rows : List α} {page : Nat} {offset : Option ο} {tail : List α}
    (htail : Yields pager size (within page rows.length rows offset) tail) :
    Yields pager size (within page 0 rows offset) (rows ++ tail) :=
  yields_within htail rows.length 0 (Nat.zero_add _)

theorem yields_next {rows rows' items : List α} {page : Nat} {offset : ο} {offset' : Option ο}
    (hfull : size ≤ rows.length) (hpager : pager (some offset) = .ok (rows', offset'))
    (hsize : 0 < size) (h : Yields pager size (within (page + 1) 0 rows' offset') items) :
    Yields pager size (within page rows.length rows (some offset)) items := by
  have hcollect (fuel : Nat) : (within page rows.length rows (some offset)).collect pager size fuel
      = (within (page + 1) 0 rows' offset').collect pager size fuel := by
    cases fuel with
    | zero => rfl
    | succ fuel =>
      rw [ByRow.collect, ByRow.collect, next_full hfull hpager]
      cases rows' with
      | nil => rw [next_end (Nat.le_refl 0) (.inl hsize)]; rfl
      | cons row rest => rw [next_within (Nat.zero_lt_succ rest.length)]; rfl
  obtain ⟨n, hn⟩ := h
  exact ⟨n, fun fuel hfuel => (hcollect fuel).trans (hn fuel hfuel)⟩

theorem byRow_eq {rows : List α} {offset : Option ο} (h : pager none = .ok (rows, offset)) :
    byRow pager = within 1 0 rows offset := by
  simp only [byRow, pageIterator, PageIterator.load, h, within]

end Runs

/-! ## Pages of a list -/

section Pages

variable {κ : Type} (live : κ → Option α) (size : Nat)

/-- A page with a dead entry is followed by dead entries only. -/
def PagesFull (entries : List κ) : Prop :=
  ∀ n, (∃ x ∈ (entries.drop (n * size)).take size, live x = none) →
    ∀ y ∈ entries.drop ((n + 1) * size), live y = none

/-- A pager cuts the live entries out of a list: at the offset `at n` it
reads `size` entries from the index `n` on, and more follow exactly when
there are more. -/
structure Cuts (pager : Pager α ο) (entries : List κ) (offsetAt : Nat → Option ο) : Prop where
  start : offsetAt 0 = none
  pages : ∀ n, n = 0 ∨ n < entries.length → pager (offsetAt n)
    = .ok (((entries.drop n).take size).filterMap live,
        if n + size < entries.length then offsetAt (n + size) else none)
  follows : ∀ n, 0 < n → n < entries.length → (offsetAt n).isSome

variable {live size}

theorem pagesFull_iff {entries : List κ} :
    PagesFull live size entries ↔
      ((∃ x ∈ entries.take size, live x = none) → ∀ y ∈ entries.drop size, live y = none)
        ∧ PagesFull live size (entries.drop size) := by
  have hshift (n : Nat) : (entries.drop size).drop (n * size) = entries.drop ((n + 1) * size) := by
    rw [List.drop_drop, Nat.add_mul, Nat.one_mul, Nat.add_comm]
  constructor
  · intro h
    refine ⟨fun hdead => ?_, fun n hdead => ?_⟩
    · simpa using h 0 (by simpa using hdead)
    · rw [hshift] at hdead ⊢
      exact h (n + 1) hdead
  · rintro ⟨hfirst, hrest⟩ n hdead
    cases n with
    | zero => simpa using hfirst (by simpa using hdead)
    | succ n =>
      have := hrest n
      rw [hshift, hshift] at this
      exact this hdead

theorem pagesFull_of_dead {entries : List κ} (h : ∀ x ∈ entries, live x = none) :
    PagesFull live size entries :=
  fun _ _ y hy => h y (List.mem_of_mem_drop hy)

/-- A run that yields some of the items in order visits all of them when
it yields as many. -/
theorem visitsAll_iff {run : (fuel : Nat) → Option (List (Except String α))} {items all : List α}
    (hrun : ∃ n, ∀ fuel, n ≤ fuel → run fuel = some (items.map .ok)) (hsub : items.Sublist all) :
    VisitsAll run all ↔ items.length = all.length := by
  obtain ⟨n, hn⟩ := hrun
  constructor
  · rintro ⟨m, hm⟩
    obtain ⟨items', hrun, hperm⟩ := hm (max n m) (Nat.le_max_right n m)
    rw [hn (max n m) (Nat.le_max_left n m)] at hrun
    have heq : items = items' :=
      List.map_injective_iff.mpr (fun _ _ h => Except.ok.inj h) (Option.some.inj hrun)
    rw [heq, hperm.length_eq]
  · intro hlength
    refine ⟨n, fun fuel hfuel => ⟨items, hn fuel hfuel, ?_⟩⟩
    rw [hsub.eq_of_length hlength]

theorem filterMap_take_append_drop (size : Nat) (entries : List κ) :
    entries.filterMap live
      = (entries.take size).filterMap live ++ (entries.drop size).filterMap live := by
  rw [← List.filterMap_append, List.take_append_drop]

theorem filterMap_eq_nil_iff_dead {entries : List κ} :
    (entries.filterMap live).length = 0 ↔ ∀ x ∈ entries, live x = none := by
  rw [List.length_eq_zero_iff, List.filterMap_eq_nil_iff]

theorem dead_of_length_lt {entries : List κ}
    (h : (entries.filterMap live).length < entries.length) : ∃ x ∈ entries, live x = none := by
  by_contra hall
  have heq := List.filterMap_length_eq_length.mpr fun x hx =>
    Option.isSome_iff_ne_none.mpr fun hnone => hall ⟨x, hx, hnone⟩
  omega

variable {pager : Pager α ο} {entries : List κ} {offsetAt : Nat → Option ο}

theorem yields_lastPage {suffix : List κ} (h : suffix.length ≤ size) (page : Nat) :
    ∃ items, Yields pager size (within page 0 ((suffix.take size).filterMap live) none) items
      ∧ items.Sublist (suffix.filterMap live)
      ∧ (items.length = (suffix.filterMap live).length ↔ PagesFull live size suffix) := by
  have htake : suffix.take size = suffix := List.take_of_length_le h
  have hdrop : suffix.drop size = [] := List.drop_eq_nil_of_le h
  refine ⟨suffix.filterMap live ++ [], ?_, ?_, ?_⟩
  · rw [htake]
    exact yields_start (yields_done (next_end (Nat.le_refl _) (.inr rfl)))
  · rw [List.append_nil]
  · rw [List.append_nil, pagesFull_iff, hdrop]
    refine ⟨fun _ => ⟨?_, pagesFull_of_dead ?_⟩, fun _ => rfl⟩
    · intro _ y hy
      cases hy
    · intro y hy
      cases hy

/-- A page that is not full ends the loop; it loses the live entries
behind it. -/
theorem yields_shortPage {suffix : List κ} (h : size < suffix.length)
    (hshort : ((suffix.take size).filterMap live).length < size) (page : Nat)
    (offset : Option ο) :
    ∃ items, Yields pager size (within page 0 ((suffix.take size).filterMap live) offset) items
      ∧ items.Sublist (suffix.filterMap live)
      ∧ (items.length = (suffix.filterMap live).length ↔ PagesFull live size suffix) := by
  have hlength : (suffix.take size).length = size := by
    rw [List.length_take]
    omega
  have hdead : ∃ x ∈ suffix.take size, live x = none := dead_of_length_lt (by omega)
  refine ⟨(suffix.take size).filterMap live ++ [], ?_, ?_, ?_⟩
  · exact yields_start (yields_done (next_end (Nat.le_refl _) (.inl hshort)))
  · rw [List.append_nil]
    exact (List.take_sublist size suffix).filterMap live
  · rw [List.append_nil, filterMap_take_append_drop size suffix, List.length_append,
      pagesFull_iff]
    constructor
    · intro heq
      have hrest : ∀ y ∈ suffix.drop size, live y = none :=
        filterMap_eq_nil_iff_dead.mp (by omega)
      exact ⟨fun _ => hrest, pagesFull_of_dead hrest⟩
    · rintro ⟨hrest, -⟩
      have := filterMap_eq_nil_iff_dead.mpr (hrest hdead)
      omega

theorem Cuts.yields (h : Cuts live size pager entries offsetAt) (hsize : 0 < size) (k n page : Nat)
    (hk : entries.length ≤ n + k) :
    ∃ items, Yields pager size
        (within page 0 (((entries.drop n).take size).filterMap live)
          (if n + size < entries.length then offsetAt (n + size) else none)) items
      ∧ items.Sublist ((entries.drop n).filterMap live)
      ∧ (items.length = ((entries.drop n).filterMap live).length
          ↔ PagesFull live size (entries.drop n)) := by
  induction k generalizing n page with
  | zero =>
    rw [if_neg (by omega)]
    exact yields_lastPage (by rw [List.length_drop]; omega) page
  | succ k ih =>
    by_cases hmore : n + size < entries.length
    · rw [if_pos hmore]
      have hlength : size < (entries.drop n).length := by
        rw [List.length_drop]
        omega
      by_cases hshort : (((entries.drop n).take size).filterMap live).length < size
      · exact yields_shortPage hlength hshort page _
      · -- a full page: the loop goes on with the rows of the next one
        obtain ⟨items, hyields, hsub, hiff⟩ := ih (n + size) (page + 1) (by omega)
        obtain ⟨offset, hoffset⟩ := Option.isSome_iff_exists.mp
          (h.follows (n + size) (by omega) hmore)
        have hpager := h.pages (n + size) (.inr hmore)
        rw [hoffset] at hpager
        refine ⟨((entries.drop n).take size).filterMap live ++ items, ?_, ?_, ?_⟩
        · rw [hoffset]
          exact yields_start (yields_next (by omega) hpager hsize hyields)
        · rw [filterMap_take_append_drop size (entries.drop n), List.drop_drop]
          exact hsub.append_left _
        · rw [filterMap_take_append_drop size (entries.drop n), List.length_append,
            List.length_append, pagesFull_iff, List.drop_drop, ← hiff, Nat.add_left_cancel_iff]
          refine (and_iff_right fun hdead => ?_).symm
          obtain ⟨x, hx, hnone⟩ := hdead
          have hfull := List.filterMap_length_eq_length.mp (Nat.le_antisymm
            (List.length_filterMap_le live _) (Nat.le_trans
              (List.length_take_le size (entries.drop n)) (Nat.not_lt.mp hshort))) x hx
          rw [hnone] at hfull
          cases hfull
    · rw [if_neg hmore]
      exact yields_lastPage (by rw [List.length_drop]; omega) page

/-- A loop over the rows sees everything when every page before the last
live entry is full. -/
theorem Cuts.visitsAll_byRow_iff (h : Cuts live size pager entries offsetAt) (hsize : 0 < size) :
    VisitsAll (fun fuel => (byRow pager).collect pager size fuel) (entries.filterMap live)
      ↔ PagesFull live size entries := by
  obtain ⟨items, hyields, hsub, hiff⟩ := h.yields hsize entries.length 0 1 (by omega)
  have hpager := h.pages 0 (.inl rfl)
  rw [h.start] at hpager
  rw [← byRow_eq hpager] at hyields
  exact (visitsAll_iff hyields hsub).trans hiff

theorem Cuts.followOffsets_eq (h : Cuts live size pager entries offsetAt) (hsize : 0 < size)
    (fuel n : Nat) (hfuel : entries.length < n + fuel) (hn : n = 0 ∨ n < entries.length) :
    followOffsets pager fuel (offsetAt n)
      = some (((entries.drop n).filterMap live).map .ok) := by
  induction fuel generalizing n with
  | zero => omega
  | succ fuel ih =>
    rw [followOffsets, h.pages n hn]
    by_cases hmore : n + size < entries.length
    · obtain ⟨offset, hoffset⟩ := Option.isSome_iff_exists.mp
        (h.follows (n + size) (by omega) hmore)
      have hrest := ih (n + size) (by omega) (.inr hmore)
      rw [hoffset] at hrest
      simp only [if_pos hmore, hoffset, hrest, Option.map_some]
      rw [filterMap_take_append_drop size (entries.drop n), List.drop_drop, List.map_append]
    · have htake : (entries.drop n).take size = entries.drop n :=
        List.take_of_length_le (by rw [List.length_drop]; omega)
      simp only [if_neg hmore, htake]

theorem Cuts.visitsAll_followOffsets (h : Cuts live size pager entries offsetAt)
    (hsize : 0 < size) :
    VisitsAll (fun fuel => followOffsets pager fuel none) (entries.filterMap live) := by
  refine ⟨entries.length + 1, fun fuel hfuel => ⟨entries.filterMap live, ?_, .refl _⟩⟩
  have hfollow := h.followOffsets_eq hsize fuel 0 (by omega) (.inl rfl)
  rw [h.start] at hfollow
  exact hfollow

/-- A pager that has nothing at the offset of its first page. -/
def FirstOnly (pager : Pager α ο) (rows : List α) : Prop :=
  ∃ next, pager none = .ok (rows, next) ∧ ∀ offset, next = some offset →
    pager (some offset) = .ok ([], none)

theorem FirstOnly.yields {rows : List α} (h : FirstOnly pager rows) (hsize : 0 < size) :
    Yields pager size (byRow pager) rows := by
  obtain ⟨next, hpager, hnext⟩ := h
  have htail : Yields pager size (within 1 rows.length rows next) [] := by
    by_cases hend : rows.length < size ∨ next = none
    · exact yields_done (next_end (Nat.le_refl _) hend)
    · obtain ⟨hfull, hsome⟩ := not_or.mp hend
      obtain ⟨offset, rfl⟩ := Option.ne_none_iff_exists'.mp hsome
      exact yields_next (by omega) (hnext offset rfl) hsize
        (yields_done (next_end (Nat.le_refl 0) (.inl hsize)))
  rw [byRow_eq hpager]
  simpa using yields_start htail

theorem FirstOnly.followOffsets_eq {rows : List α} (h : FirstOnly pager rows) {fuel : Nat}
    (hfuel : 2 ≤ fuel) : followOffsets pager fuel none = some (rows.map .ok) := by
  obtain ⟨next, hpager, hnext⟩ := h
  obtain ⟨fuel, rfl⟩ : ∃ k, fuel = k + 1 + 1 := ⟨fuel - 2, by omega⟩
  rw [followOffsets, hpager]
  cases next with
  | none => rfl
  | some offset =>
    simp only [followOffsets, hnext offset rfl, List.map_nil, Option.map_some, List.append_nil]

/-- What such a pager has to say is complete when the first page reaches
the last live entry. -/
theorem length_take_eq_iff (entries : List κ) :
    ((entries.take size).filterMap live).length = (entries.filterMap live).length
      ↔ ∀ y ∈ entries.drop size, live y = none := by
  rw [filterMap_take_append_drop size entries, List.length_append, ← filterMap_eq_nil_iff_dead]
  omega

theorem FirstOnly.visitsAll_byRow_iff (h : FirstOnly pager ((entries.take size).filterMap live))
    (hsize : 0 < size) :
    VisitsAll (fun fuel => (byRow pager).collect pager size fuel) (entries.filterMap live)
      ↔ ∀ y ∈ entries.drop size, live y = none :=
  (visitsAll_iff (h.yields hsize) ((List.take_sublist size entries).filterMap live)).trans
    (length_take_eq_iff entries)

theorem FirstOnly.visitsAll_followOffsets_iff
    (h : FirstOnly pager ((entries.take size).filterMap live)) :
    VisitsAll (fun fuel => followOffsets pager fuel none) (entries.filterMap live)
      ↔ ∀ y ∈ entries.drop size, live y = none :=
  (visitsAll_iff ⟨2, fun _ hfuel => h.followOffsets_eq hfuel⟩
    ((List.take_sublist size entries).filterMap live)).trans (length_take_eq_iff entries)

end Pages

end KongGateway.Kong.Db.Iteration

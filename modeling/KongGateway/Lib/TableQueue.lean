import Mathlib.Data.List.Basic

/-!
# TableQueue — a queue in a table between two indices

The oldest entry is at `front`, the next free place is `back`. Both go
back to the start when the queue runs empty. The abstract queue is
`content`, oldest entry first.
-/

/-- A table with the two indices; between them every place is taken. -/
@[ext]
structure TableQueue (α : Type) where
  entries : Nat → Option α
  front : Nat
  back : Nat
  front_le : front ≤ back
  filled : ∀ i, front ≤ i → i < back → (entries i).isSome = true

namespace TableQueue

variable {α : Type}

def empty : TableQueue α where
  entries := fun _ => none
  front := 1
  back := 1
  front_le := Nat.le_refl 1
  filled := fun i h1 h2 => absurd h2 (by omega)

def count (q : TableQueue α) : Nat := q.back - q.front

/-- `n` entries of a table from an index on (`unpack`). -/
def slice (entries : Nat → Option α) : Nat → Nat → List α
  | _, 0 => []
  | start, n + 1 => (entries start).toList ++ slice entries (start + 1) n

def content (q : TableQueue α) : List α := slice q.entries q.front q.count

def push (q : TableQueue α) (a : α) : TableQueue α where
  entries := Function.update q.entries q.back (some a)
  front := q.front
  back := q.back + 1
  front_le := Nat.le_succ_of_le q.front_le
  filled := by
    intro i h1 h2
    by_cases hi : i = q.back
    · simp [hi]
    · rw [Function.update_of_ne hi]
      exact q.filled i h1 (by omega)

/-- Without the frontmost entry, and from the start again when nothing
is left. A queue without entries stays as it is. -/
def pop (q : TableQueue α) : TableQueue α :=
  if h : q.back ≤ q.front + 1 then
    { entries := Function.update q.entries q.front none
      front := if q.front < q.back then 1 else q.front
      back := if q.front < q.back then 1 else q.back
      front_le := by
        have := q.front_le
        split <;> omega
      filled := by
        intro i h1 h2
        have := q.front_le
        split at h1 <;> split at h2 <;> omega }
  else
    { entries := Function.update q.entries q.front none
      front := q.front + 1
      back := q.back
      front_le := by omega
      filled := by
        intro i h1 h2
        rw [Function.update_of_ne (by omega)]
        exact q.filled i (by omega) h2 }

/-- The frontmost entry. -/
def head? (q : TableQueue α) : Option α := q.entries q.front

/-! ## Slices -/

theorem slice_congr {entries entries' : Nat → Option α} {start n : Nat}
    (h : ∀ i, start ≤ i → i < start + n → entries i = entries' i) :
    slice entries start n = slice entries' start n := by
  induction n generalizing start with
  | zero => rfl
  | succ n ih =>
    rw [slice, slice, h start (Nat.le_refl _) (by omega),
      ih fun i h1 h2 => h i (by omega) (by omega)]

theorem slice_succ_last (entries : Nat → Option α) (start n : Nat) :
    slice entries start (n + 1) = slice entries start n ++ (entries (start + n)).toList := by
  induction n generalizing start with
  | zero => simp [slice]
  | succ n ih =>
    rw [slice, ih, slice, List.append_assoc, Nat.add_assoc, Nat.add_comm 1 n]

theorem take_slice {entries : Nat → Option α} {start n m : Nat}
    (hfilled : ∀ i, start ≤ i → i < start + n → (entries i).isSome = true) (hm : m ≤ n) :
    (slice entries start n).take m = slice entries start m := by
  induction m generalizing start n with
  | zero => simp [slice]
  | succ m ih =>
    obtain ⟨n, rfl⟩ : ∃ k, n = k + 1 := ⟨n - 1, by omega⟩
    obtain ⟨a, ha⟩ := Option.isSome_iff_exists.mp (hfilled start (Nat.le_refl _) (by omega))
    rw [slice, slice, ha]
    simp only [Option.toList_some, List.singleton_append, List.take_succ_cons]
    rw [ih (fun i h1 h2 => hfilled i (by omega) (by omega)) (by omega)]

theorem length_slice {entries : Nat → Option α} {start n : Nat}
    (hfilled : ∀ i, start ≤ i → i < start + n → (entries i).isSome = true) :
    (slice entries start n).length = n := by
  induction n generalizing start with
  | zero => rfl
  | succ n ih =>
    obtain ⟨a, ha⟩ := Option.isSome_iff_exists.mp (hfilled start (Nat.le_refl _) (by omega))
    rw [slice, ha, List.length_append, ih fun i h1 h2 => hfilled i (by omega) (by omega)]
    simp
    omega

/-! ## The operations on the content -/

theorem filled_count (q : TableQueue α) :
    ∀ i, q.front ≤ i → i < q.front + q.count → (q.entries i).isSome = true := by
  intro i h1 h2
  rw [count] at h2
  exact q.filled i h1 (by omega)

@[simp] theorem length_content (q : TableQueue α) : q.content.length = q.count :=
  length_slice q.filled_count

theorem take_content (q : TableQueue α) {n : Nat} (hn : n ≤ q.count) :
    slice q.entries q.front n = q.content.take n :=
  (take_slice q.filled_count hn).symm

@[simp] theorem content_push (q : TableQueue α) (a : α) :
    (q.push a).content = q.content ++ [a] := by
  have hcount : (q.push a).count = q.count + 1 := by
    have := q.front_le
    show q.back + 1 - q.front = q.back - q.front + 1
    omega
  have hback : q.front + q.count = q.back := by
    have := q.front_le
    rw [count]
    omega
  rw [content, hcount]
  show slice (Function.update q.entries q.back (some a)) q.front (q.count + 1) = _
  rw [slice_succ_last, hback, Function.update_self, content]
  congr 1
  apply slice_congr
  intro i _ h2
  exact Function.update_of_ne (by omega) _ _

theorem content_eq_cons (q : TableQueue α) (h : 0 < q.count) :
    ∃ a, q.head? = some a ∧ q.content = a :: q.pop.content := by
  have hcount : q.count = q.back - q.front := rfl
  obtain ⟨a, ha⟩ := Option.isSome_iff_exists.mp (q.filled q.front (Nat.le_refl _) (by omega))
  refine ⟨a, ha, ?_⟩
  obtain ⟨n, hn⟩ : ∃ n, q.count = n + 1 := ⟨q.count - 1, by omega⟩
  rw [content, hn, slice, ha, Option.toList_some, List.singleton_append, List.cons.injEq]
  refine ⟨rfl, ?_⟩
  rw [pop]
  split
  · rename_i hlast
    obtain rfl : n = 0 := by omega
    have hfront : q.front < q.back := by omega
    simp [content, count, slice, hfront]
  · rename_i hlast
    have hrest : q.back - (q.front + 1) = n := by omega
    rw [content, count]
    simp only [hrest]
    apply slice_congr
    intro i h1 _
    exact (Function.update_of_ne (by omega) _ _).symm

theorem content_pop (q : TableQueue α) (h : 0 < q.count) : q.pop.content = q.content.tail := by
  obtain ⟨a, -, hcontent⟩ := q.content_eq_cons h
  rw [hcontent, List.tail_cons]

theorem count_push (q : TableQueue α) (a : α) : (q.push a).count = q.count + 1 := by
  rw [← length_content, content_push, List.length_append, length_content, List.length_singleton]

theorem count_pop (q : TableQueue α) (h : 0 < q.count) : q.pop.count = q.count - 1 := by
  rw [← length_content, content_pop q h, List.length_tail, length_content]

end TableQueue

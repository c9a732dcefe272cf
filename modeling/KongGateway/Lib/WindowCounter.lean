import Mathlib.Data.List.Basic
import Mathlib.Data.List.Count

/-!
# WindowCounter — counting in windows that open on demand

A counter for windows of a fixed length: an event after the end of the
current window opens a new one, an event within it is counted if the
limit leaves room. Events come in order of time.

The history of a counter is the list of the events' times and, for each
of them, the start of its window. Windows do not overlap, none has more
events than the limit, and an interval as long as a window meets at most
two of them.
-/

namespace WindowCounter

/-- The start of the current window, if there is one, and its count. -/
structure State where
  start : Option Nat
  count : Nat

/-- What an event that is counted does to the counter. -/
inductive Step (width limit now : Nat) (s : State) : State → Prop where
  | opens : (∀ start, s.start = some start → start + width ≤ now) → 0 < limit →
      Step width limit now s ⟨some now, 1⟩
  | stays {start : Nat} : s.start = some start → now < start + width → s.count < limit →
      Step width limit now s ⟨some start, s.count + 1⟩

/-- The events with a time in `[a, a + width)`. -/
def within (width : Nat) (times : List Nat) (a : Nat) : Nat :=
  times.countP fun time => decide (a ≤ time ∧ time < a + width)

/-- A counter that fits the history of its events. -/
structure Fits (width limit : Nat) (s : State) (starts times : List Nat) : Prop where
  fresh : s.start = none → s.count = 0 ∧ starts = [] ∧ times = []
  latest : ∀ start, s.start = some start →
    (∀ earlier ∈ starts, earlier = start ∨ earlier + width ≤ start)
      ∧ starts.count start = s.count ∧ s.count ≤ limit
  anchored : ∀ start, s.start = some start → start ∈ times
  full : ∀ start, starts.count start ≤ limit
  spaced : starts.Pairwise fun start next => start = next ∨ start + width ≤ next
  interval : ∀ a, within width times a ≤ 2 * limit
  interval_start : ∀ a start, s.start = some start →
    (start < a → within width times a ≤ s.count)
      ∧ (start < a + width → within width times a ≤ limit + s.count)

namespace Fits

variable {width limit now : Nat} {s : State} {starts times : List Nat}

theorem empty : Fits width limit ⟨none, 0⟩ [] [] where
  fresh := fun _ => ⟨rfl, rfl, rfl⟩
  latest := fun _ h => by cases h
  anchored := fun _ h => by cases h
  full := fun _ => Nat.zero_le _
  spaced := List.Pairwise.nil
  interval := fun _ => Nat.zero_le _
  interval_start := fun _ _ h => by cases h

theorem within_append_singleton (width : Nat) (times : List Nat) (now a : Nat) :
    within width (times ++ [now]) a
      = within width times a + if a ≤ now ∧ now < a + width then 1 else 0 := by
  simp [within, List.countP_append, List.countP_singleton]

theorem within_eq_zero {a : Nat} (h : ∀ time ∈ times, time < a) : within width times a = 0 := by
  refine List.countP_eq_zero.mpr fun time hmem hin => ?_
  have hlt := h time hmem
  simp only [decide_eq_true_eq] at hin
  omega

theorem over_of_latest (h : Fits width limit s starts times)
    (hover : ∀ start, s.start = some start → start + width ≤ now) :
    ∀ earlier ∈ starts, earlier + width ≤ now := by
  intro earlier hmem
  cases hstart : s.start with
  | none =>
    rw [(h.fresh hstart).2.1] at hmem
    cases hmem
  | some start =>
    have hle := (h.latest start hstart).1 earlier hmem
    have := hover start hstart
    omega

/-- An interval that reaches behind the current window has seen at most
that window. -/
theorem within_le_of_over (h : Fits width limit s starts times)
    (hover : ∀ start, s.start = some start → start + width ≤ now) {a : Nat}
    (ha : now < a + width) : within width times a ≤ limit := by
  cases hstart : s.start with
  | none =>
    rw [(h.fresh hstart).2.2]
    exact Nat.zero_le _
  | some start =>
    have hprev := hover start hstart
    have hcount := (h.interval_start a start hstart).1 (by omega)
    have := (h.latest start hstart).2.2
    omega

theorem opens (h : Fits width limit s starts times) (hlimit : 0 < limit)
    (hover : ∀ start, s.start = some start → start + width ≤ now)
    (hwidth : 0 < width) (hnow : ∀ time ∈ times, time ≤ now) :
    Fits width limit ⟨some now, 1⟩ (starts ++ [now]) (times ++ [now]) := by
  have hbefore := h.over_of_latest hover
  have hnew : starts.count now = 0 := by
    refine List.count_eq_zero.mpr fun hmem => ?_
    have := hbefore now hmem
    omega
  refine ⟨(fun hnone => by cases hnone), ?_, ?_, ?_, ?_, ?_, ?_⟩
  · rintro start ⟨⟩
    refine ⟨fun earlier hmem => ?_, by simp [hnew], hlimit⟩
    rcases List.mem_append.mp hmem with hmem | hmem
    · exact .inr (hbefore earlier hmem)
    · exact .inl (List.mem_singleton.mp hmem)
  · rintro start ⟨⟩
    simp
  · intro start
    rw [List.count_append, List.count_singleton]
    split_ifs with heq
    · rw [← eq_of_beq heq, hnew]
      omega
    · exact h.full start
  · rw [List.pairwise_append]
    refine ⟨h.spaced, List.pairwise_singleton _ _, fun start hmem next hnext => ?_⟩
    rw [List.mem_singleton.mp hnext]
    exact .inr (hbefore start hmem)
  · intro a
    have hall := h.interval a
    rw [within_append_singleton]
    split_ifs with hin
    · have := h.within_le_of_over hover hin.2
      omega
    · exact hall
  · rintro a start ⟨⟩
    refine ⟨fun hlt => ?_, fun hlt => ?_⟩
    · rw [within_append_singleton, within_eq_zero fun time hmem => by
        have := hnow time hmem
        omega]
      split_ifs <;> omega
    · have := h.within_le_of_over hover hlt
      rw [within_append_singleton]
      split_ifs <;> simp only <;> omega

theorem stays (h : Fits width limit s starts times) {start : Nat}
    (hstart : s.start = some start) (hroom : s.count < limit) (hin : start ≤ now) :
    Fits width limit ⟨some start, s.count + 1⟩ (starts ++ [start]) (times ++ [now]) := by
  obtain ⟨hlatest, hcount, -⟩ := h.latest start hstart
  refine ⟨(fun hnone => by cases hnone), ?_, ?_, ?_, ?_, ?_, ?_⟩
  · rintro start' ⟨⟩
    refine ⟨fun earlier hmem => ?_, by simp [hcount], hroom⟩
    rcases List.mem_append.mp hmem with hmem | hmem
    · exact hlatest earlier hmem
    · exact .inl (List.mem_singleton.mp hmem)
  · rintro start' ⟨⟩
    exact List.mem_append_left _ (h.anchored start hstart)
  · intro start'
    rw [List.count_append, List.count_singleton]
    split_ifs with heq
    · rw [← eq_of_beq heq, hcount]
      exact hroom
    · exact h.full start'
  · rw [List.pairwise_append]
    refine ⟨h.spaced, List.pairwise_singleton _ _, fun earlier hmem next hnext => ?_⟩
    rw [List.mem_singleton.mp hnext]
    exact hlatest earlier hmem
  · intro a
    have hall := h.interval a
    have hstarted := (h.interval_start a start hstart).2
    rw [within_append_singleton]
    split_ifs with hnow
    · have := hstarted (by omega)
      omega
    · exact hall
  · rintro a start' ⟨⟩
    obtain ⟨hfirst, hsecond⟩ := h.interval_start a start hstart
    rw [within_append_singleton]
    refine ⟨fun hlt => ?_, fun hlt => ?_⟩
    · have := hfirst hlt
      split_ifs <;> simp only <;> omega
    · have := hsecond hlt
      split_ifs <;> simp only <;> omega

/-- **A counted event** falls into the window whose start is recorded
for it, and the counter fits the longer history. -/
theorem step (h : Fits width limit s starts times) {s' : State}
    (hstep : Step width limit now s s') (hwidth : 0 < width)
    (hnow : ∀ time ∈ times, time ≤ now) :
    ∃ start, s'.start = some start ∧ start ≤ now ∧ now < start + width
      ∧ Fits width limit s' (starts ++ [start]) (times ++ [now]) := by
  cases hstep with
  | opens hover hlimit =>
    exact ⟨now, rfl, Nat.le_refl now, Nat.lt_add_of_pos_right hwidth,
      h.opens hlimit hover hwidth hnow⟩
  | stays hstart hin hroom =>
    rename_i start
    have hle := hnow start (h.anchored start hstart)
    exact ⟨start, rfl, hle, hin, h.stays hstart hroom hle⟩

end Fits

end WindowCounter

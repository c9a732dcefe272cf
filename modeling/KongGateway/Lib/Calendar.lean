import Mathlib.Tactic.Ring

/-!
# Calendar — seconds since 1970 and the Gregorian calendar

The line of days is cut into years and every year into months. Both are
cuts into consecutive blocks of given lengths, for which the block of a
position is searched from the left.
-/

namespace Calendar

/-! ## Consecutive blocks -/

section Blocks

variable (len : Nat → Nat)

/-- Where the block `n` starts. -/
def start : Nat → Nat
  | 0 => 0
  | n + 1 => start n + len n

/-- The block of a position and the place in it, searched from the block `n`
on; the position is counted from the start of that block. -/
def locate : Nat → Nat → Nat → Nat × Nat
  | 0, n, x => (n, x)
  | fuel + 1, n, x => if x < len n then (n, x) else locate fuel (n + 1) (x - len n)

variable {len}

theorem start_le_start {a b : Nat} (h : a ≤ b) : start len a ≤ start len b := by
  induction h with
  | refl => exact Nat.le_refl _
  | step _ ih => exact Nat.le_trans ih (Nat.le_add_right _ _)

theorem start_add (a b : Nat) : start len (a + b) = start len a + start (fun n => len (a + n)) b := by
  induction b with
  | zero => rfl
  | succ b ih => rw [← Nat.add_assoc, start, start, ih, Nat.add_assoc]

theorem start_mul {period : Nat} (hperiod : ∀ n, len (period + n) = len n) (k : Nat) :
    start len (period * k) = start len period * k := by
  induction k with
  | zero => rfl
  | succ k ih =>
    rw [Nat.mul_succ, Nat.add_comm, start_add, funext hperiod, ih, Nat.mul_succ, Nat.add_comm]

theorem locate_spec (hpos : ∀ n, 0 < len n) {fuel n x : Nat} (h : x ≤ fuel) :
    (locate len fuel n x).2 < len (locate len fuel n x).1
      ∧ start len (locate len fuel n x).1 + (locate len fuel n x).2 = start len n + x := by
  induction fuel generalizing n x with
  | zero =>
    have hx : x = 0 := by omega
    subst hx
    exact ⟨hpos n, rfl⟩
  | succ fuel ih =>
    unfold locate
    split
    · rename_i hlt
      exact ⟨hlt, rfl⟩
    · have hn := hpos n
      obtain ⟨hlt, hsum⟩ := ih (n := n + 1) (x := x - len n) (by omega)
      refine ⟨hlt, hsum.trans ?_⟩
      rw [start]
      omega

theorem block_unique {a b r q : Nat} (hr : r < len a) (hq : q < len b)
    (h : start len a + r = start len b + q) : a = b ∧ r = q := by
  rcases Nat.lt_trichotomy a b with hab | hab | hab
  · have hle : start len a + len a ≤ start len b := @start_le_start len _ _ hab
    omega
  · subst hab
    exact ⟨rfl, by omega⟩
  · have hle : start len b + len b ≤ start len a := @start_le_start len _ _ hab
    omega

end Blocks

/-! ## Years and months -/

def isLeapYear (year : Nat) : Bool :=
  year % 4 = 0 && (year % 100 ≠ 0 || year % 400 = 0)

def yearLength (year : Nat) : Nat := if isLeapYear year then 366 else 365

/-- The days of a month; months are counted from 0. -/
def monthLength (year : Nat) : Nat → Nat
  | 1 => if isLeapYear year then 29 else 28
  | 3 | 5 | 8 | 10 => 30
  | _ => 31

theorem yearLength_pos (year : Nat) : 0 < yearLength year := by
  unfold yearLength
  split <;> decide

theorem monthLength_pos (year month : Nat) : 0 < monthLength year month := by
  unfold monthLength
  split <;> first | decide | (split <;> decide)

theorem start_monthLength (year : Nat) : start (monthLength year) 12 = yearLength year := by
  simp only [start, monthLength, yearLength]
  split <;> rfl

/-! ## Dates with a time -/

/-- A date and a time; the month and the day are counted from 1. -/
structure DateTime where
  year : Nat
  month : Nat
  day : Nat
  hour : Nat
  min : Nat
  sec : Nat
  deriving DecidableEq

namespace DateTime

/-- The lengths of the years from 1970 on. -/
def years (n : Nat) : Nat := yearLength (1970 + n)

theorem years_period (n : Nat) : years (400 + n) = years n := by
  have hyear : (1970 + (400 + n)) = (1970 + n) + 400 := by omega
  have h4 : (1970 + n + 400) % 4 = (1970 + n) % 4 := by omega
  have h100 : (1970 + n + 400) % 100 = (1970 + n) % 100 := by omega
  have h400 : (1970 + n + 400) % 400 = (1970 + n) % 400 := by omega
  rw [years, years, yearLength, yearLength, isLeapYear, isLeapYear, hyear, h4, h100, h400]

theorem start_years (k n : Nat) : start years (400 * k + n) = 146097 * k + start years n := by
  have hcycle : start years 400 = 146097 := by decide +kernel
  have hshift : (fun m => years (400 * k + m)) = years := by
    induction k with
    | zero => simp
    | succ k ih =>
      funext m
      rw [Nat.mul_succ, Nat.add_comm (400 * k), Nat.add_assoc, years_period]
      exact congrFun ih m
  rw [start_add, start_mul years_period, hshift, hcycle]

def ofSeconds (t : Nat) : DateTime :=
  let days := t / 86400
  let year := locate years days 0 days
  let month := locate (monthLength (1970 + year.1)) year.2 0 year.2
  { year := 1970 + year.1
    month := month.1 + 1
    day := month.2 + 1
    hour := t / 3600 % 24
    min := t / 60 % 60
    sec := t % 60 }

def toSeconds (d : DateTime) : Nat :=
  (start years (d.year - 1970) + start (monthLength d.year) (d.month - 1) + (d.day - 1)) * 86400
    + d.hour * 3600 + d.min * 60 + d.sec

theorem toSeconds_newYear {year : Nat} (k n : Nat) (h : year - 1970 = 400 * k + n) :
    toSeconds ⟨year, 1, 1, 0, 0, 0⟩ = (146097 * k + start years n) * 86400 := by
  have hmonth : start (monthLength year) 0 = 0 := rfl
  simp only [toSeconds, h, start_years, Nat.sub_self, hmonth, Nat.add_zero, Nat.zero_mul]

structure Valid (d : DateTime) : Prop where
  year : 1970 ≤ d.year
  month_pos : 1 ≤ d.month
  month_le : d.month ≤ 12
  day_pos : 1 ≤ d.day
  day_le : d.day ≤ monthLength d.year (d.month - 1)
  hour : d.hour < 24
  min : d.min < 60
  sec : d.sec < 60

theorem Valid.day_lt {d : DateTime} (h : d.Valid) :
    start (monthLength d.year) (d.month - 1) + (d.day - 1) < yearLength d.year := by
  have hle : start (monthLength d.year) (d.month - 1 + 1) ≤ start (monthLength d.year) 12 :=
    start_le_start (by have := h.month_le; have := h.month_pos; omega)
  rw [start_monthLength, start] at hle
  have := h.day_le
  have := h.day_pos
  omega

theorem toSeconds_injective {d e : DateTime} (hd : d.Valid) (he : e.Valid)
    (h : d.toSeconds = e.toSeconds) : d = e := by
  have hd' := hd.day_lt
  have he' := he.day_lt
  obtain ⟨year, month, day, hour, min, sec⟩ := d
  obtain ⟨year', month', day', hour', min', sec'⟩ := e
  obtain ⟨hy, hm1, hm2, hd1, hd2, hh, hmin, hs⟩ := hd
  obtain ⟨hy', hm1', hm2', hd1', hd2', hh', hmin', hs'⟩ := he
  simp only [toSeconds] at *
  have hdays : start years (year - 1970) + (start (monthLength year) (month - 1) + (day - 1))
      = start years (year' - 1970) + (start (monthLength year') (month' - 1) + (day' - 1)) := by
    omega
  have hlen : years (year - 1970) = yearLength year := by
    rw [years, show 1970 + (year - 1970) = year by omega]
  have hlen' : years (year' - 1970) = yearLength year' := by
    rw [years, show 1970 + (year' - 1970) = year' by omega]
  obtain ⟨hyear, hrest⟩ := block_unique (by omega) (by omega) hdays
  have hyears : year = year' := by omega
  subst hyears
  obtain ⟨hmonth, hday⟩ := block_unique (by omega) (by omega) hrest
  have hmonths : month = month' := by omega
  subst hmonths
  have hhour : hour = hour' := by omega
  have hmins : min = min' := by omega
  have hsec : sec = sec' := by omega
  rw [show day = day' by omega, hhour, hmins, hsec]

theorem ofSeconds_spec (t : Nat) : (ofSeconds t).Valid ∧ (ofSeconds t).toSeconds = t := by
  obtain ⟨hyear, hsum⟩ := locate_spec (show ∀ n, 0 < years n from fun n => yearLength_pos _)
    (n := 0) (Nat.le_refl (t / 86400))
  unfold ofSeconds
  simp only
  generalize locate years (t / 86400) 0 (t / 86400) = year at *
  obtain ⟨hmonth, hsum'⟩ := locate_spec (monthLength_pos (1970 + year.1)) (n := 0)
    (Nat.le_refl year.2)
  generalize locate (monthLength (1970 + year.1)) year.2 0 year.2 = month at *
  have htwelve : month.1 < 12 := by
    by_contra hge
    have hle : start (monthLength (1970 + year.1)) 12
        ≤ start (monthLength (1970 + year.1)) month.1 := start_le_start (by omega)
    rw [start_monthLength] at hle
    simp only [years, start] at hyear hsum'
    omega
  constructor
  · exact ⟨by simp, by simp, by simp only; omega, by simp, Nat.succ_le_of_lt (by simpa using hmonth),
      Nat.mod_lt _ (by decide), Nat.mod_lt _ (by decide), Nat.mod_lt _ (by decide)⟩
  · simp only [toSeconds, start, Nat.add_sub_cancel, Nat.add_sub_cancel_left] at hsum hsum' ⊢
    rw [show start years year.1 + start (monthLength (1970 + year.1)) month.1 + month.2
      = t / 86400 by omega]
    omega

end DateTime

end Calendar

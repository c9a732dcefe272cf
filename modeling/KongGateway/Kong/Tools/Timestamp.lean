import KongGateway.Lib.Calendar

/-!
# Timestamp — the starts of calendar windows

`get_timestamps` gives for a time the starts of its second, minute, hour,
day, month and year in milliseconds. Time tables are those of the library
luatz.
-/

namespace KongGateway.Kong.Tools.Timestamp

open Calendar

/-- `timestamp_table_fields` -/
inductive Period where
  | second
  | minute
  | hour
  | day
  | month
  | year
  deriving DecidableEq

namespace Period

def all : List Period := [second, minute, hour, day, month, year]

theorem mem_all (period : Period) : period ∈ all := by
  cases period <;> decide

end Period

/-- The functions `new_from_timestamp` and `timestamp` of time tables. They
are in UTC. -/
structure Luatz where
  newFromTimestamp : Nat → DateTime
  timestamp : DateTime → Nat
  newFromTimestamp_eq : ∀ t, newFromTimestamp t = DateTime.ofSeconds t
  timestamp_eq : ∀ d : DateTime, d.Valid → timestamp d = d.toSeconds

/-- Time tables as the calendar has them. The seconds to the year 20000 are
written out: going through its years takes long. -/
def Luatz.calendar : Luatz where
  newFromTimestamp := DateTime.ofSeconds
  timestamp d := if d = ⟨20000, 1, 1, 0, 0, 0⟩ then 568971820800 else d.toSeconds
  newFromTimestamp_eq _ := rfl
  timestamp_eq d _ := by
    split
    · rename_i hd
      rw [hd, @DateTime.toSeconds_newYear 20000 45 30 (by omega)]
      decide +kernel
    · rfl

/-- `ms_check`: any value above is assumed to be in milliseconds. -/
def msCheck (luatz : Luatz) : Nat := luatz.timestamp ⟨20000, 1, 1, 0, 0, 0⟩

/-- `get_timetable`. Parts of a second are dropped here, which
`get_timestamps` does with `math_floor`. -/
def getTimetable (luatz : Luatz) (now : Nat) : DateTime :=
  if now > msCheck luatz then luatz.newFromTimestamp (now / 1000)
  else luatz.newFromTimestamp now

/-- `get_timestamps` -/
def getTimestamps (luatz : Luatz) (now : Nat) : Period → Nat :=
  let timetable := getTimetable luatz now
  let second := luatz.timestamp timetable * 1000
  let timetable := { timetable with sec := 0 }
  let minute := luatz.timestamp timetable * 1000
  let timetable := { timetable with min := 0 }
  let hour := luatz.timestamp timetable * 1000
  let timetable := { timetable with hour := 0 }
  let day := luatz.timestamp timetable * 1000
  let timetable := { timetable with day := 1 }
  let month := luatz.timestamp timetable * 1000
  let timetable := { timetable with month := 1 }
  let year := luatz.timestamp timetable * 1000
  fun
    | .second => second
    | .minute => minute
    | .hour => hour
    | .day => day
    | .month => month
    | .year => year

/-! ## Windows -/

/-- The start of the window of a period that a date lies in. -/
def floor : Period → DateTime → DateTime
  | .second, d => d
  | .minute, d => { d with sec := 0 }
  | .hour, d => { d with min := 0, sec := 0 }
  | .day, d => { d with hour := 0, min := 0, sec := 0 }
  | .month, d => { d with day := 1, hour := 0, min := 0, sec := 0 }
  | .year, d => { d with month := 1, day := 1, hour := 0, min := 0, sec := 0 }

/-- The seconds of a window. -/
def windowLength : Period → DateTime → Nat
  | .second, _ => 1
  | .minute, _ => 60
  | .hour, _ => 3600
  | .day, _ => 86400
  | .month, d => monthLength d.year (d.month - 1) * 86400
  | .year, d => yearLength d.year * 86400

theorem floor_valid {d : DateTime} (h : d.Valid) (period : Period) : (floor period d).Valid := by
  obtain ⟨hy, hm1, hm2, hd1, hd2, hh, hmin, hs⟩ := h
  have hmonth := monthLength_pos d.year
  have h60 : 0 < 60 := by decide
  have h24 : 0 < 24 := by decide
  have h12 : 1 ≤ 12 := by decide
  cases period with
  | second => exact ⟨hy, hm1, hm2, hd1, hd2, hh, hmin, hs⟩
  | minute => exact ⟨hy, hm1, hm2, hd1, hd2, hh, hmin, h60⟩
  | hour => exact ⟨hy, hm1, hm2, hd1, hd2, hh, h60, h60⟩
  | day => exact ⟨hy, hm1, hm2, hd1, hd2, h24, h60, h60⟩
  | month => exact ⟨hy, hm1, hm2, Nat.le_refl 1, hmonth _, h24, h60, h60⟩
  | year => exact ⟨hy, Nat.le_refl 1, h12, Nat.le_refl 1, hmonth _, h24, h60, h60⟩

theorem floor_bounds {d : DateTime} (h : d.Valid) (period : Period) :
    (floor period d).toSeconds ≤ d.toSeconds
      ∧ d.toSeconds < (floor period d).toSeconds + windowLength period (floor period d) := by
  have hyear := h.day_lt
  have hmonth := h.day_le
  have hday := h.day_pos
  have hhour := h.hour
  have hmin := h.min
  have hsec := h.sec
  cases period <;>
    simp only [floor, windowLength, DateTime.toSeconds, start, Nat.sub_self] <;> omega

theorem getTimestamps_eq {luatz : Luatz} {now : Nat} (h : msCheck luatz < now) (period : Period) :
    getTimestamps luatz now period
      = (floor period (DateTime.ofSeconds (now / 1000))).toSeconds * 1000 := by
  have hvalid := (DateTime.ofSeconds_spec (now / 1000)).1
  rw [← luatz.timestamp_eq _ (floor_valid hvalid period)]
  unfold getTimestamps getTimetable
  simp only [if_pos h, luatz.newFromTimestamp_eq]
  cases period <;> rfl

end KongGateway.Kong.Tools.Timestamp

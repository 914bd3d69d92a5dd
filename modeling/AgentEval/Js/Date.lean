import AgentEval.Js.Decimal

/-!
# Time values and their ISO text

A time value is a number of milliseconds from the epoch, inside the range of `Date`; an invalid
`Date` has none. `TimeValue.toISOString` writes it in the format of `Date.prototype.toISOString`,
and `dateParse` reads the date-time string format: the other texts, those that ECMAScript leaves to
the implementation or to the local time zone, are read by the host.

* **`yearFromDay_spec`**: the year of a day, found from the length of the Gregorian cycle.
* **`dateParse_toISOString`**: reading the text of a time value gives it back.
-/

namespace Js

/-- A time value of a valid `Date`. -/
structure TimeValue where
  /-- Milliseconds from the epoch. -/
  ms : ℤ
  /-- Within a hundred million days of the epoch. -/
  inRange : |ms| ≤ 8640000000000000
  deriving DecidableEq

/-- The epoch is in range. -/
theorem TimeValue.zero_inRange : |(0 : ℤ)| ≤ 8640000000000000 := by norm_num

/-! ## The calendar -/

/-- The day number of the first day of a year. -/
def dayFromYear (y : ℤ) : ℤ :=
  365 * (y - 1970) + (y - 1969) / 4 - (y - 1901) / 100 + (y - 1601) / 400

/-- The leap years. -/
def isLeap (y : ℤ) : Bool := (y % 4 = 0 ∧ y % 100 ≠ 0) ∨ y % 400 = 0

/-- The leap day. -/
def leapDay (leap : Bool) : ℤ := if leap then 1 else 0

/-- The year of a day: the average length of a year gives it up to one. -/
def yearFromDay (d : ℤ) : ℤ :=
  let y := d * 400 / 146097 + 1970
  if d < dayFromYear y then y - 1 else if dayFromYear (y + 1) ≤ d then y + 1 else y

/-- The days of the year before a month. -/
def monthStart (leap : Bool) (m : ℕ) : ℤ :=
  [0, 31, 59, 90, 120, 151, 181, 212, 243, 273, 304, 334].getD (m - 1) 0 +
    if 3 ≤ m then leapDay leap else 0

/-- The number of days of a month. -/
def daysInMonth (leap : Bool) (m : ℕ) : ℤ :=
  if m = 2 then 28 + leapDay leap else if m = 4 ∨ m = 6 ∨ m = 9 ∨ m = 11 then 30 else 31

/-- The last month up to `m` that has started by a day of the year; days count from zero. -/
def lastMonth (leap : Bool) (k : ℤ) : ℕ → ℕ
  | 0 => 1
  | m + 1 => if monthStart leap (m + 1) ≤ k then m + 1 else lastMonth leap k m

/-- The month of a day of the year. -/
def monthFromDay (leap : Bool) (k : ℤ) : ℕ := lastMonth leap k 12

/-- **A day lies in its year.** -/
theorem yearFromDay_spec (d : ℤ) :
    dayFromYear (yearFromDay d) ≤ d ∧ d < dayFromYear (yearFromDay d + 1) := by
  have hlo : dayFromYear (d * 400 / 146097 + 1970 - 1) ≤ d := by
    unfold dayFromYear
    omega
  have hhi : d < dayFromYear (d * 400 / 146097 + 1970 + 2) := by
    unfold dayFromYear
    omega
  unfold yearFromDay
  simp only
  split_ifs with hlt hle
  · exact ⟨hlo, by rwa [sub_add_cancel]⟩
  · exact ⟨hle, by rwa [add_assoc _ 1 1]⟩
  · exact ⟨not_lt.mp hlt, not_le.mp hle⟩

/-- The length of a year. -/
theorem dayFromYear_succ (y : ℤ) :
    dayFromYear (y + 1) = dayFromYear y + 365 + leapDay (isLeap y) := by
  unfold leapDay isLeap dayFromYear
  split_ifs with h <;> simp only [decide_eq_true_eq] at h <;> omega

/-- The year of a day near the epoch. -/
theorem abs_yearFromDay_lt {d : ℤ} (h : |d| ≤ 100000000) :
    -1000000 < yearFromDay d ∧ yearFromDay d < 1000000 := by
  have hd := abs_le.mp h
  unfold yearFromDay
  simp only
  split_ifs <;> omega

/-- A month starts when the one before it ends. -/
theorem monthStart_succ (leap : Bool) {m : ℕ} (h₁ : 1 ≤ m) (h₂ : m < 12) :
    monthStart leap (m + 1) = monthStart leap m + daysInMonth leap m := by
  interval_cases m <;> simp [monthStart, daysInMonth] <;> ring

/-- A day before the end of month `m` lies in the last month started by then. -/
theorem lastMonth_spec {leap : Bool} {k : ℤ} (h₀ : 0 ≤ k) {m : ℕ} (h₁ : 1 ≤ m) (h₂ : m ≤ 12)
    (hk : k < monthStart leap m + daysInMonth leap m) :
    1 ≤ lastMonth leap k m ∧ lastMonth leap k m ≤ 12 ∧
      monthStart leap (lastMonth leap k m) ≤ k ∧
      k < monthStart leap (lastMonth leap k m) + daysInMonth leap (lastMonth leap k m) := by
  induction m with
  | zero => omega
  | succ m ih =>
    rw [lastMonth]
    split_ifs with hstart
    · exact ⟨h₁, h₂, hstart, hk⟩
    · rw [not_le] at hstart
      rcases Nat.eq_zero_or_pos m with rfl | hpos
      · exact absurd hstart (not_lt.mpr h₀)
      · rw [monthStart_succ leap hpos (by omega)] at hstart
        exact ih hpos (by omega) hstart

/-- **A day of a year lies in its month.** -/
theorem monthFromDay_spec {leap : Bool} {k : ℤ} (h₀ : 0 ≤ k) (h₁ : k < 365 + leapDay leap) :
    1 ≤ monthFromDay leap k ∧ monthFromDay leap k ≤ 12 ∧
      monthStart leap (monthFromDay leap k) ≤ k ∧
      k < monthStart leap (monthFromDay leap k) + daysInMonth leap (monthFromDay leap k) := by
  refine lastMonth_spec h₀ (by norm_num) le_rfl ?_
  norm_num [monthStart, daysInMonth]
  omega

/-! ## Digits of a fixed width -/

/-- The last `w` digits of a number. -/
def fixedDigits : ℕ → ℕ → JsString
  | 0, _ => []
  | w + 1, n => fixedDigits w (n / 10) ++ [UInt16.ofNat (48 + n % 10)]

/-- A number of `w` digits at the front. -/
def scanFixed (w : ℕ) (s : JsString) : Option (ℕ × JsString) :=
  if (s.take w).length = w ∧ (s.take w).all isDigit = true then
    some (digitsValue (s.take w), s.drop w)
  else none

/-- A number of `w` digits after a mark. -/
def scanPart (mark : UInt16) (w : ℕ) : JsString → Option (ℕ × JsString)
  | [] => none
  | u :: s => if u = mark then scanFixed w s else none

/-- The width. -/
@[simp] theorem length_fixedDigits (w n : ℕ) : (fixedDigits w n).length = w := by
  induction w generalizing n with
  | zero => rfl
  | succ w ih => rw [fixedDigits, List.length_append, ih]; rfl

/-- A single digit. -/
theorem toNat_digit (n : ℕ) : (UInt16.ofNat (48 + n % 10)).toNat = 48 + n % 10 := by
  rw [UInt16.toNat_ofNat']
  omega

/-- The digits are digits. -/
theorem all_isDigit_fixedDigits (w n : ℕ) : (fixedDigits w n).all isDigit = true := by
  induction w generalizing n with
  | zero => rfl
  | succ w ih =>
    rw [fixedDigits, List.all_append, ih, Bool.true_and, List.all_cons, List.all_nil,
      Bool.and_true, isDigit, toNat_digit, Bool.and_eq_true, decide_eq_true_eq, decide_eq_true_eq]
    omega

/-- The digits write the number. -/
theorem digitsValue_fixedDigits {w n : ℕ} (h : n < 10 ^ w) : digitsValue (fixedDigits w n) = n := by
  induction w generalizing n with
  | zero =>
    rw [pow_zero] at h
    rw [show n = 0 by omega]
    rfl
  | succ w ih =>
    rw [pow_succ] at h
    have hone : digitsValue [UInt16.ofNat (48 + n % 10)] = n % 10 := by
      simp only [digitsValue, List.foldl_cons, List.foldl_nil, toNat_digit]
      omega
    rw [fixedDigits, digitsValue_append, ih (by omega), hone, List.length_singleton]
    omega

/-- **Reading digits of a fixed width inverts writing them**, whatever follows. -/
theorem scanFixed_fixedDigits {w n : ℕ} (h : n < 10 ^ w) (s : JsString) :
    scanFixed w (fixedDigits w n ++ s) = some (n, s) := by
  have hlen := length_fixedDigits w n
  have htake : (fixedDigits w n ++ s).take w = fixedDigits w n := List.take_left' hlen
  have hdrop : (fixedDigits w n ++ s).drop w = s := List.drop_left' hlen
  rw [scanFixed, htake, hdrop, if_pos ⟨hlen, all_isDigit_fixedDigits w n⟩,
    digitsValue_fixedDigits h]

/-- The same after a mark. -/
theorem scanPart_fixedDigits {w n : ℕ} (h : n < 10 ^ w) (mark : UInt16) (s : JsString) :
    scanPart mark w (mark :: (fixedDigits w n ++ s)) = some (n, s) := by
  rw [scanPart, if_pos rfl, scanFixed_fixedDigits h]

/-! ## The text of a time value -/

/-- The text of a year: four digits, or six with a sign. -/
def yearText (y : ℤ) : JsString :=
  if 0 ≤ y ∧ y ≤ 9999 then fixedDigits 4 y.toNat
  else (if y < 0 then 45 else 43) :: fixedDigits 6 y.natAbs

namespace TimeValue

variable (t : TimeValue)

/-- The day number. -/
def day : ℤ := t.ms / 86400000

/-- The milliseconds into the day. -/
def timeInDay : ℕ := (t.ms % 86400000).toNat

/-- The year. -/
def year : ℤ := yearFromDay t.day

/-- The day of the year, from zero. -/
def dayInYear : ℤ := t.day - dayFromYear t.year

/-- The month, from one. -/
def month : ℕ := monthFromDay (isLeap t.year) t.dayInYear

/-- The day of the month, from one. -/
def date : ℕ := (t.dayInYear - monthStart (isLeap t.year) t.month + 1).toNat

/-- `Date.prototype.toISOString` on a valid date. -/
def toISOString : JsString :=
  yearText t.year ++ 45 :: (fixedDigits 2 t.month ++ 45 :: (fixedDigits 2 t.date ++
    84 :: (fixedDigits 2 (t.timeInDay / 3600000) ++
    58 :: (fixedDigits 2 (t.timeInDay / 60000 % 60) ++
    58 :: (fixedDigits 2 (t.timeInDay / 1000 % 60) ++
    46 :: (fixedDigits 3 (t.timeInDay % 1000) ++ [90]))))))

end TimeValue

/-! ## Reading the date-time string format -/

/-- A year. -/
def scanYear : JsString → Option (ℤ × JsString)
  | 43 :: s => (scanFixed 6 s).map fun p => ((p.1 : ℤ), p.2)
  | 45 :: s => (scanFixed 6 s).bind fun p => if p.1 = 0 then none else some (-(p.1 : ℤ), p.2)
  | s => (scanFixed 4 s).map fun p => ((p.1 : ℤ), p.2)

/-- A date; the month and the day default to one. -/
def scanDate (s : JsString) : Option (ℤ × ℕ × ℕ × JsString) :=
  (scanYear s).map fun (y, s) =>
    match scanPart 45 2 s with
    | none => (y, 1, 1, s)
    | some (m, s) =>
      match scanPart 45 2 s with
      | none => (y, m, 1, s)
      | some (d, s) => (y, m, d, s)

/-- Seconds and milliseconds, zero when they are left out. -/
def scanSeconds (s : JsString) : ℕ × ℕ × JsString :=
  match scanPart 58 2 s with
  | none => (0, 0, s)
  | some (sec, s) =>
    match scanPart 46 3 s with
    | none => (sec, 0, s)
    | some (ms, s) => (sec, ms, s)

/-- The offset from UTC in minutes; without one the time is local. -/
def scanOffset : JsString → Option ℤ
  | [90] => some 0
  | u :: s =>
    if u = 43 ∨ u = 45 then
      match scanFixed 2 s with
      | none => none
      | some (h, s) =>
        match scanPart 58 2 s with
        | some (m, []) =>
          if h ≤ 23 ∧ m ≤ 59 then some (if u = 45 then -(60 * h + m : ℤ) else 60 * h + m) else none
        | _ => none
    else none
  | [] => none

/-- The milliseconds of a time of day, in UTC; a date alone is its midnight. -/
def parseTime : JsString → Option ℤ
  | [] => some 0
  | u :: s =>
    if u = 84 then
      match scanFixed 2 s with
      | none => none
      | some (h, s) =>
        match scanPart 58 2 s with
        | none => none
        | some (m, s) =>
          let (sec, ms, s) := scanSeconds s
          if (h ≤ 23 ∨ h = 24 ∧ m = 0 ∧ sec = 0 ∧ ms = 0) ∧ m ≤ 59 ∧ sec ≤ 59 then
            (scanOffset s).map fun o => 3600000 * h + 60000 * m + 1000 * sec + ms - 60000 * o
          else none
    else none

/-- A text in the date-time string format with an unambiguous meaning, in milliseconds. -/
def parseIso (s : JsString) : Option ℤ :=
  match scanDate s with
  | none => none
  | some (y, m, d, s) =>
    if 1 ≤ m ∧ m ≤ 12 ∧ 1 ≤ d ∧ (d : ℤ) ≤ daysInMonth (isLeap y) m then
      (parseTime s).map fun time =>
        86400000 * (dayFromYear y + monthStart (isLeap y) m + d - 1) + time
    else none

/-- `Date.parse`; the host reads what the format does not settle. -/
def dateParse (host : JsString → Number) (s : JsString) : Number :=
  match parseIso s with
  | none => host s
  | some t => if |t| ≤ 8640000000000000 then .ofInt t else .nan

/-! ## Reading inverts writing -/

/-- A text that starts with a digit has no sign. -/
theorem scanYear_of_isDigit {u : UInt16} (hu : isDigit u = true) (s : JsString) :
    scanYear (u :: s) = (scanFixed 4 (u :: s)).map fun p => ((p.1 : ℤ), p.2) := by
  unfold scanYear
  split
  · rename_i h
    injection h with h _
    subst h
    cases hu
  · rename_i h
    injection h with h _
    subst h
    cases hu
  · rfl

/-- The year is read back. -/
theorem scanYear_yearText {y : ℤ} (h₁ : -1000000 < y) (h₂ : y < 1000000) (s : JsString) :
    scanYear (yearText y ++ s) = some (y, s) := by
  rw [yearText]
  split_ifs with h hneg
  · have hfix := scanFixed_fixedDigits (w := 4) (n := y.toNat) (by norm_num; omega) s
    have hdig := all_isDigit_fixedDigits 4 y.toNat
    have hlen := length_fixedDigits 4 y.toNat
    cases hds : fixedDigits 4 y.toNat with
    | nil =>
      rw [hds] at hlen
      cases hlen
    | cons u us =>
      rw [hds, List.all_cons, Bool.and_eq_true] at hdig
      rw [hds, List.cons_append] at hfix
      rw [List.cons_append, scanYear_of_isDigit hdig.1, hfix, Option.map_some,
        Int.toNat_of_nonneg h.1]
  · have hfix := scanFixed_fixedDigits (w := 6) (n := y.natAbs) (by norm_num; omega) s
    rw [List.cons_append, scanYear, hfix, Option.bind_some, if_neg (by simp only; omega)]
    simp only [Option.some.injEq, Prod.mk.injEq, and_true]
    omega
  · have hfix := scanFixed_fixedDigits (w := 6) (n := y.natAbs) (by norm_num; omega) s
    rw [List.cons_append, scanYear, hfix, Option.map_some]
    simp only [Option.some.injEq, Prod.mk.injEq, and_true]
    omega

namespace TimeValue

variable (t : TimeValue)

/-- The day number is within the range of `Date`. -/
theorem abs_day_le : |t.day| ≤ 100000000 := by
  have h := abs_le.mp t.inRange
  rw [abs_le, day]
  omega

/-- The month and the day of the month are possible ones, and give the day number back. -/
theorem date_spec :
    1 ≤ t.month ∧ t.month ≤ 12 ∧ 1 ≤ t.date ∧ (t.date : ℤ) ≤ daysInMonth (isLeap t.year) t.month ∧
      dayFromYear t.year + monthStart (isLeap t.year) t.month + t.date - 1 = t.day := by
  obtain ⟨h₁, h₂⟩ := yearFromDay_spec t.day
  rw [dayFromYear_succ] at h₂
  have h₀ : 0 ≤ t.dayInYear := by
    rw [dayInYear, year]
    omega
  have hlt : t.dayInYear < 365 + leapDay (isLeap t.year) := by
    rw [dayInYear, year]
    omega
  obtain ⟨hm₁, hm₂, hd₁, hd₂⟩ := monthFromDay_spec h₀ hlt
  have hdate : (t.date : ℤ) = t.dayInYear - monthStart (isLeap t.year) t.month + 1 :=
    Int.toNat_of_nonneg (by rw [month]; omega)
  refine ⟨hm₁, hm₂, ?_, ?_, ?_⟩
  · rw [month] at hdate
    omega
  · rw [hdate, month]
    omega
  · rw [hdate, dayInYear]
    ring

/-- The time of day is read back. -/
theorem parseTime_text {n : ℕ} (h : n < 86400000) :
    parseTime (84 :: (fixedDigits 2 (n / 3600000) ++ 58 :: (fixedDigits 2 (n / 60000 % 60) ++
      58 :: (fixedDigits 2 (n / 1000 % 60) ++ 46 :: (fixedDigits 3 (n % 1000) ++ [90]))))) =
      some (n : ℤ) := by
  have hh (s : JsString) := scanFixed_fixedDigits (w := 2) (n := n / 3600000) (by norm_num; omega) s
  have hm (s : JsString) :=
    scanPart_fixedDigits (w := 2) (n := n / 60000 % 60) (by norm_num; omega) 58 s
  have hs (s : JsString) :=
    scanPart_fixedDigits (w := 2) (n := n / 1000 % 60) (by norm_num; omega) 58 s
  have hms (s : JsString) :=
    scanPart_fixedDigits (w := 3) (n := n % 1000) (by norm_num; omega) 46 s
  simp only [parseTime, if_true, hh, hm, scanSeconds, hs, hms, scanOffset]
  rw [if_pos (by omega), Option.map_some, Option.some.injEq]
  omega

/-- **Reading the text of a time value gives it back.** -/
theorem parseIso_toISOString : parseIso t.toISOString = some t.ms := by
  obtain ⟨hy₁, hy₂⟩ := abs_yearFromDay_lt t.abs_day_le
  obtain ⟨hm₁, hm₂, hd₁, hd₂, hday⟩ := t.date_spec
  have htime : t.timeInDay < 86400000 := by
    rw [timeInDay]
    omega
  have hd31 : t.date ≤ 31 := by
    have : daysInMonth (isLeap t.year) t.month ≤ 31 := by
      unfold daysInMonth leapDay
      split_ifs <;> omega
    omega
  have hmonth (s : JsString) :=
    scanPart_fixedDigits (w := 2) (n := t.month) (by norm_num; omega) 45 s
  have hdate (s : JsString) :=
    scanPart_fixedDigits (w := 2) (n := t.date) (by norm_num; omega) 45 s
  have hyear (s : JsString) : scanYear (yearText t.year ++ s) = some (t.year, s) :=
    scanYear_yearText hy₁ hy₂ s
  rw [parseIso, toISOString, scanDate, hyear]
  simp only [Option.map_some, hmonth, hdate]
  rw [if_pos ⟨hm₁, hm₂, hd₁, hd₂⟩, parseTime_text htime, Option.map_some, Option.some.injEq, hday,
    day, timeInDay]
  omega

/-- `Date.parse` of the text of a time value, whatever the host. -/
theorem dateParse_toISOString (host : JsString → Number) :
    dateParse host t.toISOString = .ofInt t.ms := by
  rw [dateParse, parseIso_toISOString]
  exact if_pos t.inRange

end TimeValue

example : (TimeValue.mk 1709208000123 (by norm_num)).toISOString = js "2024-02-29T12:00:00.123Z" := rfl

end Js

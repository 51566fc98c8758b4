import FactIndex.Fact.Property
import FactIndex.Proofs.Calendar.Count
import Mathlib.Data.Rat.Floor
import Mathlib.Tactic.FieldSimp
import Mathlib.Tactic.Linarith
import Mathlib.Tactic.NormNum
import Mathlib.Tactic.Positivity

/-!
# Dates and day numbers in exact fractions

In exact fractions the number of a point in time is the number of its date, less a half, and the part of the
day that is over. So the numbers are in line as the points in time are, and the date of a number is the date
that has this number.

## Main definitions

* `TimeOf.date`, `TimeOf.secondOfDay`: the date, and the seconds of the day that are over.
* `TimeOf.IsValid`, `TimeOf.place`: a real date with a real time of day, and where it stands.
* `dayNumber_eq`, `ofDayNumber_eq`: the conversions by whole numbers.
* `TimeOf.ofDayNumber_inverse`: days and their numbers are converted there and back.
* `TimeOf.IsValid.dayNumber_order`: day numbers are in line as points in time are.
-/

namespace FactIndex.Calendar

/-! ## Whole parts of fractions -/

theorem ofInt_rat (n : ℤ) : (DayArithmetic.ofInt n : Except Failure ℚ) = .ok n := rfl

theorem quotient_rat (a : ℤ) (b : ℕ) : (DayArithmetic.quotient a b : Except Failure ℚ) = .ok (a / b) := rfl

theorem floor_rat (x : ℚ) : (DayArithmetic.floor x : Except Failure ℤ) = .ok ⌊x⌋ := rfl

theorem floor_of_eq {x : ℚ} {n : ℤ} {d : ℕ} (h : x = n / d) : ⌊x⌋ = n / d := by
  rw [h, Rat.floor_intCast_div_natCast]

theorem floor_yearDays (n : ℤ) : ⌊(365.25 : ℚ) * n⌋ = 1461 * n / 4 :=
  floor_of_eq (by push_cast; ring)

theorem floor_monthDays (n : ℤ) : ⌊(30.6001 : ℚ) * n⌋ = 306001 * n / 10000 :=
  floor_of_eq (by push_cast; ring)

theorem floor_century (n : ℤ) : ⌊((n : ℚ) - 1867216.25) / 36524.25⌋ = (4 * n - 7468865) / 146097 :=
  floor_of_eq (by push_cast; ring)

theorem floor_year (n : ℤ) : ⌊((n : ℚ) - 122.1) / 365.25⌋ = (20 * n - 2442) / 7305 :=
  floor_of_eq (by push_cast; ring)

theorem floor_month (n : ℤ) : ⌊(n : ℚ) / 30.6001⌋ = 10000 * n / 306001 :=
  floor_of_eq (by push_cast; ring)

/-! ## Points in time -/

namespace TimeOf

/-- The date of a point in time. -/
def date {K : Type} (t : TimeOf K) : Date := ⟨t.year, t.month, t.day⟩

/-- The seconds of the day that are over. -/
def secondOfDay (t : TimeOf ℚ) : ℚ := 3600 * t.hour + 60 * t.minute + t.second

/-- A real date of the calendar with a time that a clock shows. -/
structure IsValid (t : TimeOf ℚ) : Prop where
  date : t.date.IsOf t.calendar
  hour : 0 ≤ t.hour ∧ t.hour < 24
  minute : 0 ≤ t.minute ∧ t.minute < 60
  second : 0 ≤ t.second ∧ t.second < 60

/-- Where a point in time stands: by its year, month, day, hour, minute and second. -/
def place (t : TimeOf ℚ) : ℤ ×ₗ ℤ ×ₗ ℤ ×ₗ ℤ ×ₗ ℤ ×ₗ ℚ :=
  toLex (t.year, toLex (t.month, toLex (t.day, toLex (t.hour, toLex (t.minute, t.second)))))

/-- The first instant of a day. -/
def IsFirst (t : TimeOf ℚ) : Prop := t.hour = 0 ∧ t.minute = 0 ∧ t.second = 0

theorem IsFirst.secondOfDay_eq {t : TimeOf ℚ} (h : t.IsFirst) : t.secondOfDay = 0 := by
  simp [secondOfDay, h.1, h.2.1, h.2.2]

/-- A day has one first instant. -/
theorem IsFirst.eq_of_date {t t' : TimeOf ℚ} (h : t.IsFirst) (h' : t'.IsFirst)
    (hstyle : t.calendar = t'.calendar) (hdate : t.date = t'.date) : t = t' := by
  obtain ⟨year, month, day, hour, minute, second, s⟩ := t
  obtain ⟨year', month', day', hour', minute', second', s'⟩ := t'
  obtain ⟨rfl, rfl, rfl⟩ := h
  obtain ⟨rfl, rfl, rfl⟩ := h'
  cases hstyle
  cases hdate
  rfl

end TimeOf

theorem centuryShift_eq (year : ℤ) : TimeOf.centuryShift ℚ year = .ok (Style.gregorian.shift year) := by
  unfold TimeOf.centuryShift
  simp only [quotient_rat, floor_rat]
  show Except.ok (2 - ⌊_⌋ + ⌊_⌋) = _
  simp only [Rat.floor_intCast_div_natCast]
  rfl

/-- The day number of a point in time. -/
theorem dayNumber_eq (t : TimeOf ℚ) : t.dayNumber =
    .ok (t.calendar.dayCount t.date - 1 / 2 + t.secondOfDay / 86400) := by
  have hmarch (year month : ℤ) : ((⌊(365.25 : ℚ) * ((year + 4716 : ℤ) : ℚ)⌋ +
      ⌊(30.6001 : ℚ) * ((month + 1 : ℤ) : ℚ)⌋ + t.day + t.calendar.shift year : ℤ) : ℚ) - 1524.5 +
        (t.hour + t.minute / (60 : ℕ) + t.second / (3600 : ℤ)) / (24 : ℤ) =
      (t.calendar.marchCount year month t.day : ℤ) - 1 / 2 + t.secondOfDay / 86400 := by
    rw [floor_yearDays, floor_monthDays]
    unfold Style.marchCount TimeOf.secondOfDay
    push_cast
    ring
  unfold TimeOf.dayNumber Style.dayCount TimeOf.date
  dsimp only
  obtain ⟨year, month, day, hour, minute, second, s⟩ := t
  dsimp only at hmarch ⊢
  by_cases hmonth : month ≤ 2
  · rw [if_pos hmonth, if_pos hmonth, ← hmarch]
    cases s <;> simp only [centuryShift_eq] <;> rfl
  · rw [if_neg hmonth, if_neg hmonth, ← hmarch]
    cases s <;> simp only [centuryShift_eq] <;> rfl

/-- The point in time with a date and the seconds of the day that are over. -/
def timeOf (s : Style) (d : Date) (seconds : ℚ) : TimeOf ℚ where
  year := d.year
  month := d.month
  day := d.day
  hour := ⌊seconds / 3600⌋
  minute := ⌊(seconds - 3600 * ⌊seconds / 3600⌋) / 60⌋
  second := seconds - 60 * ⌊seconds / 60⌋
  calendar := s

/-- The day at a day number. -/
def dayAt (x : ℚ) : ℤ := ⌊x + 1 / 2⌋

/-- The seconds of its day that are over at a day number. -/
def secondsAt (x : ℚ) : ℚ := thousandthOfRat (Int.fract (x + 1 / 2) * 86400)

/-- The point in time at a day number. -/
def timeAt (x : ℚ) : TimeOf ℚ := timeOf (styleOf (dayAt x)) (dateOf (dayAt x)) (secondsAt x)

theorem ofDayNumber_eq (x : ℚ) : TimeOf.ofDayNumber x = .ok (timeAt x) := by
  have hhalf : (0.5 : ℚ) = 1 / 2 := by norm_num
  unfold TimeOf.ofDayNumber
  simp only [ofInt_rat, quotient_rat, floor_rat, hhalf]
  dsimp only [Bind.bind, Except.bind, Pure.pure, Except.pure]
  have hfract : Int.fract (x + 1 / 2) = x + 1 / 2 - ⌊x + 1 / 2⌋ := rfl
  unfold timeAt secondsAt dayAt
  rw [hfract]
  generalize ⌊x + 1 / 2⌋ = count
  unfold dateOf shifted styleOf
  split
  · simp only [floor_year, floor_yearDays, floor_month, floor_monthDays, floor_century, Rat.floor_intCast_div_natCast]
    rfl
  · simp only [floor_year, floor_yearDays, floor_month, floor_monthDays]
    rfl

/-! ## The time of day -/

section

variable (s : Style) (d : Date) {seconds : ℚ}

/-- The minutes of a number of seconds are those of its hours and those that are left. -/
theorem floor_div_sixty (seconds : ℚ) : ⌊seconds / 60⌋ =
    60 * ⌊seconds / 3600⌋ + ⌊(seconds - 3600 * ⌊seconds / 3600⌋) / 60⌋ := by
  have hrest : (seconds - 3600 * ⌊seconds / 3600⌋) / 60 =
      seconds / 60 - ((60 * ⌊seconds / 3600⌋ : ℤ) : ℚ) := by
    push_cast
    ring
  rw [hrest, Int.floor_sub_intCast]
  ring

theorem secondOfDay_timeOf (seconds : ℚ) : (timeOf s d seconds).secondOfDay = seconds := by
  have hminutes : (⌊seconds / 60⌋ : ℚ) =
      60 * ⌊seconds / 3600⌋ + ⌊(seconds - 3600 * ⌊seconds / 3600⌋) / 60⌋ := by
    exact_mod_cast floor_div_sixty seconds
  unfold TimeOf.secondOfDay timeOf
  dsimp only
  rw [hminutes]
  ring

/-- Minutes and seconds are those that a clock shows. -/
theorem clock_timeOf (h : 0 ≤ seconds) : 0 ≤ (timeOf s d seconds).hour ∧
    (0 ≤ (timeOf s d seconds).minute ∧ (timeOf s d seconds).minute < 60) ∧
      0 ≤ (timeOf s d seconds).second ∧ (timeOf s d seconds).second < 60 := by
  have hhour := Int.floor_le (seconds / 3600)
  have hhour' := Int.lt_floor_add_one (seconds / 3600)
  have hminute := Int.floor_le (seconds / 60)
  have hminute' := Int.lt_floor_add_one (seconds / 60)
  unfold timeOf
  dsimp only
  refine ⟨Int.floor_nonneg.mpr (by positivity), ⟨Int.floor_nonneg.mpr ?_, Int.floor_lt.mpr ?_⟩, ?_, ?_⟩
  · linarith
  · push_cast
    linarith
  · linarith
  · linarith

end

/-! ## There and back -/

theorem thousandthOfRat_zero : thousandthOfRat 0 = 0 := by decide +kernel

theorem isFirst_timeOf (s : Style) (d : Date) : (timeOf s d 0).IsFirst := by
  simp [TimeOf.IsFirst, timeOf]

/-- The day number of the first instant of a day. -/
theorem TimeOf.IsFirst.dayNumber_eq {t : TimeOf ℚ} (h : t.IsFirst) :
    t.dayNumber = .ok (t.calendar.dayCount t.date - 1 / 2) := by
  rw [Calendar.dayNumber_eq, h.secondOfDay_eq, zero_div, add_zero]

/-- The first instant of a day. -/
theorem ofDayNumber_first (count : ℤ) : TimeOf.ofDayNumber ((count : ℚ) - 1 / 2) =
    .ok (timeOf (styleOf count) (dateOf count) 0) := by
  rw [ofDayNumber_eq, timeAt, dayAt, secondsAt, sub_add_cancel, Int.floor_intCast, Int.fract_intCast, zero_mul,
    thousandthOfRat_zero]

/-- Days and their numbers are converted into each other. Every day has a date of its calendar, the day
number of whose first instant is that of the day, and there is no other such date. -/
theorem TimeOf.ofDayNumber_inverse (count : ℤ) : ∃ t : TimeOf ℚ,
    TimeOf.ofDayNumber ((count : ℚ) - 1 / 2) = .ok t ∧ t.hour = 0 ∧ t.minute = 0 ∧ t.second = 0 ∧
      (1 ≤ t.month ∧ t.month ≤ 12) ∧ (1 ≤ t.day ∧ t.day ≤ t.calendar.monthLength t.year t.month) ∧
      (t.calendar = .gregorian ↔ 2299161 ≤ count) ∧ t.dayNumber = .ok ((count : ℚ) - 1 / 2) ∧
      ∀ t' : TimeOf ℚ, t'.calendar = t.calendar → t'.date.IsOf t'.calendar → t'.IsFirst →
        t'.dayNumber = .ok ((count : ℚ) - 1 / 2) → t' = t := by
  have hdate := isOf_dateOf count
  have hcount := dayCount_dateOf count
  have hfirst := isFirst_timeOf (styleOf count) (dateOf count)
  refine ⟨_, ofDayNumber_first count, hfirst.1, hfirst.2.1, hfirst.2.2, ⟨hdate.one_le_month, hdate.month_le⟩,
    ⟨hdate.one_le_day, hdate.day_le⟩, ?_, ?_, ?_⟩
  · show styleOf count = .gregorian ↔ _
    unfold styleOf
    split <;> simp [*]
  · rw [hfirst.dayNumber_eq]
    exact congrArg (fun n : ℤ => Except.ok ((n : ℚ) - 1 / 2)) hcount
  · intro t' hstyle hdate' hfirst' hnumber
    rw [hfirst'.dayNumber_eq, Except.ok.injEq, sub_left_inj, Int.cast_inj] at hnumber
    have hsame : t'.calendar = styleOf count := hstyle
    rw [hsame] at hdate' hnumber
    exact hfirst'.eq_of_date hfirst hstyle ((Style.dayCount_inj hdate' hdate).mp (hnumber.trans hcount.symm))

/-! ## The order of points in time -/

/-- Of two numbers with a whole part and a rest, the greater one has the greater whole part, or else the
greater rest. -/
theorem lt_iff_of_parts {k r r' : ℚ} {a b : ℤ} (hr : 0 ≤ r ∧ r < k) (hr' : 0 ≤ r' ∧ r' < k) :
    k * a + r < k * b + r' ↔ a < b ∨ a = b ∧ r < r' := by
  have hk : 0 < k := hr.1.trans_lt hr.2
  have hwhole {a b : ℤ} (h : a < b) : k * a + k ≤ k * b := by
    have hnext : (a : ℚ) + 1 ≤ b := by exact_mod_cast h
    calc k * a + k = k * (a + 1) := by ring
      _ ≤ k * b := mul_le_mul_of_nonneg_left hnext hk.le
  rcases lt_trichotomy a b with hlt | rfl | hgt
  · have hle := hwhole hlt
    exact iff_of_true (by linarith) (.inl hlt)
  · simp
  · have hle := hwhole hgt
    refine iff_of_false (by linarith) ?_
    omega

namespace TimeOf

variable {t t' : TimeOf ℚ}

theorem IsValid.secondOfDay_bounds (h : t.IsValid) : 0 ≤ t.secondOfDay ∧ t.secondOfDay < 86400 := by
  have hhour : (0 : ℚ) ≤ t.hour ∧ (t.hour : ℚ) ≤ 23 :=
    ⟨by exact_mod_cast h.hour.1, by exact_mod_cast Int.le_of_lt_add_one h.hour.2⟩
  have hminute : (0 : ℚ) ≤ t.minute ∧ (t.minute : ℚ) ≤ 59 :=
    ⟨by exact_mod_cast h.minute.1, by exact_mod_cast Int.le_of_lt_add_one h.minute.2⟩
  have hsecond := h.second
  unfold secondOfDay
  constructor <;> linarith

/-- The time of day is in line by hours, minutes and seconds. -/
theorem IsValid.secondOfDay_lt_iff (h : t.IsValid) (h' : t'.IsValid) : t.secondOfDay < t'.secondOfDay ↔
    t.hour < t'.hour ∨
      t.hour = t'.hour ∧ (t.minute < t'.minute ∨ t.minute = t'.minute ∧ t.second < t'.second) := by
  have hparts (t : TimeOf ℚ) : t.secondOfDay = 60 * (60 * t.hour + t.minute : ℤ) + t.second := by
    unfold secondOfDay
    push_cast
    ring
  have hminute := h.minute
  have hminute' := h'.minute
  rw [hparts, hparts, lt_iff_of_parts h.second h'.second]
  by_cases hsecond : t.second < t'.second
  · simp only [hsecond, and_true]
    omega
  · simp only [hsecond, and_false, or_false]
    omega

/-- Points in time are in line by their dates, and on a day by the time of day. -/
theorem place_lt_iff : t.place < t'.place ↔ t.date.place < t'.date.place ∨ t.date = t'.date ∧
    (t.hour < t'.hour ∨
      t.hour = t'.hour ∧ (t.minute < t'.minute ∨ t.minute = t'.minute ∧ t.second < t'.second)) := by
  simp only [place, date, Date.place, Date.mk.injEq, Prod.Lex.toLex_lt_toLex]
  grind

end TimeOf

/-- Points in time are in line as their day numbers are. -/
theorem TimeOf.IsValid.dayNumber_lt_iff {t t' : TimeOf ℚ} (h : t.IsValid) (h' : t'.IsValid)
    (hstyle : t.calendar = t'.calendar) {x x' : ℚ} (hx : t.dayNumber = .ok x) (hx' : t'.dayNumber = .ok x') :
    x < x' ↔ t.place < t'.place := by
  have hpart (t : TimeOf ℚ) (h : t.IsValid) : 0 ≤ t.secondOfDay / 86400 ∧ t.secondOfDay / 86400 < 1 := by
    have hbounds := h.secondOfDay_bounds
    constructor <;> linarith
  have hdate' : t'.date.IsOf t.calendar := hstyle ▸ h'.date
  rw [dayNumber_eq, Except.ok.injEq] at hx hx'
  have hcompare := lt_iff_of_parts (a := t.calendar.dayCount t.date) (b := t.calendar.dayCount t'.date)
    (hpart t h) (hpart t' h')
  rw [one_mul, one_mul, Style.dayCount_lt_iff h.date hdate', Style.dayCount_inj h.date hdate',
    div_lt_div_iff_of_pos_right (by norm_num), h.secondOfDay_lt_iff h', ← place_lt_iff] at hcompare
  rw [← hcompare, ← hx, ← hx', ← hstyle]
  constructor <;> intro hlt <;> linarith

/-- Whether a comparator of ranges selects a value by a bound. -/
def selects {α : Type} [LinearOrder α] : Comparator → α → α → Prop
  | .less, value, bound => value < bound
  | .greater, value, bound => bound < value
  | .leq, value, bound => value ≤ bound
  | .geq, value, bound => bound ≤ value
  | _, _, _ => False

/-- What is in line in the same way is selected in the same way. -/
theorem selects_congr {α β : Type} [LinearOrder α] [LinearOrder β] {a a' : α} {b b' : β}
    (hlt : a < a' ↔ b < b') (hgt : a' < a ↔ b' < b) (c : Comparator) : selects c a a' ↔ selects c b b' := by
  cases c <;> simp only [selects, hlt, hgt, ← not_lt]

/-- Points in time are in line as their day numbers are, and from the first instant of a day to that of the
next it is one. So the comparators of ranges select by the day numbers what they select by the calendar. -/
theorem TimeOf.IsValid.dayNumber_order {t t' : TimeOf ℚ} (h : t.IsValid) (h' : t'.IsValid)
    (hstyle : t.calendar = t'.calendar) : ∃ x x' : ℚ, t.dayNumber = .ok x ∧ t'.dayNumber = .ok x' ∧
      (t.place < t'.place ↔ x < x') ∧
      (t.IsFirst → t'.IsFirst → (t.calendar.Precedes t.date t'.date ↔ x' - x = 1)) ∧
      ∀ c : Comparator, selects c x x' ↔ selects c t.place t'.place := by
  have hlt := h.dayNumber_lt_iff h' hstyle (dayNumber_eq t) (dayNumber_eq t')
  have hgt := h'.dayNumber_lt_iff h hstyle.symm (dayNumber_eq t') (dayNumber_eq t)
  refine ⟨_, _, dayNumber_eq t, dayNumber_eq t', hlt.symm, fun hfirst hfirst' => ?_, selects_congr hlt hgt⟩
  rw [Style.precedes_iff h.date (hstyle ▸ h'.date), hfirst.secondOfDay_eq, hfirst'.secondOfDay_eq, ← hstyle,
    ← @Int.cast_inj ℚ, Int.cast_add, Int.cast_one]
  constructor <;> intro heq <;> linarith

/-- The last of February of year 0 and the first of March. -/
theorem TimeOf.IsValid.dayNumber_order_leapDay :
    (⟨0, 2, 29, 0, 0, 0, .gregorian⟩ : TimeOf ℚ).IsValid ∧ (⟨0, 3, 1, 0, 0, 0, .gregorian⟩ : TimeOf ℚ).IsValid ∧
      ∃ x x' : ℚ, (⟨0, 2, 29, 0, 0, 0, .gregorian⟩ : TimeOf ℚ).dayNumber = .ok x ∧
        (⟨0, 3, 1, 0, 0, 0, .gregorian⟩ : TimeOf ℚ).dayNumber = .ok x' ∧ x < x' := by
  have hfirst : (⟨0, 2, 29, 0, 0, 0, .gregorian⟩ : TimeOf ℚ).IsValid :=
    ⟨⟨by decide, by decide, by decide, by decide⟩, by decide, by decide, by decide +kernel⟩
  have hsecond : (⟨0, 3, 1, 0, 0, 0, .gregorian⟩ : TimeOf ℚ).IsValid :=
    ⟨⟨by decide, by decide, by decide, by decide⟩, by decide, by decide, by decide +kernel⟩
  obtain ⟨x, x', hx, hx', horder, -⟩ := hfirst.dayNumber_order hsecond rfl
  exact ⟨hfirst, hsecond, x, x', hx, hx', horder.mp (by decide +kernel)⟩

end FactIndex.Calendar

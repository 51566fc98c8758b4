import FactIndex.Calendar.Time
import Mathlib.Algebra.Order.Group.Int
import Mathlib.Data.Prod.Lex
import Mathlib.Order.SuccPred.IntervalSucc
import Mathlib.Tactic.IntervalCases
import Mathlib.Tactic.Ring

/-!
# Counting days

The days of a calendar are in line, and each has a number in that line. The number of a date comes out of
quotients of whole numbers, and the date of a number out of quotients as well.

The number of a date grows by one from day to day. Months are numbered through for this, so that the end of
a year is no other than the end of a month.

## Main definitions

* `Style.IsLeap`, `Style.monthLength`: the rules of the two calendars.
* `Date`, `Date.IsOf`: a date, and whether a calendar has it.
* `Style.dayCount`, `dateOf`: the number of a date, and the date of a number.
* `Style.dayCount_lt_iff`, `Style.precedes_iff`: dates are in line as their numbers are.
* `isOf_dateOf`, `dayCount_dateOf`: every number is that of its date.
-/

namespace FactIndex.Calendar

/-! ## The two calendars -/

/-- A day of a month of a year. -/
structure Date where
  year : ℤ
  month : ℤ
  day : ℤ
deriving DecidableEq

namespace Style

/-- Every fourth year is a leap year. In the Gregorian calendar a year that ends a century is one only if
it ends the fourth. -/
def IsLeap (s : Style) (year : ℤ) : Prop :=
  year % 4 = 0 ∧ (s = .gregorian → year % 100 = 0 → year % 400 = 0)

instance (s : Style) (year : ℤ) : Decidable (s.IsLeap year) :=
  inferInstanceAs (Decidable (_ ∧ _))

/-- The number of days in a month. -/
def monthLength (s : Style) (year month : ℤ) : ℤ :=
  if month = 2 then if s.IsLeap year then 29 else 28
  else if month = 4 ∨ month = 6 ∨ month = 9 ∨ month = 11 then 30
  else 31

theorem monthLength_pos (s : Style) (year month : ℤ) : 1 ≤ s.monthLength year month := by
  unfold monthLength
  split_ifs <;> omega

/-- What the calendars differ by up to a year. -/
def shift (s : Style) (year : ℤ) : ℤ :=
  match s with
  | .gregorian => 2 - year / 100 + year / 100 / 4
  | .julian => 0

/-- The number of a month that starts the year in March, in a year that does. -/
def marchCount (s : Style) (year month day : ℤ) : ℤ :=
  1461 * (year + 4716) / 4 + 306001 * (month + 1) / 10000 + day + s.shift year - 1524

/-- The number of a date. January and February count as months of the year before. -/
def dayCount (s : Style) (d : Date) : ℤ :=
  if d.month ≤ 2 then s.marchCount (d.year - 1) (d.month + 12) d.day
  else s.marchCount d.year d.month d.day

end Style

namespace Date

/-- A calendar has the date. -/
structure IsOf (s : Style) (d : Date) : Prop where
  one_le_month : 1 ≤ d.month
  month_le : d.month ≤ 12
  one_le_day : 1 ≤ d.day
  day_le : d.day ≤ s.monthLength d.year d.month

/-- Where the date stands: years come before months, and months before days. -/
def place (d : Date) : ℤ ×ₗ ℤ ×ₗ ℤ := toLex (d.year, toLex (d.month, d.day))

/-- The month of the date, if months are numbered through. January of year 0 is number 0. -/
def monthIndex (d : Date) : ℤ := 12 * d.year + d.month - 1

/-- The first day of a month. -/
def firstOf (k : ℤ) : Date := ⟨k / 12, k % 12 + 1, 1⟩

/-- The day after. -/
def next (s : Style) (d : Date) : Date :=
  if d.day < s.monthLength d.year d.month then { d with day := d.day + 1 } else firstOf (d.monthIndex + 1)

theorem place_injective : Function.Injective place := by
  rintro ⟨y, m, d⟩ ⟨y', m', d'⟩ h
  simpa [place] using h

variable {s : Style} {d e : Date}

theorem IsOf.firstOf_monthIndex (h : d.IsOf s) : firstOf d.monthIndex = { d with day := 1 } := by
  obtain ⟨y, m, a⟩ := d
  obtain ⟨hmonth, hmonth', -, -⟩ := h
  simp only [firstOf, monthIndex, Date.mk.injEq, and_true] at hmonth hmonth' ⊢
  omega

theorem isOf_firstOf (s : Style) (k : ℤ) : (firstOf k).IsOf s where
  one_le_month := by simp only [firstOf]; omega
  month_le := by simp only [firstOf]; omega
  one_le_day := le_rfl
  day_le := s.monthLength_pos _ _

/-- Dates are in line by their months, and in a month by their days. -/
theorem IsOf.place_lt_iff (hd : d.IsOf s) (he : e.IsOf s) : d.place < e.place ↔
    d.monthIndex < e.monthIndex ∨ d.monthIndex = e.monthIndex ∧ d.day < e.day := by
  have hd₁ := hd.one_le_month
  have hd₂ := hd.month_le
  have he₁ := he.one_le_month
  have he₂ := he.month_le
  simp only [place, monthIndex, Prod.Lex.toLex_lt_toLex]
  omega

/-- The day after is a day of the calendar. -/
theorem IsOf.next (h : d.IsOf s) : (d.next s).IsOf s := by
  unfold Date.next
  split
  · rename_i hday
    exact ⟨h.one_le_month, h.month_le, h.one_le_day.trans (by dsimp only; omega), hday⟩
  · exact isOf_firstOf s _

end Date

/-! ## From day to day -/

namespace Style

variable {s : Style} {d e : Date}

open Date

/-- The days of a month are numbered from its first day on. -/
theorem dayCount_eq_first (hd : d.IsOf s) :
    s.dayCount d = s.dayCount (firstOf d.monthIndex) + (d.day - 1) := by
  rw [hd.firstOf_monthIndex]
  unfold dayCount marchCount
  dsimp only
  split <;> omega

/-- A year that starts in March has a day more if it ends in a leap year. -/
theorem marchCount_succ (s : Style) (year month day : ℤ) : s.marchCount (year + 1) month day =
    s.marchCount year month day + if s.IsLeap (year + 1) then 366 else 365 := by
  obtain ⟨w, v, hyear, hv, hv'⟩ : ∃ w v : ℤ, year = 4 * w + v ∧ 0 ≤ v ∧ v < 4 :=
    ⟨year / 4, year % 4, by omega, by omega, by omega⟩
  have hquarter : 1461 * (year + 1 + 4716) / 4 = 1461 * (year + 4716) / 4 + if v = 3 then 366 else 365 := by
    split <;> omega
  unfold marchCount
  rw [hquarter]
  cases s with
  | julian =>
      have hleap : Style.julian.IsLeap (year + 1) ↔ v = 3 := by
        unfold IsLeap
        simp only [reduceCtorEq, false_imp_iff, and_true]
        omega
      simp only [hleap, shift]
      ring
  | gregorian =>
      obtain ⟨c, r, hcentury, hr, hr'⟩ : ∃ c r : ℤ, year = 100 * c + r ∧ 0 ≤ r ∧ r < 100 :=
        ⟨year / 100, year % 100, by omega, by omega, by omega⟩
      have hdiv : year / 100 = c := by omega
      have hnext : (year + 1) / 100 = if r = 99 then c + 1 else c := by split <;> omega
      have hleap : Style.gregorian.IsLeap (year + 1) ↔ v = 3 ∧ (r = 99 → c % 4 = 3) := by
        unfold IsLeap
        simp only [true_imp_iff]
        omega
      simp only [hleap, shift, hdiv, hnext]
      by_cases hend : r = 99
      · simp only [hend, if_true, true_imp_iff]
        split_ifs <;> omega
      · simp only [hend, if_false, false_imp_iff, and_true]
        ring

/-- A month is followed by the next after as many days as it has. -/
theorem dayCount_firstOf_succ (s : Style) (k : ℤ) : s.dayCount (firstOf (k + 1)) =
    s.dayCount (firstOf k) + s.monthLength (firstOf k).year (firstOf k).month := by
  obtain ⟨y, m, hk, hm, hm'⟩ : ∃ y m : ℤ, k = 12 * y + m ∧ 0 ≤ m ∧ m < 12 :=
    ⟨k / 12, k % 12, by omega, by omega, by omega⟩
  have hyear : k / 12 = y := by omega
  have hmonth : k % 12 = m := by omega
  have hnext : (k + 1) / 12 = if m = 11 then y + 1 else y := by split <;> omega
  have hnext' : (k + 1) % 12 = if m = 11 then 0 else m + 1 := by split <;> omega
  unfold firstOf dayCount monthLength
  dsimp only
  rw [hyear, hmonth, hnext, hnext']
  by_cases hlast : m = 1
  · -- the end of February is the end of a year that starts in March
    have hend := s.marchCount_succ (y - 1) 3 1
    rw [sub_add_cancel] at hend
    subst hlast
    norm_num
    rw [hend]
    unfold marchCount
    split_ifs <;> omega
  · clear hk hyear hmonth hnext hnext'
    unfold marchCount
    interval_cases m <;> first | exact absurd rfl hlast | norm_num; ring

/-- Months come one after the other. -/
theorem dayCount_firstOf_le (s : Style) {k l : ℤ} (h : k ≤ l) :
    s.dayCount (firstOf k) ≤ s.dayCount (firstOf l) := by
  have hmonotone : Monotone fun k => s.dayCount (firstOf k) := monotone_int_of_le_succ fun k => by
    have hlength := s.monthLength_pos (firstOf k).year (firstOf k).month
    rw [dayCount_firstOf_succ]
    omega
  exact hmonotone h

/-- The day after a day has the next number. -/
theorem dayCount_next (hd : d.IsOf s) : s.dayCount (d.next s) = s.dayCount d + 1 := by
  unfold Date.next
  split
  · unfold dayCount marchCount
    dsimp only
    split <;> ring
  · have hday := hd.day_le
    rw [dayCount_firstOf_succ, dayCount_eq_first hd, hd.firstOf_monthIndex]
    dsimp only
    omega

/-- Dates are in line as their numbers are. -/
theorem dayCount_lt_of_place_lt (hd : d.IsOf s) (he : e.IsOf s) (h : d.place < e.place) :
    s.dayCount d < s.dayCount e := by
  rw [dayCount_eq_first hd, dayCount_eq_first he]
  rcases (hd.place_lt_iff he).mp h with hmonth | ⟨hmonth, hday⟩
  · have hnext : s.dayCount (firstOf (d.monthIndex + 1)) ≤ s.dayCount (firstOf e.monthIndex) :=
      s.dayCount_firstOf_le hmonth
    have hday := hd.day_le
    have hfirst := he.one_le_day
    rw [dayCount_firstOf_succ, hd.firstOf_monthIndex] at hnext
    rw [hd.firstOf_monthIndex]
    dsimp only at hnext
    omega
  · rw [hmonth]
    omega

theorem dayCount_lt_iff (hd : d.IsOf s) (he : e.IsOf s) :
    s.dayCount d < s.dayCount e ↔ d.place < e.place := by
  refine ⟨fun h => ?_, dayCount_lt_of_place_lt hd he⟩
  rcases lt_trichotomy d.place e.place with hlt | heq | hgt
  · exact hlt
  · rw [Date.place_injective heq] at h
    exact absurd h (lt_irrefl _)
  · exact absurd h (dayCount_lt_of_place_lt he hd hgt).not_gt

theorem dayCount_inj (hd : d.IsOf s) (he : e.IsOf s) : s.dayCount d = s.dayCount e ↔ d = e := by
  refine ⟨fun h => Date.place_injective ?_, congrArg s.dayCount⟩
  rcases lt_trichotomy d.place e.place with hlt | heq | hgt
  · exact absurd h (dayCount_lt_of_place_lt hd he hlt).ne
  · exact heq
  · exact absurd h (dayCount_lt_of_place_lt he hd hgt).ne'

/-- One day comes after the other, with none of the calendar between them. -/
def Precedes (s : Style) (d e : Date) : Prop :=
  d.place < e.place ∧ ∀ f : Date, f.IsOf s → ¬(d.place < f.place ∧ f.place < e.place)

/-- One day comes right after the other if its number does. -/
theorem precedes_iff (hd : d.IsOf s) (he : e.IsOf s) :
    s.Precedes d e ↔ s.dayCount e = s.dayCount d + 1 := by
  unfold Precedes
  rw [← dayCount_lt_iff hd he]
  constructor
  · rintro ⟨hlt, hnone⟩
    have hnext := hnone (d.next s) hd.next
    rw [← dayCount_lt_iff hd hd.next, ← dayCount_lt_iff hd.next he, dayCount_next hd] at hnext
    omega
  · refine fun h => ⟨by omega, fun f hf => ?_⟩
    rw [← dayCount_lt_iff hd hf, ← dayCount_lt_iff hf he]
    omega

end Style

/-! ## The date of a number -/

/-- The calendar of a day. -/
def styleOf (count : ℤ) : Style := if 2299161 ≤ count then .gregorian else .julian

/-- A day is counted on by the days that its calendar has left out up to its century. -/
def shifted (count : ℤ) : ℤ :=
  match styleOf count with
  | .gregorian =>
    let century := (4 * count - 7468865) / 146097
    count + 1 + century - century / 4
  | .julian => count

/-- The year of a day in a calendar without exceptions, counted from March on. -/
def marchYear (b : ℤ) : ℤ := (20 * b - 2442) / 7305

/-- The days that have passed before such a year. -/
def beforeYear (c : ℤ) : ℤ := 1461 * c / 4

/-- The month of a day of such a year. -/
def marchMonth (n : ℤ) : ℤ := 10000 * n / 306001

/-- The days that have passed before such a month. -/
def beforeMonth (e : ℤ) : ℤ := 306001 * e / 10000

/-- The date with a day and a month, the fourth of which is March, of a year that starts in March. -/
def ofMarch (c e day : ℤ) : Date :=
  let month := if e < 14 then e - 1 else e - 13
  ⟨if 2 < month then c - 4716 else c - 4715, month, day⟩

/-- The date of a number. -/
def dateOf (count : ℤ) : Date :=
  let b := shifted count + 1524
  let n := b - beforeYear (marchYear b)
  ofMarch (marchYear b) (marchMonth n) (n - beforeMonth (marchMonth n))

/-- The days of a year that starts in March. The last one is there only in a leap year. -/
theorem marchYear_bounds (b : ℤ) : 123 ≤ b - beforeYear (marchYear b) ∧ b - beforeYear (marchYear b) ≤ 488 ∧
    (b - beforeYear (marchYear b) = 488 → marchYear b % 4 = 3) := by
  unfold beforeYear marchYear
  omega

/-- The days of a month are those from its first to its last. -/
theorem marchMonth_bounds {n : ℤ} (hn : 123 ≤ n) (hn' : n ≤ 488) :
    4 ≤ marchMonth n ∧ marchMonth n ≤ 15 ∧ 1 ≤ n - beforeMonth (marchMonth n) ∧
      n ≤ beforeMonth (marchMonth n + 1) := by
  unfold beforeMonth marchMonth
  omega

/-- The century of a day is that of its year, if the year starts in March. -/
theorem century_marchYear (count century : ℤ) (h : (4 * count - 7468865) / 146097 = century) :
    (marchYear (count + 1 + century - century / 4 + 1524) - 4716) / 100 = century + 4 := by
  unfold marchYear
  omega

/-- What was added to the number of a day is what its calendar has left out. -/
theorem shifted_add_shift (count : ℤ) :
    shifted count + (styleOf count).shift (marchYear (shifted count + 1524) - 4716) = count := by
  unfold shifted Style.shift
  cases styleOf count with
  | gregorian =>
      dsimp only
      rw [century_marchYear count _ rfl]
      omega
  | julian => exact add_zero count

/-- The last of February is there only in a leap year. -/
theorem isLeap_of_last (count : ℤ) (hlast : shifted count + 1524 -
      beforeYear (marchYear (shifted count + 1524)) = 488) :
    (styleOf count).IsLeap (marchYear (shifted count + 1524) - 4715) := by
  have hquarter := (marchYear_bounds _).2.2 hlast
  refine ⟨by omega, fun hstyle hcentury => ?_⟩
  have hshift : shifted count = count + 1 + (4 * count - 7468865) / 146097 -
      (4 * count - 7468865) / 146097 / 4 := by
    unfold shifted
    rw [hstyle]
  have hyear := century_marchYear count _ rfl
  rw [← hshift] at hyear
  unfold beforeYear at hlast
  omega

section

variable {s : Style} {c e day : ℤ}

theorem dayCount_ofMarch (he : 4 ≤ e) (he' : e ≤ 15) :
    s.dayCount (ofMarch c e day) = s.marchCount (c - 4716) (e - 1) day := by
  unfold Style.dayCount ofMarch
  dsimp only
  by_cases hnew : e < 14
  · rw [if_pos hnew, if_neg (show ¬e - 1 ≤ 2 by omega), if_pos (show 2 < e - 1 by omega)]
  · rw [if_neg hnew, if_pos (show e - 13 ≤ 2 by omega), if_neg (show ¬2 < e - 13 by omega),
      show c - 4715 - 1 = c - 4716 by ring, show e - 13 + 12 = e - 1 by ring]

/-- A day of a month is a day of the calendar. The last month has its last day only in a leap year. -/
theorem isOf_ofMarch (he : 4 ≤ e) (he' : e ≤ 15) (hday : 1 ≤ day)
    (hday' : day ≤ beforeMonth (e + 1) - beforeMonth e) (hlast : e = 15 → day ≤ 29)
    (hleap : e = 15 → day = 29 → s.IsLeap (c - 4715)) : (ofMarch c e day).IsOf s := by
  have hlength : day ≤ s.monthLength (ofMarch c e day).year (ofMarch c e day).month := by
    unfold beforeMonth at hday'
    unfold ofMarch Style.monthLength
    dsimp only
    by_cases hmonth : e = 15
    · have hmost := hlast hmonth
      have hlong := hleap hmonth
      subst hmonth
      norm_num
      split_ifs with hyear
      · exact hmost
      · have hshort : day ≠ 29 := fun heq => hyear (hlong heq)
        omega
    · interval_cases e <;> first | exact absurd rfl hmonth | norm_num at hday' ⊢; omega
  refine ⟨?_, ?_, hday, hlength⟩ <;> unfold ofMarch <;> dsimp only <;> split <;> omega

end

variable (count : ℤ)

/-- The number of the date of a number is that number. -/
theorem dayCount_dateOf : (styleOf count).dayCount (dateOf count) = count := by
  obtain ⟨hfirst, hlast, -⟩ := marchYear_bounds (shifted count + 1524)
  obtain ⟨hmonth, hmonth', -, -⟩ := marchMonth_bounds hfirst hlast
  have hshift := shifted_add_shift count
  unfold dateOf
  dsimp only
  rw [dayCount_ofMarch hmonth hmonth']
  unfold Style.marchCount
  rw [sub_add_cancel, sub_add_cancel]
  unfold beforeYear beforeMonth
  omega

/-- The date of a number is a date of its calendar. -/
theorem isOf_dateOf : (dateOf count).IsOf (styleOf count) := by
  obtain ⟨hfirst, hlast, -⟩ := marchYear_bounds (shifted count + 1524)
  obtain ⟨hmonth, hmonth', hday, hday'⟩ := marchMonth_bounds hfirst hlast
  have hleap := isLeap_of_last count
  unfold dateOf
  dsimp only
  generalize shifted count + 1524 - beforeYear (marchYear (shifted count + 1524)) = n at *
  have hfebruary : beforeMonth 15 = 459 := by decide
  refine isOf_ofMarch hmonth hmonth' hday (by omega) (fun he => ?_) fun he hlong => hleap ?_
  · rw [he] at hday' ⊢
    omega
  · rw [he] at hlong
    omega

end FactIndex.Calendar

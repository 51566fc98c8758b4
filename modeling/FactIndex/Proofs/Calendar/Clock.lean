import FactIndex.Proofs.Calendar.Exact

/-!
# Clock times

The seconds of a day are rounded to three decimals after the day has been taken off. Up to the last half
of a millisecond of a day this gives a time that a clock shows. What comes after is rounded up to the end
of the day, and its time is given as the hour after the last, on the same date: the same instant, but not
as a clock shows it.

## Main definitions

* `thousandthOfRat_near`, `le_thousandthOfRat_iff`: a fraction rounded to three decimals.
* `TimeOf.ofDayNumber_isValid_iff`: which day numbers have a time that a clock shows.
-/

namespace FactIndex.Calendar

open FactIndex.Decimal

/-! ## Rounding -/

section

variable {num den : ℕ}

/-- The nearest whole number is off by a half at most, and where it is off by a half it is even. -/
theorem roundDiv_spec (num : ℕ) (hden : 0 < den) : 2 * num ≤ 2 * (den * roundDiv num den) + den ∧
    2 * (den * roundDiv num den) ≤ 2 * num + den ∧
      (2 * num = 2 * (den * roundDiv num den) + den → roundDiv num den % 2 = 0) := by
  have hsplit : den * (num / den) + num % den = num := Nat.div_add_mod num den
  have hrest : num % den < den := Nat.mod_lt num hden
  unfold roundDiv
  dsimp only
  split_ifs with hlow hhigh heven
  · omega
  · rw [Nat.mul_succ]
    omega
  · exact ⟨by omega, by omega, fun _ => beq_iff_eq.mp heven⟩
  · rw [Nat.mul_succ]
    omega

/-- The nearest whole number is at least an even one from half a unit below it on. -/
theorem le_roundDiv_iff (hden : 0 < den) {k : ℕ} (hk : k % 2 = 0) :
    k ≤ roundDiv num den ↔ 2 * (den * k) ≤ 2 * num + den := by
  obtain ⟨hlow, hhigh, htie⟩ := roundDiv_spec num hden
  refine ⟨fun h => (Nat.mul_le_mul_left 2 (Nat.mul_le_mul_left den h)).trans hhigh, fun h => ?_⟩
  by_contra hless
  obtain ⟨j, hj⟩ : ∃ j, k = roundDiv num den + 1 + j := ⟨k - (roundDiv num den + 1), by omega⟩
  rw [hj, Nat.mul_add, Nat.mul_succ] at h
  rcases Nat.eq_zero_or_pos j with rfl | hpos
  · have heven := htie (by omega)
    omega
  · have hmore : den ≤ den * j := Nat.le_mul_of_pos_right den hpos
    omega

end

section

variable {x : ℚ}

/-- A fraction that is not negative, in thousandths. -/
theorem thousandthOfRat_eq (hx : 0 ≤ x) :
    thousandthOfRat x = (roundDiv (x.num.toNat * 1000) x.den : ℚ) / 1000 := by
  unfold thousandthOfRat
  have hnum : x.num.natAbs = x.num.toNat := by
    have hnonneg := Rat.num_nonneg.mpr hx
    omega
  rw [if_neg hx.not_gt, hnum]

theorem num_eq_mul_den (hx : 0 ≤ x) : (x.num.toNat : ℚ) = x * x.den := by
  have hnum : ((x.num.toNat : ℤ) : ℚ) = x.num := by
    exact_mod_cast Int.toNat_of_nonneg (Rat.num_nonneg.mpr hx)
  rw [← Rat.mul_den_eq_num x] at hnum
  exact_mod_cast hnum

/-- Rounding moves a fraction by half a thousandth at most. -/
theorem thousandthOfRat_near (hx : 0 ≤ x) : |thousandthOfRat x - x| ≤ 1 / 2000 := by
  have hden : (0 : ℚ) < x.den := by exact_mod_cast x.den_pos
  obtain ⟨hlow, hhigh, -⟩ := roundDiv_spec (x.num.toNat * 1000) x.den_pos
  have hlow : 2 * ((x.num.toNat : ℚ) * 1000) ≤ 2 * (x.den * roundDiv (x.num.toNat * 1000) x.den) + x.den := by
    exact_mod_cast hlow
  have hhigh : 2 * ((x.den : ℚ) * roundDiv (x.num.toNat * 1000) x.den) ≤ 2 * (x.num.toNat * 1000) + x.den := by
    exact_mod_cast hhigh
  rw [num_eq_mul_den hx] at hlow hhigh
  rw [thousandthOfRat_eq hx, abs_le]
  generalize (roundDiv (x.num.toNat * 1000) x.den : ℚ) = r at *
  constructor
  · refine le_of_mul_le_mul_left ?_ hden
    linarith
  · refine le_of_mul_le_mul_left ?_ hden
    linarith

/-- Where rounding comes to an even number of thousandths. -/
theorem le_thousandthOfRat_iff (hx : 0 ≤ x) {k : ℕ} (hk : k % 2 = 0) :
    (k : ℚ) / 1000 ≤ thousandthOfRat x ↔ (k : ℚ) / 1000 ≤ x + 1 / 2000 := by
  have hden : (0 : ℚ) < x.den := by exact_mod_cast x.den_pos
  rw [thousandthOfRat_eq hx, div_le_div_iff_of_pos_right (by norm_num), Nat.cast_le,
    le_roundDiv_iff x.den_pos hk, ← @Nat.cast_le ℚ]
  push_cast
  rw [num_eq_mul_den hx]
  constructor <;> intro h
  · refine le_of_mul_le_mul_left ?_ hden
    linarith
  · have hscaled := mul_le_mul_of_nonneg_left h hden.le
    linarith

theorem thousandthOfRat_nonneg (hx : 0 ≤ x) : 0 ≤ thousandthOfRat x := by
  rw [thousandthOfRat_eq hx]
  positivity

end

/-! ## The seconds of a day -/

variable (x : ℚ)

theorem secondsAt_bounds : 0 ≤ secondsAt x ∧ secondsAt x ≤ 86400 := by
  have hnonneg := Int.fract_nonneg (x + 1 / 2)
  have hlt := Int.fract_lt_one (x + 1 / 2)
  have hsize : 0 ≤ Int.fract (x + 1 / 2) * 86400 := by positivity
  refine ⟨thousandthOfRat_nonneg hsize, ?_⟩
  have hnear := (abs_le.mp (thousandthOfRat_near hsize)).2
  unfold secondsAt
  rw [thousandthOfRat_eq hsize] at hnear ⊢
  generalize roundDiv _ _ = r at hnear ⊢
  have hless : (r : ℚ) < (86400001 : ℕ) := by
    push_cast
    linarith
  have hmost : (r : ℚ) ≤ (86400000 : ℕ) := by exact_mod_cast Nat.le_of_lt_succ (Nat.cast_lt.mp hless)
  push_cast at hmost
  linarith

/-- The day is taken for over from half a millisecond before its end on. -/
theorem secondsAt_lt_iff : secondsAt x < 86400 ↔ Int.fract (x + 1 / 2) < 1 - 1 / 172800000 := by
  have hnonneg : 0 ≤ Int.fract (x + 1 / 2) * 86400 := mul_nonneg (Int.fract_nonneg _) (by norm_num)
  have hend := le_thousandthOfRat_iff hnonneg (k := 86400000) (by norm_num)
  have hday : ((86400000 : ℕ) : ℚ) / 1000 = 86400 := by norm_num
  rw [hday] at hend
  unfold secondsAt
  rw [← not_le, ← not_le, hend, not_iff_not]
  constructor <;> intro h <;> linarith

/-- The instant that is meant is off by half a millisecond at most. -/
theorem secondsAt_near : |secondsAt x / 86400 - Int.fract (x + 1 / 2)| * 86400000 ≤ 1 / 2 := by
  have hnear := thousandthOfRat_near (mul_nonneg (Int.fract_nonneg (x + 1 / 2)) (by norm_num : (0 : ℚ) ≤ 86400))
  have hscale : secondsAt x / 86400 - Int.fract (x + 1 / 2) =
      (secondsAt x - Int.fract (x + 1 / 2) * 86400) / 86400 := by ring
  unfold secondsAt at hscale ⊢
  rw [hscale, abs_div, abs_of_pos (by norm_num : (0 : ℚ) < 86400)]
  linarith

/-- Every day number has a date of its calendar, and with the time of day this is the instant of the day
number, but for half a millisecond. The time is one that a clock shows if the day is not taken for over;
else it is the end of the day, as its 25th hour. -/
theorem TimeOf.ofDayNumber_isValid_iff (x : ℚ) : ∃ (t : TimeOf ℚ) (y : ℚ), TimeOf.ofDayNumber x = .ok t ∧
    t.dayNumber = .ok y ∧ |y - x| * 86400000 ≤ 1 / 2 ∧ t.date.IsOf t.calendar ∧
      (t.IsValid ↔ Int.fract (x + 1 / 2) < 1 - 1 / 172800000) ∧
      (¬t.IsValid → t.hour = 24 ∧ t.minute = 0 ∧ t.second = 0) := by
  have hdate : (timeAt x).date.IsOf (timeAt x).calendar := isOf_dateOf (dayAt x)
  have hcount : (timeAt x).calendar.dayCount (timeAt x).date = dayAt x := dayCount_dateOf (dayAt x)
  have hseconds : (timeAt x).secondOfDay = secondsAt x := secondOfDay_timeOf _ _ _
  obtain ⟨hnonneg, hmost⟩ := secondsAt_bounds x
  obtain ⟨hhour, hminute, hsecond⟩ := clock_timeOf (styleOf (dayAt x)) (dateOf (dayAt x)) hnonneg
  have hlast : (timeAt x).hour < 24 ↔ Int.fract (x + 1 / 2) < 1 - 1 / 172800000 := by
    rw [← secondsAt_lt_iff, show (86400 : ℚ) = 24 * 3600 by norm_num, ← div_lt_iff₀ (by norm_num)]
    exact Int.floor_lt
  have hvalid : (timeAt x).IsValid ↔ Int.fract (x + 1 / 2) < 1 - 1 / 172800000 :=
    ⟨fun h => hlast.mp h.hour.2, fun h => ⟨hdate, ⟨hhour, hlast.mpr h⟩, hminute, hsecond⟩⟩
  refine ⟨_, _, ofDayNumber_eq x, dayNumber_eq _, ?_, hdate, hvalid, fun h => ?_⟩
  · have hinstant : (dayAt x : ℚ) - 1 / 2 + secondsAt x / 86400 - x =
        secondsAt x / 86400 - Int.fract (x + 1 / 2) := by
      rw [Int.fract, dayAt]
      ring
    rw [hcount, hseconds, hinstant]
    exact secondsAt_near x
  · rw [hvalid, ← secondsAt_lt_iff, not_lt] at h
    have hend : secondsAt x = 86400 := le_antisymm hmost h
    unfold timeAt
    rw [hend]
    unfold timeOf
    norm_num

end FactIndex.Calendar

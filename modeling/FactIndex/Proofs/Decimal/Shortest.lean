import FactIndex.Decimal.Shortest
import FactIndex.Proofs.Decimal.Scaled

/-!
# The shortest decimal reads back

The decimal that is found for a float lies in the interval of the float, and with seventeen digits one is
always found: the grid of decimals with so many digits is finer than the interval is wide.

## Main definitions

* `shortest_rounds`: the shortest decimal lies in the interval of the float.
* `scaled_of_value`: reading a decimal of its value gives the float.
-/

namespace FactIndex.Decimal

open Float.Model Float.Model.UnpackedFloat

variable {m : ℕ} {q : ℤ} {num den : ℕ} {lead : ℤ} {count : ℕ} {d : Scaled}

theorem zpow_ten_pos (e : ℤ) : (0 : ℚ) < 10 ^ e := zpow_pos (by norm_num) e

/-! ## The interval -/

/-- What the fields of an interval stand for. -/
structure Rounding.Stands (r : Rounding) (m : ℕ) (q : ℤ) : Prop where
  unit_pos : 0 < r.unit
  value : (r.value : ℚ) / r.unit = 4 * m * 2 ^ (q - 2)
  low : (r.low : ℚ) / r.unit = (4 * m - reach m q) * 2 ^ (q - 2)
  high : (r.high : ℚ) / r.unit = (4 * m + 2) * 2 ^ (q - 2)
  closed : r.closed = true ↔ m % 2 = 0

theorem Rounding.stands_around (hm : 0 < m) : (Rounding.around m q).Stands m q := by
  have hreach : (if (m == Nat.pow 2 52 && decide (q > -1074)) = true then 1 else 2) = reach m q := by
    have hboth : (m == Nat.pow 2 52 && decide (q > -1074)) = true ↔ m = 2 ^ 52 ∧ -1074 < q := by
      rw [Bool.and_eq_true, beq_iff_eq, decide_eq_true_iff]
      rfl
    unfold reach
    by_cases h : m = 2 ^ 52 ∧ -1074 < q
    · rw [if_pos (hboth.mpr h), if_pos h]
    · rw [if_neg (mt hboth.mp h), if_neg h]
  have hle : reach m q ≤ 4 * m := by
    unfold reach
    split <;> omega
  obtain ⟨scale, hscale⟩ : ∃ scale : ℕ, scale = if q < 2 then 1 else Nat.pow 2 (q - 2).toNat := ⟨_, rfl⟩
  obtain ⟨unit, hunit⟩ : ∃ unit : ℕ, unit = if q < 2 then Nat.pow 2 (2 - q).toNat else 1 := ⟨_, rfl⟩
  have hpos : 0 < unit ∧ (scale : ℚ) / unit = 2 ^ (q - 2) := by
    by_cases h : q < 2
    · have hexponent : q - 2 = -((2 - q).toNat : ℤ) := by omega
      rw [if_pos h] at hscale hunit
      subst hscale hunit
      refine ⟨Nat.pow_pos (by decide), ?_⟩
      rw [hexponent, zpow_neg, zpow_natCast, Nat.cast_one, one_div]
      exact congrArg _ (Nat.cast_pow 2 _)
    · have hexponent : q - 2 = ((q - 2).toNat : ℤ) := by omega
      rw [if_neg h] at hscale hunit
      subst hscale hunit
      refine ⟨Nat.one_pos, ?_⟩
      rw [Nat.cast_one, div_one]
      conv_rhs => rw [hexponent, zpow_natCast]
      exact Nat.cast_pow 2 _
  have hsub : ((4 * m - reach m q : ℕ) : ℚ) = 4 * m - reach m q := by
    rw [Nat.cast_sub hle]
    push_cast
    rfl
  have hr : Rounding.around m q =
      ⟨4 * m * scale, (4 * m - reach m q) * scale, (4 * m + 2) * scale, unit, m % 2 == 0⟩ := by
    unfold Rounding.around
    dsimp only
    rw [hreach, ← hscale, ← hunit]
  rw [hr]
  refine ⟨hpos.1, ?_, ?_, ?_, beq_iff_eq⟩
  · rw [Nat.cast_mul, mul_div_assoc, hpos.2]
    push_cast
    rfl
  · rw [Nat.cast_mul, mul_div_assoc, hpos.2, hsub]
  · rw [Nat.cast_mul, mul_div_assoc, hpos.2]
    push_cast
    rfl

/-- What lies in the interval. -/
theorem Rounding.Stands.rounds {r : Rounding} (h : r.Stands m q) (hden : 0 < den)
    (hholds : r.holds num den = true) : Rounds (num / den / r.unit) m q := by
  have hunit : (0 : ℚ) < r.unit := by exact_mod_cast h.unit_pos
  have hden : (0 : ℚ) < den := by exact_mod_cast hden
  unfold Rounding.holds at hholds
  by_cases hclosed : r.closed = true
  · rw [if_pos hclosed, Bool.and_eq_true, decide_eq_true_iff, decide_eq_true_iff] at hholds
    have hlow : (r.low : ℚ) * den ≤ num := by exact_mod_cast hholds.1
    have hhigh : (num : ℚ) ≤ r.high * den := by exact_mod_cast hholds.2
    refine ⟨?_, ?_, fun hodd => absurd (h.closed.mp hclosed) (by omega)⟩
    · rw [← h.low]
      exact div_le_div_of_nonneg_right ((le_div_iff₀ hden).mpr hlow) hunit.le
    · rw [← h.high]
      exact div_le_div_of_nonneg_right ((div_le_iff₀ hden).mpr hhigh) hunit.le
  · rw [if_neg hclosed, Bool.and_eq_true, decide_eq_true_iff, decide_eq_true_iff] at hholds
    have hlow : (r.low : ℚ) * den < num := by exact_mod_cast hholds.1
    have hhigh : (num : ℚ) < r.high * den := by exact_mod_cast hholds.2
    have hinside : (4 * m - reach m q) * 2 ^ (q - 2) < (num : ℚ) / den / r.unit ∧
        (num : ℚ) / den / r.unit < (4 * m + 2) * 2 ^ (q - 2) := by
      rw [← h.low, ← h.high]
      exact ⟨div_lt_div_of_pos_right ((lt_div_iff₀ hden).mpr hlow) hunit,
        div_lt_div_of_pos_right ((div_lt_iff₀ hden).mpr hhigh) hunit⟩
    exact ⟨hinside.1.le, hinside.2.le, fun _ => hinside⟩

/-- What lies well inside the interval. -/
theorem Rounding.Stands.holds {r : Rounding} (h : r.Stands m q) (hden : 0 < den)
    (hlow : (4 * m - reach m q) * 2 ^ (q - 2) < (num : ℚ) / den / r.unit)
    (hhigh : (num : ℚ) / den / r.unit < (4 * m + 2) * 2 ^ (q - 2)) : r.holds num den = true := by
  have hunit : (0 : ℚ) < r.unit := by exact_mod_cast h.unit_pos
  have hden : (0 : ℚ) < den := by exact_mod_cast hden
  rw [← h.low, div_lt_div_iff_of_pos_right hunit, lt_div_iff₀ hden] at hlow
  rw [← h.high, div_lt_div_iff_of_pos_right hunit, div_lt_iff₀ hden] at hhigh
  have hlow : r.low * den < num := by exact_mod_cast hlow
  have hhigh : num < r.high * den := by exact_mod_cast hhigh
  unfold Rounding.holds
  split <;> rw [Bool.and_eq_true, decide_eq_true_iff, decide_eq_true_iff] <;> omega

/-! ## Decimals of so many digits -/

/-- The grid of decimals with the exponent, in units of an interval. -/
structure IsGrid (unit : ℕ) (e : ℤ) (den step : ℕ) : Prop where
  den_pos : 0 < den
  step_pos : 0 < step
  size : (step : ℚ) / den / unit = 10 ^ e

theorem isGrid {unit : ℕ} (hunit : 0 < unit) (e : ℤ) : IsGrid unit e (if e < 0 then Nat.pow 10 (-e).toNat else 1)
    (if e < 0 then unit else unit * Nat.pow 10 e.toNat) := by
  have hcast (n : ℕ) : ((Nat.pow 10 n : ℕ) : ℚ) = 10 ^ n := Nat.cast_pow 10 n
  have hunit' : (unit : ℚ) ≠ 0 := by exact_mod_cast hunit.ne'
  by_cases h : e < 0
  · have hexponent : e = -((-e).toNat : ℤ) := by omega
    rw [if_pos h, if_pos h]
    refine ⟨Nat.pow_pos (by decide), hunit, ?_⟩
    conv_rhs => rw [hexponent, zpow_neg, zpow_natCast]
    rw [hcast]
    field_simp
  · have hexponent : e = (e.toNat : ℤ) := by omega
    rw [if_neg h, if_neg h]
    refine ⟨Nat.one_pos, Nat.mul_pos hunit (Nat.pow_pos (by decide)), ?_⟩
    conv_rhs => rw [hexponent, zpow_natCast]
    rw [Nat.cast_mul, hcast, Nat.cast_one]
    field_simp

theorem IsGrid.point {unit step : ℕ} {e : ℤ} (h : IsGrid unit e den step) (k : ℕ) :
    ((k * step : ℕ) : ℚ) / den / unit = k * 10 ^ e := by
  rw [← h.size]
  push_cast
  ring

theorem roundDiv_eq_or (num den : ℕ) : roundDiv num den = num / den ∨ roundDiv num den = num / den + 1 := by
  unfold roundDiv
  dsimp only
  split
  · exact .inl rfl
  · split
    · exact .inr rfl
    · split
      · exact .inl rfl
      · exact .inr rfl

/-- A decimal that is found lies in the interval. -/
theorem Rounding.Stands.decimal? {r : Rounding} (h : r.Stands m q) (hfound : r.decimal? lead count = some d) :
    Rounds (d.significand * 10 ^ d.exponent) m q := by
  have hgrid := isGrid h.unit_pos (lead - count + 1)
  unfold Rounding.decimal? at hfound
  dsimp only at hfound
  revert hfound hgrid
  generalize (if lead - count + 1 < 0 then Nat.pow 10 (-(lead - count + 1)).toNat else 1) = den
  generalize (if lead - count + 1 < 0 then r.unit else r.unit * Nat.pow 10 (lead - count + 1).toNat) = step
  intro hfound hgrid
  have hpoint (k : ℕ) (hfits : r.holds (k * step) den = true) : Rounds (k * 10 ^ (lead - count + 1)) m q :=
    hgrid.point k ▸ h.rounds hgrid.den_pos hfits
  by_cases hlow : r.holds (r.value * den / step * step) den = true <;>
    by_cases hhigh : r.holds ((r.value * den / step + 1) * step) den = true <;>
    simp only [hlow, hhigh, Bool.and_self, Bool.and_true, Bool.and_false, if_true, if_false,
      Bool.false_eq_true, Option.some.injEq, reduceCtorEq] at hfound
  · subst hfound
    rcases roundDiv_eq_or (r.value * den) step with heq | heq <;> rw [heq]
    · exact hpoint _ hlow
    · exact hpoint _ hhigh
  · subst hfound
    exact hpoint _ hlow
  · subst hfound
    exact hpoint _ hhigh

/-- A grid that is finer than sixteen digits is finer than the interval is wide. -/
theorem fine (hc : IsCanonical m q) {step : ℚ} (h : step * 10 ^ 16 ≤ 4 * m * 2 ^ (q - 2)) :
    step < (2 + reach m q) * 2 ^ (q - 2) := by
  have hpos := zpow_two_pos (q - 2)
  have hlt : (m : ℚ) < 2 ^ 53 := by exact_mod_cast hc.lt
  unfold reach
  split
  · rename_i hpower
    rw [hpower.1] at h
    push_cast at h ⊢
    linarith
  · push_cast
    nlinarith

/-- With seventeen digits one of the two neighbours on the grid lies in the interval. -/
theorem Rounding.Stands.exists_decimal? {r : Rounding} (h : r.Stands m q) (hc : IsCanonical m q)
    (hlead : 10 ^ lead ≤ (r.value : ℚ) / r.unit) : ∃ d, r.decimal? lead 17 = some d := by
  have hgrid := isGrid h.unit_pos (lead - (17 : ℕ) + 1)
  unfold Rounding.decimal?
  dsimp only
  revert hgrid
  generalize (if lead - (17 : ℕ) + 1 < 0 then Nat.pow 10 (-(lead - (17 : ℕ) + 1)).toNat else 1) = den
  generalize (if lead - (17 : ℕ) + 1 < 0 then r.unit else r.unit * Nat.pow 10 (lead - (17 : ℕ) + 1).toNat) = step
  intro hgrid
  obtain ⟨below, hbelow⟩ : ∃ below, below = r.value * den / step := ⟨_, rfl⟩
  rw [← hbelow]
  by_cases hlow : r.holds (below * step) den = true
  · cases hhigh : r.holds ((below + 1) * step) den <;> simp [hlow]
  · by_cases hhigh : r.holds ((below + 1) * step) den = true
    · simp [hlow, hhigh]
    · exfalso
      have hunit : (0 : ℚ) < r.unit := by exact_mod_cast h.unit_pos
      have hden : (0 : ℚ) < den := by exact_mod_cast hgrid.den_pos
      have hpos := zpow_two_pos (q - 2)
      have hreach : (1 : ℚ) ≤ reach m q := by
        unfold reach
        split <;> norm_num
      have hwhole (k : ℕ) : (k * 10 ^ (lead - (17 : ℕ) + 1) : ℚ) ≤ r.value / r.unit ↔ k * step ≤ r.value * den := by
        rw [← hgrid.point, div_le_div_iff_of_pos_right hunit, div_le_iff₀ hden]
        exact_mod_cast Iff.rfl
      have hfrom : (below * 10 ^ (lead - (17 : ℕ) + 1) : ℚ) ≤ r.value / r.unit :=
        (hwhole below).mpr (hbelow ▸ Nat.div_mul_le_self _ _)
      have hto : (r.value : ℚ) / r.unit < (below + 1 : ℕ) * 10 ^ (lead - (17 : ℕ) + 1) :=
        lt_of_not_ge fun hle => absurd ((hwhole _).mp hle)
          (not_le.mpr (by rw [hbelow, mul_comm _ step]; exact Nat.lt_mul_div_succ _ hgrid.step_pos))
      rw [h.value] at hfrom hto hlead
      -- both neighbours are outside, so the interval fits between them
      have hleft : (below * 10 ^ (lead - (17 : ℕ) + 1) : ℚ) ≤ (4 * m - reach m q) * 2 ^ (q - 2) := by
        refine not_lt.mp fun hlt => hlow (h.holds hgrid.den_pos ?_ ?_) <;> rw [hgrid.point]
        · exact hlt
        · linarith
      have hright : ((4 * m + 2) * 2 ^ (q - 2) : ℚ) ≤ (below + 1 : ℕ) * 10 ^ (lead - (17 : ℕ) + 1) := by
        refine not_lt.mp fun hlt => hhigh (h.holds hgrid.den_pos ?_ ?_) <;> rw [hgrid.point]
        · nlinarith
        · exact hlt
      have hstep : (10 : ℚ) ^ (lead - (17 : ℕ) + 1) * 10 ^ 16 = 10 ^ lead := by
        rw [← zpow_natCast (10 : ℚ) 16, ← zpow_add₀ (by norm_num)]
        congr 1
        omega
      have hfine := fine hc (hstep.trans_le hlead)
      rw [Nat.cast_succ] at hright
      linarith

/-! ## How many digits are taken -/

/-- The number is as large as its leading power of ten at least. -/
theorem leadingExponent_le (hnum : 0 < num) (hden : 0 < den) : (10 : ℚ) ^ leadingExponent num den ≤ num / den := by
  have hpos : (0 : ℚ) < den := by exact_mod_cast hden
  have hcast (n : ℕ) : ((Nat.pow 10 n : ℕ) : ℚ) = 10 ^ n := Nat.cast_pow 10 n
  obtain ⟨guess, hguess⟩ : ∃ guess : ℤ, guess = (digitCount num : ℤ) - digitCount den := ⟨_, rfl⟩
  unfold leadingExponent
  dsimp only
  rw [← hguess]
  by_cases hreached : if guess < 0 then den ≤ num * Nat.pow 10 (-guess).toNat
      else den * Nat.pow 10 guess.toNat ≤ num
  · rw [if_pos hreached, le_div_iff₀ hpos]
    by_cases h : guess < 0
    · have hexponent : guess = -((-guess).toNat : ℤ) := by omega
      rw [if_pos h] at hreached
      have hreached : (den : ℚ) ≤ num * 10 ^ (-guess).toNat := by
        rw [← hcast]
        exact_mod_cast hreached
      rw [hexponent, zpow_neg, zpow_natCast, inv_mul_le_iff₀ (by positivity), mul_comm]
      exact hreached
    · have hexponent : guess = (guess.toNat : ℤ) := by omega
      rw [if_neg h] at hreached
      have hreached : (den : ℚ) * 10 ^ guess.toNat ≤ num := by
        rw [← hcast]
        exact_mod_cast hreached
      rw [hexponent, zpow_natCast, mul_comm]
      exact hreached
  · rw [if_neg hreached, le_div_iff₀ hpos]
    have hleast : (10 : ℚ) ^ (digitCount num - 1) ≤ num := by exact_mod_cast (digits_bounds hnum).1
    have hmost : (den : ℚ) ≤ 10 ^ digitCount den := by exact_mod_cast (digits_bounds hden).2.le
    have hcount : 0 < digitCount num := Nat.length_toDigits_pos
    calc (10 : ℚ) ^ (guess - 1) * den ≤ 10 ^ (guess - 1) * 10 ^ digitCount den :=
          mul_le_mul_of_nonneg_left hmost (zpow_ten_pos _).le
      _ = 10 ^ (digitCount num - 1) := by
          rw [← zpow_natCast, ← zpow_natCast, ← zpow_add₀ (by norm_num)]
          congr 1
          omega
      _ ≤ num := hleast

/-- Zeros at the end are left out, and the value stays. -/
theorem value_stripped (steps : ℕ) (d : Scaled) :
    ((d.stripped steps).significand : ℚ) * 10 ^ (d.stripped steps).exponent = d.significand * 10 ^ d.exponent := by
  induction steps generalizing d with
  | zero => rfl
  | succ steps ih =>
      unfold Scaled.stripped
      split
      · rename_i hzero
        rw [Bool.and_eq_true, beq_iff_eq] at hzero
        have hdigits : (d.significand : ℚ) = (d.significand / 10 : ℕ) * 10 := by
          exact_mod_cast (Nat.div_mul_cancel (Nat.dvd_of_mod_eq_zero hzero.2)).symm
        rw [ih, hdigits, zpow_add₀ (by norm_num), zpow_one]
        ring
      · rfl

/-- The shortest decimal of a float lies in the interval of the float. -/
theorem shortest_rounds (hc : IsCanonical m q) :
    Rounds ((shortest m q).significand * 10 ^ (shortest m q).exponent) m q := by
  have hstands := Rounding.stands_around (q := q) hc.pos
  have hvalue : 0 < (Rounding.around m q).value := by
    have hm : (0 : ℚ) < m := by exact_mod_cast hc.pos
    have hsome : (0 : ℚ) < (Rounding.around m q).value / (Rounding.around m q).unit := by
      rw [hstands.value]
      exact mul_pos (by linarith) (zpow_two_pos _)
    have hne : ((Rounding.around m q).value : ℚ) ≠ 0 := fun heq => by
      rw [heq, zero_div] at hsome
      exact lt_irrefl _ hsome
    exact Nat.pos_of_ne_zero (by exact_mod_cast hne)
  have hnone : ¬(m == 0) = true := fun heq => hc.pos.ne' (beq_iff_eq.mp heq)
  unfold shortest
  rw [if_neg hnone]
  dsimp only
  rw [value_stripped]
  cases hfound : (List.range 17).findSome? fun i => (Rounding.around m q).decimal?
      (leadingExponent (Rounding.around m q).value (Rounding.around m q).unit) (i + 1) with
  | none =>
      obtain ⟨d, hd⟩ := hstands.exists_decimal? hc (leadingExponent_le hvalue hstands.unit_pos)
      have hnone := List.findSome?_eq_none_iff.mp hfound 16 (by decide)
      cases hd.symm.trans hnone
  | some d =>
      obtain ⟨i, -, hd⟩ := List.exists_of_findSome?_eq_some hfound
      exact hstands.decimal? hd

theorem significand_shortest_pos (hc : IsCanonical m q) : 0 < (shortest m q).significand := by
  refine Nat.pos_of_ne_zero fun hzero => ?_
  have hlow := ((shortest_rounds hc).bounds hc).1
  rw [hzero, Nat.cast_zero, zero_mul] at hlow
  exact absurd hlow (not_le.mpr (zpow_two_pos _))

/-- A float is read back from any decimal whose value is that of its shortest one. -/
theorem scaled_of_value (hc : IsCanonical m q) {n : ℕ} {e : ℤ}
    (h : (n : ℚ) * 10 ^ e = (shortest m q).significand * 10 ^ (shortest m q).exponent) :
    scaled n e = ofParts (.finite .positive m q hc.pos) := by
  have hrounds := shortest_rounds hc
  rw [← h] at hrounds
  refine scaled_eq (Nat.pos_of_ne_zero fun hzero => ?_) hc hrounds
  rw [hzero, Nat.cast_zero, zero_mul] at h
  have hpos : (0 : ℚ) < (shortest m q).significand := by exact_mod_cast significand_shortest_pos hc
  exact absurd h (mul_pos hpos (zpow_ten_pos _)).ne

end FactIndex.Decimal

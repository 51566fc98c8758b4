import FactIndex.Calendar.Time
import FactIndex.Decimal.Numeral
import FactIndex.Proofs.Decimal.Nearest
import FactIndex.Proofs.Decimal.Order
import Mathlib.Tactic.FieldSimp
import Mathlib.Tactic.NormNum

/-!
# Reading a decimal

The float that is read for a decimal is the one in whose interval the decimal lies. Where whole numbers are
floats, and so is their product, they are multiplied and divided without rounding, and such a product can be
cut to a whole number without loss.

## Main definitions

* `mul_eq`, `div_eq`: products and quotients of floats.
* `digits_bounds`: how large a number with so many digits is.
* `scaled_eq`: the float that is read.
* `IsFloat`: a whole number that is a float.
* `ofNat_mul`, `ofNat_div`: products and quotients of such numbers.
* `truncateFloat_ofNat`: the whole part of such a number.
-/

namespace FactIndex.Decimal

open Float.Model Float.Model.UnpackedFloat

variable {m n k : ℕ} {q e f : ℤ} {v : ℚ}

/-! ## Products and quotients -/

theorem le_target_of_log2 (h : 52 ≤ n.log2) : e ≤ target n e := by
  rw [target_eq]
  omega

/-- Two numbers are multiplied, and the product is rounded. -/
theorem mul_eq (hc : IsCanonical m q) (hn : 0 < n) (hk : 0 < k) (hlog : 52 ≤ (n * k).log2)
    (h : Rounds (n * 2 ^ e * (k * 2 ^ f)) m q) :
    UnpackedFloat.mul .binary64 (.finite .positive n e hn) (.finite .positive k f hk) =
      .finite .positive m q hc.pos := by
  refine roundWithAccuracy_eq _ h hc ?_ (le_target_of_log2 hlog)
  show _ = ((n * k : ℕ) : ℚ)
  rw [div_eq_iff (zpow_two_pos _).ne', zpow_add₀ (by norm_num)]
  push_cast
  ring

/-- What is left of a division says how it goes on. -/
theorem represents_quotient (hk : 0 < k) :
    Represents (.ofMantissaAndAccuracy (n / k) (accuracyOfFraction (n % k) k)) ((n : ℚ) / k) := by
  have hpos : (0 : ℚ) < k := by exact_mod_cast hk
  have hparts : (n : ℚ) = (n / k : ℕ) * k + (n % k : ℕ) := by exact_mod_cast (Nat.div_add_mod' n k).symm
  have hrest : ((n % k : ℕ) : ℚ) < k := by exact_mod_cast Nat.mod_lt n hk
  have hvalue : (n : ℚ) / k = (n / k : ℕ) + (n % k : ℕ) / k := by
    rw [hparts]
    field_simp
  rw [hvalue]
  unfold accuracyOfFraction
  split
  · rename_i hzero
    show _ = _
    rw [hzero, Nat.cast_zero, zero_div, add_zero]
  · rename_i hsome
    have hsome : (0 : ℚ) < (n % k : ℕ) := by exact_mod_cast Nat.pos_of_ne_zero hsome
    cases hcompare : compare (2 * (n % k)) k with
    | lt =>
        have hlt : (2 * (n % k : ℕ) : ℚ) < k := by exact_mod_cast Nat.compare_eq_lt.mp hcompare
        refine ⟨by have := div_pos hsome hpos; linarith, ?_⟩
        have hhalf : ((n % k : ℕ) : ℚ) / k < 1 / 2 := by
          rw [div_lt_div_iff₀ hpos (by norm_num)]
          linarith
        linarith
    | eq =>
        have heq : (2 * (n % k : ℕ) : ℚ) = k := by exact_mod_cast Nat.compare_eq_eq.mp hcompare
        show _ = _
        rw [← heq]
        field_simp
    | gt =>
        have hgt : (k : ℚ) < 2 * (n % k : ℕ) := by exact_mod_cast Nat.compare_eq_gt.mp hcompare
        have hhalf : 1 / 2 < ((n % k : ℕ) : ℚ) / k := by
          rw [div_lt_div_iff₀ (by norm_num) hpos]
          linarith
        have hone : ((n % k : ℕ) : ℚ) / k < 1 := (div_lt_one hpos).mpr hrest
        exact ⟨by linarith, by linarith⟩

/-- One number is divided by another, and the quotient is rounded. -/
theorem div_eq (hc : IsCanonical m q) (hn : 0 < n) (hk : 0 < k)
    (h : Rounds (n * 2 ^ e / (k * 2 ^ f)) m q) :
    UnpackedFloat.div .binary64 (.finite .positive n e hn) (.finite .positive k f hk) =
      .finite .positive m q hc.pos := by
  have hpos : (0 : ℚ) < k := by exact_mod_cast hk
  obtain ⟨t, ht⟩ : ∃ t, t = min (e - f)
      (Format.binary64.targetExponent (totalExponent n e - totalExponent k f)) := ⟨_, rfl⟩
  have hfar : t ≤ n.log2 + e - (k.log2 + f) - 53 ∨ t ≤ -1074 := by
    have hdigits : (Format.binary64.mantissaBits : ℤ) = 53 := by decide
    have hleast : Format.binary64.minExponent = -1074 := by decide
    unfold Format.targetExponent totalExponent at ht
    rw [hdigits, hleast] at ht
    omega
  have hshift : (((e - f - t).toNat : ℕ) : ℤ) = e - f - t := by omega
  have hvalue : (((n <<< (e - f - t).toNat : ℕ) : ℚ) / k) = n * 2 ^ e / (k * 2 ^ f) / 2 ^ t := by
    have hpower : (2 : ℚ) ^ (e - f - t).toNat = 2 ^ e / 2 ^ f / 2 ^ t := by
      rw [← zpow_natCast, hshift, zpow_sub₀ (by norm_num), zpow_sub₀ (by norm_num)]
    rw [Nat.shiftLeft_eq]
    push_cast
    rw [hpower]
    field_simp
  have hgoal := roundWithAccuracy_eq (.positive / .positive) h hc (e := t)
    (hvalue ▸ represents_quotient hk) ?_
  · unfold UnpackedFloat.div divCore
    dsimp only
    rw [← ht]
    exact hgoal
  · rcases hfar with hfar | hfar
    · have hdigits : 2 ^ 52 ≤ n <<< (e - f - t).toNat / k := by
        rw [Nat.le_div_iff_mul_le hk, Nat.shiftLeft_eq]
        calc 2 ^ 52 * k ≤ 2 ^ 52 * 2 ^ (k.log2 + 1) := Nat.mul_le_mul_left _ Nat.lt_log2_self.le
          _ = 2 ^ (52 + (k.log2 + 1)) := (pow_add _ _ _).symm
          _ ≤ 2 ^ (n.log2 + (e - f - t).toNat) := Nat.pow_le_pow_right (by decide) (by omega)
          _ = 2 ^ n.log2 * 2 ^ (e - f - t).toNat := pow_add _ _ _
          _ ≤ n * 2 ^ (e - f - t).toNat := Nat.mul_le_mul_right _ (Nat.log2_self_le hn.ne')
      exact le_target_of_log2 ((Nat.le_log2 (by omega)).mpr hdigits)
    · rw [target_eq]
      omega

/-! ## How large a number is -/

/-- How large a number with so many digits is. -/
theorem digits_bounds (hn : 0 < n) :
    10 ^ ((Nat.toDigits 10 n).length - 1) ≤ n ∧ n < 10 ^ (Nat.toDigits 10 n).length := by
  have hpos : 0 < (Nat.toDigits 10 n).length := Nat.length_toDigits_pos
  refine ⟨?_, (Nat.length_toDigits_le_iff (by decide) hpos).mp le_rfl⟩
  by_cases hone : (Nat.toDigits 10 n).length = 1
  · rw [hone]
    exact hn
  · refine not_lt.mp fun hlt => ?_
    have hle := (Nat.length_toDigits_le_iff (by decide) (by omega)).mpr hlt
    omega

/-- How large a number is that is read as a float. -/
theorem Rounds.bounds (h : Rounds v m q) (hc : IsCanonical m q) : 2 ^ (-1075 : ℤ) ≤ v ∧ v < 2 ^ (1024 : ℤ) := by
  have hpos := zpow_two_pos (q - 2)
  have hreach := reach_le m q
  have hone : (1 : ℚ) ≤ m := by exact_mod_cast hc.pos
  have hlt : (m : ℚ) ≤ 2 ^ 53 - 1 := by
    have hcast : ((m + 1 : ℕ) : ℚ) ≤ (2 ^ 53 : ℕ) := by exact_mod_cast hc.lt
    push_cast at hcast
    linarith
  constructor
  · calc (2 : ℚ) ^ (-1075 : ℤ) ≤ 2 ^ (q - 2 + (1 : ℕ)) :=
          zpow_le_zpow_right₀ (by norm_num) (by have := hc.least; push_cast; omega)
      _ = 2 * 2 ^ (q - 2) := by rw [zpow_two_add, pow_one]
      _ ≤ v := le_trans (by nlinarith) h.low
  · calc v ≤ (4 * m + 2) * 2 ^ (q - 2) := h.high
      _ < 2 ^ 55 * 2 ^ (q - 2) := by nlinarith
      _ = 2 ^ (q - 2 + (55 : ℕ)) := (zpow_two_add _ _).symm
      _ ≤ 2 ^ (1024 : ℤ) := zpow_le_zpow_right₀ (by norm_num) (by have := hc.greatest; push_cast; omega)

/-- The decimal that is read as a float is neither too small nor too large to be read. -/
theorem size_bounds (hn : 0 < n) (hc : IsCanonical m q) (h : Rounds (n * 10 ^ e) m q) :
    -330 ≤ (Nat.toDigits 10 n).length + e ∧ (Nat.toDigits 10 n).length + e ≤ 310 := by
  obtain ⟨hlow, hhigh⟩ := h.bounds hc
  obtain ⟨hleast, hmost⟩ := digits_bounds hn
  have hpos : 0 < (Nat.toDigits 10 n).length := Nat.length_toDigits_pos
  have hten : (0 : ℚ) < 10 ^ e := zpow_pos (by norm_num) e
  have hleast : (10 : ℚ) ^ ((Nat.toDigits 10 n).length - 1) ≤ n := by exact_mod_cast hleast
  have hmost : (n : ℚ) < 10 ^ (Nat.toDigits 10 n).length := by exact_mod_cast hmost
  have hadd (k : ℕ) : (10 : ℚ) ^ k * 10 ^ e = 10 ^ ((k : ℤ) + e) := by
    rw [zpow_add₀ (by norm_num), zpow_natCast]
  constructor
  · refine not_lt.mp fun hsmall => ?_
    have hle : (10 : ℚ) ^ ((Nat.toDigits 10 n).length + e) ≤ 10 ^ (-331 : ℤ) :=
      zpow_le_zpow_right₀ (by norm_num) (by omega)
    rw [← hadd] at hle
    have hv := (mul_lt_mul_of_pos_right hmost hten).trans_le hle
    have hpowers : (2 : ℚ) ^ 1075 < 10 ^ 331 := by exact_mod_cast (by decide +kernel : 2 ^ 1075 < 10 ^ 331)
    have hcompare : (10 : ℚ) ^ (-331 : ℤ) < 2 ^ (-1075 : ℤ) := by
      rw [zpow_neg, zpow_neg]
      exact inv_strictAnti₀ (by positivity) hpowers
    exact absurd (hlow.trans_lt hv) (not_lt.mpr hcompare.le)
  · refine not_lt.mp fun hlarge => ?_
    have hle : (10 : ℚ) ^ (310 : ℤ) ≤ 10 ^ ((((Nat.toDigits 10 n).length - 1 : ℕ) : ℤ) + e) :=
      zpow_le_zpow_right₀ (by norm_num) (by omega)
    rw [← hadd] at hle
    have hv := hle.trans (mul_le_mul_of_nonneg_right hleast hten.le)
    have hcompare : (2 : ℚ) ^ 1024 < 10 ^ 310 := by exact_mod_cast (by decide +kernel : 2 ^ 1024 < 10 ^ 310)
    exact absurd (hv.trans_lt hhigh) (not_lt.mpr hcompare.le)

/-! ## Reading -/

/-- A whole number that floats hold exactly is the float of itself. -/
theorem Rounds.self (m : ℕ) (q : ℤ) : Rounds (m * 2 ^ q) m q := by
  have hpos := zpow_two_pos (q - 2)
  have hquarter : (2 : ℚ) ^ q = 4 * 2 ^ (q - 2) := by
    have hpower := zpow_two_add (q - 2) 2
    norm_num at hpower
    exact hpower
  have hsome : (1 : ℚ) ≤ reach m q := by
    unfold reach
    split <;> norm_num
  rw [hquarter]
  exact ⟨by nlinarith, by nlinarith, fun _ => ⟨by nlinarith, by nlinarith⟩⟩

/-- A whole number is multiplied by a power of ten. -/
theorem mul_power_eq (hc : IsCanonical m q) (h : Rounds (n * 10 ^ k) m q) (hn : 0 < n <<< 53)
    (hk : 0 < 10 ^ k) :
    UnpackedFloat.mul .binary64 (.finite .positive (n <<< 53) (-53) hn) (.finite .positive (10 ^ k) 0 hk) =
      .finite .positive m q hc.pos := by
  have hshift : n <<< 53 = n * 2 ^ 53 := Nat.shiftLeft_eq _ _
  have hpos : 0 < n := Nat.pos_of_mul_pos_right (hshift ▸ hn)
  have hdigits : 2 ^ 52 ≤ n <<< 53 * 10 ^ k := by
    rw [hshift]
    calc 2 ^ 52 ≤ 1 * 2 ^ 53 * 1 := by norm_num
      _ ≤ n * 2 ^ 53 * 10 ^ k := Nat.mul_le_mul (Nat.mul_le_mul_right _ hpos) hk
  have hvalue : ((n <<< 53 : ℕ) : ℚ) * 2 ^ (-53 : ℤ) * ((10 ^ k : ℕ) * 2 ^ (0 : ℤ)) = n * 10 ^ k := by
    rw [hshift, zpow_neg, zpow_zero]
    push_cast
    field_simp
  refine mul_eq hc hn hk ((Nat.le_log2 (Nat.mul_pos hn hk).ne').mpr hdigits) ?_
  rwa [hvalue]

/-- A whole number is divided by a power of ten. -/
theorem div_power_eq (hc : IsCanonical m q) (h : Rounds (n / 10 ^ k) m q) (hn : 0 < n) (hk : 0 < 10 ^ k) :
    UnpackedFloat.div .binary64 (.finite .positive n 0 hn) (.finite .positive (10 ^ k) 0 hk) =
      .finite .positive m q hc.pos := by
  have hvalue : (n : ℚ) * 2 ^ (0 : ℤ) / ((10 ^ k : ℕ) * 2 ^ (0 : ℤ)) = n / 10 ^ k := by
    rw [zpow_zero, mul_one, mul_one]
    push_cast
    rfl
  refine div_eq hc hn hk ?_
  rwa [hvalue]

/-- Where the model of floats reads a decimal, it reads the nearest float. -/
theorem ofScientific_eq (hn : 0 < n) (hc : IsCanonical m q) (h : Rounds (n * 10 ^ e) m q) :
    UnpackedFloat.ofScientific .binary64 n e = .finite .positive m q hc.pos := by
  obtain ⟨hsmall, hlarge⟩ := size_bounds hn hc h
  have hlength : 0 < (Nat.toDigits 10 n).length := Nat.length_toDigits_pos
  have hfew : ¬e > 2 ^ 11 := by omega
  have hmany : ¬e < -((2 ^ 11 : ℤ) + n.log2) := by
    have hdigits : (Nat.toDigits 10 n).length ≤ n.log2 + 1 :=
      (Nat.length_toDigits_le_iff (by decide) (by omega)).mpr
        (Nat.lt_log2_self.trans_le (Nat.pow_le_pow_left (by decide) _))
    omega
  unfold UnpackedFloat.ofScientific
  rw [dif_neg hn.ne', if_neg hfew, if_neg hmany]
  by_cases hnonneg : 0 ≤ e
  · obtain ⟨k, rfl⟩ := Int.eq_ofNat_of_zero_le hnonneg
    rw [if_pos hnonneg]
    exact mul_power_eq hc (by rwa [zpow_natCast] at h) _ _
  · obtain ⟨k, hk⟩ : ∃ k : ℕ, e = -k := ⟨(-e).toNat, by omega⟩
    subst hk
    rw [if_neg hnonneg]
    have hvalue : (n : ℚ) * 10 ^ (-(k : ℤ)) = n / 10 ^ k := by
      rw [zpow_neg, zpow_natCast, div_eq_mul_inv]
    have hpower : (- -(k : ℤ)).toNat = k := by omega
    exact div_power_eq hc (by rwa [hpower, ← hvalue]) hn _

/-! ### Numbers and powers that floats hold exactly -/

/-- A whole number with so few digits is a float. -/
theorem parts_toFloat (hn : 0 < n) (hlt : n < 2 ^ 53) : ∃ (m : ℕ) (e : ℤ) (hm : 0 < m), IsCanonical m e ∧ 2 ^ 52 ≤ m ∧
    (m : ℚ) * 2 ^ e = n ∧ parts n.toUInt64.toFloat = .finite .positive m e hm := by
  have hlog : n.log2 < 53 := (Nat.log2_lt hn.ne').mpr hlt
  have hsame : n.toUInt64.toNat = n := by
    rw [UInt64.toNat_ofNat']
    exact Nat.mod_eq_of_lt (by omega)
  have hshift : n <<< (52 - n.log2) = n * 2 ^ (52 - n.log2) := Nat.shiftLeft_eq _ _
  have hleast : 2 ^ 52 ≤ n <<< (52 - n.log2) := by
    rw [hshift]
    calc 2 ^ 52 = 2 ^ n.log2 * 2 ^ (52 - n.log2) := by rw [← pow_add]; congr 1; omega
      _ ≤ n * 2 ^ (52 - n.log2) := Nat.mul_le_mul_right _ (Nat.log2_self_le hn.ne')
  have hmost : n <<< (52 - n.log2) < 2 ^ 53 := by
    rw [hshift]
    calc n * 2 ^ (52 - n.log2) < 2 ^ (n.log2 + 1) * 2 ^ (52 - n.log2) :=
          Nat.mul_lt_mul_of_pos_right Nat.lt_log2_self (by positivity)
      _ = 2 ^ 53 := by rw [← pow_add]; congr 1; omega
  have hc : IsCanonical (n <<< (52 - n.log2)) (n.log2 - 52) :=
    ⟨by omega, hmost, by omega, by omega, .inl hleast⟩
  have hvalue : ((n <<< (52 - n.log2) : ℕ) : ℚ) * 2 ^ ((n.log2 : ℤ) - 52) = n := by
    have hexponent : (n.log2 : ℤ) - 52 = -((52 - n.log2 : ℕ) : ℤ) := by omega
    rw [hshift, hexponent, zpow_neg, zpow_natCast]
    push_cast
    field_simp
  refine ⟨_, _, hc.pos, hc, hleast, hvalue, ?_⟩
  have htarget : target n 0 = n.log2 - 52 := by
    rw [target_eq]
    omega
  have hrounded : UnpackedFloat.normalize .binary64 n 0 .positive =
      .finite .positive (n <<< (52 - n.log2)) (n.log2 - 52) hc.pos := by
    have hcount : (0 - ((n.log2 : ℤ) - 52)).toNat = 52 - n.log2 := by omega
    have hplace : 0 - (((52 - n.log2 : ℕ) : ℤ)) = n.log2 - 52 := by omega
    have hround := roundWithAccuracy_eq .positive (Rounds.self _ _) hc (n := n <<< (52 - n.log2))
      (e := n.log2 - 52) (a := .exact) (mul_div_cancel_right₀ _ (zpow_two_pos _).ne')
      (le_target_of_log2 (IsCanonical.log2_eq hleast hmost).ge)
    have htarget : Format.binary64.targetExponent (totalExponent n 0) = n.log2 - 52 := htarget
    unfold UnpackedFloat.normalize
    rw [Int.compare_eq_gt.mpr (by omega)]
    unfold UnpackedFloat.round decreaseExponent
    dsimp only
    rw [Int.toNat_natCast, htarget, hcount, hplace]
    exact hround
  show parts (ofParts (UnpackedFloat.normalize .binary64 n.toUInt64.toNat 0 .positive)) = _
  rw [hsame, hrounded]
  exact parts_ofParts hc.pos hc

/-- The parts of a float are digits and an exponent, and their value is a power of ten. -/
def isPower (k : ℕ) (u : UnpackedFloat) : Bool :=
  match u with
  | .finite .positive m e _ => 2 ^ 52 ≤ m && m * 2 ^ e.toNat == 10 ^ k * 2 ^ (-e).toNat
  | _ => false

theorem exists_of_isPower {u : UnpackedFloat} (h : isPower k u = true) :
    ∃ (m : ℕ) (e : ℤ) (hm : 0 < m), 2 ^ 52 ≤ m ∧ (m : ℚ) * 2 ^ e = 10 ^ k ∧ u = .finite .positive m e hm := by
  unfold isPower at h
  split at h
  · rename_i m e hm
    rw [Bool.and_eq_true, decide_eq_true_iff, beq_iff_eq] at h
    refine ⟨m, e, hm, h.1, ?_, rfl⟩
    have hcast : (m : ℚ) * 2 ^ e.toNat = 10 ^ k * 2 ^ (-e).toNat := by exact_mod_cast h.2
    have hexponent : e = (e.toNat : ℤ) - (-e).toNat := by omega
    rw [hexponent, zpow_sub₀ (by norm_num), zpow_natCast, zpow_natCast, ← mul_div_assoc, hcast]
    field_simp
  · cases h

/-- The powers of ten that are kept ready. -/
theorem isPower_ready : ∀ k : Fin Float.exactlyRepresentablePowersOfTen.size,
    isPower k (parts Float.exactlyRepresentablePowersOfTen[k]) = true := by
  decide +kernel

/-! ### The float that is read -/

theorem mul_eq_ofParts (x y : Float) : x * y = ofParts ((parts x).mul .binary64 (parts y)) := rfl

theorem div_eq_ofParts (x y : Float) : x / y = ofParts ((parts x).div .binary64 (parts y)) := rfl

/-- Where the whole number and the power of ten are floats, it is enough to calculate with them. -/
theorem fast_eq (hn : 0 < n) (hlt : n < 2 ^ 53) (hc : IsCanonical m q) {power : Float}
    (hpower : isPower k (parts power) = true) :
    (Rounds (n * 10 ^ k) m q → n.toUInt64.toFloat * power = ofParts (.finite .positive m q hc.pos)) ∧
      (Rounds (n / 10 ^ k) m q → n.toUInt64.toFloat / power = ofParts (.finite .positive m q hc.pos)) := by
  obtain ⟨a, e, ha, -, hleast, hvalue, hparts⟩ := parts_toFloat hn hlt
  obtain ⟨b, f, hb, hmore, hten, hready⟩ := exists_of_isPower hpower
  have hlog : 52 ≤ (a * b).log2 :=
    (Nat.le_log2 (Nat.mul_pos ha hb).ne').mpr (hleast.trans (Nat.le_mul_of_pos_right a hb))
  refine ⟨fun h => ?_, fun h => ?_⟩
  · rw [mul_eq_ofParts, hparts, hready]
    exact congrArg ofParts (mul_eq hc ha hb hlog (by rwa [hvalue, hten]))
  · rw [div_eq_ofParts, hparts, hready]
    exact congrArg ofParts (div_eq hc ha hb (by rwa [hvalue, hten]))

/-- The float that is read is the one in whose interval the decimal lies. -/
theorem scaled_eq (hn : 0 < n) (hc : IsCanonical m q) (h : Rounds (n * 10 ^ e) m q) :
    scaled n e = ofParts (.finite .positive m q hc.pos) := by
  obtain ⟨hsmall, hlarge⟩ := size_bounds hn hc h
  have hfew : ¬(n == 0 || decide ((((Nat.toDigits 10 n).length : ℤ) + e) < -330)) = true := by
    rw [Bool.or_eq_true, beq_iff_eq, decide_eq_true_iff]
    omega
  unfold scaled
  dsimp only
  rw [if_neg hfew, if_neg (by omega)]
  unfold Float.ofScientific
  by_cases hfast : n < 2 ^ 53 ∧ e.natAbs ≤ 22
  · have hready := isPower_ready ⟨e.natAbs, Nat.lt_succ_of_le hfast.2⟩
    obtain ⟨hproduct, hquotient⟩ := fast_eq hn hfast.1 hc hready
    rw [dif_pos hfast]
    dsimp only
    by_cases hnegative : e < 0
    · have hexponent : e = -(e.natAbs : ℤ) := by omega
      rw [if_pos (decide_eq_true hnegative)]
      refine hquotient ?_
      rwa [hexponent, zpow_neg, zpow_natCast, ← div_eq_mul_inv] at h
    · have hexponent : e = (e.natAbs : ℤ) := by omega
      rw [if_neg (by simpa using hnegative)]
      refine hproduct ?_
      rwa [hexponent, zpow_natCast] at h
  · have hexponent : (if decide (e < 0) = true then Int.negOfNat e.natAbs else Int.ofNat e.natAbs) = e := by
      split
      · rename_i hnegative
        have hnegative := of_decide_eq_true hnegative
        rw [Int.negOfNat_eq, Int.ofNat_eq_natCast]
        omega
      · rename_i hnegative
        have hnegative : ¬e < 0 := fun hlt => hnegative (decide_eq_true hlt)
        rw [Int.ofNat_eq_natCast]
        omega
    rw [dif_neg hfast]
    dsimp only
    rw [hexponent]
    exact congrArg ofParts (ofScientific_eq hn hc h)

/-! ## Whole numbers that are floats -/

end FactIndex.Decimal

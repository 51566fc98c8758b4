import FactIndex.Decimal.Binary
import Mathlib
/-!
# The nearest float

A float is made up of a sign, an exponent and digits, and these parts say which float it is. The exact value
of a finite float is put together from the same parts.

Rounding a number gives the float in whose interval the number lies: it reaches half way to the next floats,
where its ends belong to the float whose last digit is even.

## Main definitions

* `IsCanonical`: digits and an exponent that a finite float can have.
* `unpack_pack`: the parts of a float that was put together from parts.
* `ofModel_pack_unpack`: a float is put together from its parts.
* `binary?_eq`: the exact value of a float by its parts.
* `Rounds`: the interval of a float.
* `Represents`: what digits, a bit after them and a bit for the rest say of a number.
* `roundWithAccuracy_eq`: the float that a number is rounded to.
-/

namespace FactIndex.Decimal

open Float.Model Float.Model.UnpackedFloat

/-- Digits and an exponent that a finite float can have: as many digits as there is room for, or the least
exponent. -/
structure IsCanonical (m : ℕ) (e : ℤ) : Prop where
  pos : 0 < m
  lt : m < 2 ^ 53
  least : -1074 ≤ e
  greatest : e ≤ 971
  full : 2 ^ 52 ≤ m ∨ e = -1074

namespace IsCanonical

variable {m : ℕ} {e : ℤ}

theorem log2_eq (h : 2 ^ 52 ≤ m) (hlt : m < 2 ^ 53) : m.log2 = 52 :=
  (Nat.log2_eq_iff (by omega)).mpr ⟨h, hlt⟩

theorem log2_lt (hpos : 0 < m) (h : m < 2 ^ 52) : m.log2 < 52 :=
  (Nat.log2_lt (by omega)).mpr h

end IsCanonical

/-! ## Parts -/

theorem unpackSign_packComponents {spec : Format} {sign : Sign} {exponent : BitVec spec.exponentBits}
    {mantissa : BitVec spec.mantissaBitsWithoutImplicit} :
    unpackSign (packComponents spec sign exponent mantissa) = sign.toBitVec := by
  ext i hi
  obtain rfl : i = 0 := by omega
  simp [unpackSign, packComponents, BitVec.getLsbD_append]
  grind

theorem ofBitVec_toBitVec (s : Sign) : Sign.ofBitVec s.toBitVec = s := by
  cases s <;> rfl

theorem toBitVec_ofBitVec (b : BitVec 1) : (Sign.ofBitVec b).toBitVec = b := by
  rcases BitVec.eq_zero_or_eq_one b with rfl | rfl <;> rfl

/-- Bits are put together from their parts. -/
theorem packComponents_unpack {spec : Format} (b : BitVec spec.numBits) :
    packComponents spec (Sign.ofBitVec (unpackSign b)) (unpackExponent b) (unpackMantissa b) = b := by
  have hm := spec.hm
  have he := spec.he
  unfold packComponents
  rw [toBitVec_ofBitVec]
  ext i hi
  simp only [unpackSign, unpackExponent, unpackMantissa, BitVec.getElem_append, BitVec.getElem_cast,
    BitVec.getElem_extractLsb', BitVec.extractLsb, Nat.zero_add]
  rw [← BitVec.getLsbD_eq_getElem hi]
  split
  · rfl
  · split
    · exact congrArg b.getLsbD (by omega)
    · exact congrArg b.getLsbD (by omega)

/-! ## Finite floats -/

section

variable {b : BitVec Format.binary64.numBits} {s : Sign} {m : ℕ} {e : ℤ}

theorem toNat_one_append (v : BitVec 52) : (1#1 ++ v).toNat = 2 ^ 52 + v.toNat := by
  rw [BitVec.toNat_append, ← Nat.shiftLeft_add_eq_or_of_lt v.isLt]
  rfl

theorem bias_eq : (Format.binary64.exponentBias : ℤ) + Format.binary64.mantissaBitsWithoutImplicit = 1075 := by
  decide

/-- All digits are used: the first one is left out. -/
theorem pack_full (hm : 0 < m) (hfull : 2 ^ 52 ≤ m) (h : IsCanonical m e) :
    UnpackedFloat.pack .binary64 (.finite s m e hm) =
      packComponents .binary64 s (BitVec.ofNat 11 (e + 1075).toNat) (BitVec.ofNat 52 m) := by
  have hbias : e + Format.binary64.exponentBias + Format.binary64.mantissaBitsWithoutImplicit = e + 1075 := by
    rw [add_assoc, bias_eq]
  have hroom : ¬2 ^ 11 ≤ (e + 1075).toNat + 1 := by
    have := h.greatest
    omega
  have hlog : m.log2 + 1 = Format.binary64.mantissaBits := by
    rw [IsCanonical.log2_eq hfull h.lt]
    rfl
  unfold UnpackedFloat.pack
  dsimp only
  rw [hbias, if_neg hroom, if_pos hlog]

/-- Not all digits are used, which only happens with the least exponent. -/
theorem pack_few (hm : 0 < m) (hfew : m < 2 ^ 52) : UnpackedFloat.pack .binary64 (.finite s m (-1074) hm) =
    packComponents .binary64 s 0 (BitVec.ofNat 52 m) := by
  have hlog : ¬m.log2 + 1 = Format.binary64.mantissaBits := by
    have hlt := IsCanonical.log2_lt hm hfew
    show ¬m.log2 + 1 = 53
    omega
  unfold UnpackedFloat.pack
  dsimp only
  rw [if_neg (by decide), if_neg hlog]
  rfl

/-- The parts of a finite float that was put together are those of which it was. -/
theorem unpack_pack_finite (hm : 0 < m) (h : IsCanonical m e) :
    UnpackedFloat.unpack .binary64 (UnpackedFloat.pack .binary64 (.finite s m e hm)) = .finite s m e hm := by
  have hlt := h.lt
  have hleast := h.least
  have hgreatest := h.greatest
  have hbias := bias_eq
  by_cases hfull : 2 ^ 52 ≤ m
  · have hexponent : (BitVec.ofNat 11 (e + 1075).toNat).toNat = (e + 1075).toNat := by
      rw [BitVec.toNat_ofNat]
      exact Nat.mod_eq_of_lt (by omega)
    have hmax : BitVec.ofNat 11 (e + 1075).toNat ≠ -1#11 := fun heq => by
      have hvalue := congrArg BitVec.toNat heq
      rw [hexponent] at hvalue
      have hnat : (-1#11).toNat = 2047 := by decide
      omega
    have hzero : BitVec.ofNat 11 (e + 1075).toNat ≠ 0#11 := fun heq => by
      have hvalue := congrArg BitVec.toNat heq
      rw [hexponent] at hvalue
      have hnat : (0#11).toNat = 0 := rfl
      omega
    have hdigits : (1#1 ++ BitVec.ofNat 52 m).toNat = m := by
      rw [toNat_one_append, BitVec.toNat_ofNat]
      omega
    rw [pack_full hm hfull h]
    unfold UnpackedFloat.unpack
    simp only [unpackMantissa_packComponents, unpackExponent_packComponents, unpackSign_packComponents,
      ofBitVec_toBitVec, hmax, hzero, if_false, hexponent, hdigits, UnpackedFloat.finite.injEq, true_and]
    rw [hbias]
    omega
  · obtain rfl : e = -1074 := h.full.resolve_left hfull
    have hdigits : (BitVec.ofNat 52 m).toNat = m := by
      rw [BitVec.toNat_ofNat]
      exact Nat.mod_eq_of_lt (by omega)
    have hsome : BitVec.ofNat 52 m ≠ 0#52 := fun heq => by
      have hvalue := congrArg BitVec.toNat heq
      rw [hdigits] at hvalue
      have hnat : (0#52).toNat = 0 := rfl
      omega
    have hmax : (0 : BitVec 11) ≠ -1#11 := by decide
    rw [pack_few hm (by omega)]
    unfold UnpackedFloat.unpack
    simp only [unpackMantissa_packComponents, unpackExponent_packComponents, unpackSign_packComponents,
      ofBitVec_toBitVec, hmax, hsome, if_false, dite_false, hdigits]
    rfl

/-- Bits are put together from the parts that they have, and these are those of a float. -/
theorem pack_unpack (hb : Format.binary64.Valid b) :
    UnpackedFloat.pack .binary64 (UnpackedFloat.unpack .binary64 b) = b ∧
      ∀ s m e hm, UnpackedFloat.unpack .binary64 b = .finite s m e hm → IsCanonical m e := by
  have hdigits : (unpackMantissa b).toNat < 2 ^ 52 := (unpackMantissa b).isLt
  have hexponent : (unpackExponent b).toNat < 2 ^ 11 := (unpackExponent b).isLt
  have hparts := packComponents_unpack b
  have hbias := bias_eq
  unfold UnpackedFloat.unpack
  dsimp only
  split
  · rename_i hmax
    split
    · rename_i hzero
      rw [hmax, hzero] at hparts
      exact ⟨hparts, fun _ _ _ _ heq => by cases heq⟩
    · rename_i hzero
      exact ⟨(hb.eq_packedNaN hmax hzero).symm, fun _ _ _ _ heq => by cases heq⟩
  · rename_i hmax
    have hmax : (unpackExponent b).toNat ≠ 2047 := fun heq => hmax (BitVec.eq_of_toNat_eq heq)
    split
    · rename_i hnone
      split
      · rename_i hzero
        rw [hnone, hzero] at hparts
        exact ⟨hparts, fun _ _ _ _ heq => by cases heq⟩
      · rename_i hzero
        have hpos : 0 < (unpackMantissa b).toNat :=
          Nat.pos_of_ne_zero fun heq => hzero (BitVec.eq_of_toNat_eq heq)
        refine ⟨?_, fun s m e hm heq => ?_⟩
        · rw [hnone] at hparts ⊢
          refine (pack_few hpos hdigits).trans ?_
          rw [BitVec.ofNat_toNat, BitVec.setWidth_eq]
          exact hparts
        · cases heq
          rw [hnone]
          exact ⟨hpos, by omega, by decide, by decide, .inr (by decide)⟩
    · rename_i hnone
      have hnone : (unpackExponent b).toNat ≠ 0 := fun heq => hnone (BitVec.eq_of_toNat_eq heq)
      have hcanonical : IsCanonical (1#1 ++ unpackMantissa b).toNat ((unpackExponent b).toNat - 1075) := by
        rw [toNat_one_append]
        exact ⟨by omega, by omega, by omega, by omega, .inl (by omega)⟩
      refine ⟨?_, fun s m e hm heq => ?_⟩
      · have hstored : ((unpackExponent b).toNat - 1075 + 1075 : ℤ).toNat = (unpackExponent b).toNat := by
          omega
        have hlow : BitVec.ofNat 52 (1#1 ++ unpackMantissa b).toNat = unpackMantissa b := by
          refine BitVec.eq_of_toNat_eq ?_
          rw [toNat_one_append, BitVec.toNat_ofNat]
          omega
        rw [hbias]
        refine (pack_full hcanonical.pos (toNat_one_append _ ▸ Nat.le_add_right _ _) hcanonical).trans ?_
        rw [hstored, hlow, BitVec.ofNat_toNat, BitVec.setWidth_eq]
        exact hparts
      · cases heq
        rw [hbias]
        exact hcanonical

theorem toNat_unpackMantissa (b : BitVec Format.binary64.numBits) :
    (unpackMantissa b).toNat = b.toNat % 2 ^ 52 := by
  unfold unpackMantissa
  rw [BitVec.toNat_cast, BitVec.extractLsb_toNat]
  rfl

theorem toNat_unpackExponent (b : BitVec Format.binary64.numBits) :
    (unpackExponent b).toNat = b.toNat / 2 ^ 52 % 2 ^ 11 := by
  unfold unpackExponent
  rw [BitVec.toNat_cast, BitVec.extractLsb_toNat, Nat.shiftRight_eq_div_pow]
  rfl

theorem toNat_unpackSign (b : BitVec Format.binary64.numBits) :
    (unpackSign b).toNat = b.toNat / 2 ^ 63 := by
  have hb : b.toNat < 2 ^ 64 := b.isLt
  unfold unpackSign
  rw [BitVec.toNat_cast, BitVec.extractLsb_toNat, Nat.shiftRight_eq_div_pow]
  show b.toNat / 2 ^ 63 % 2 = _
  omega

end

/-! ## Floats -/

/-- The float with these parts. -/
def ofParts (u : UnpackedFloat) : Float := .ofModel (.pack u)

/-- The parts of a float. -/
def parts (x : Float) : UnpackedFloat := x.toModel.unpack

theorem ofParts_parts (x : Float) : ofParts (parts x) = x := by
  have hbits := (pack_unpack x.toModel.valid).1
  unfold ofParts parts Float.Model.pack Float.Model.unpack
  simp only [hbits]

theorem isCanonical_of_parts {x : Float} {s : Sign} {m : ℕ} {e : ℤ} {hm : 0 < m}
    (h : parts x = .finite s m e hm) : IsCanonical m e :=
  (pack_unpack x.toModel.valid).2 s m e hm h

theorem parts_ofParts {s : Sign} {m : ℕ} {e : ℤ} (hm : 0 < m) (h : IsCanonical m e) :
    parts (ofParts (.finite s m e hm)) = .finite s m e hm :=
  unpack_pack_finite hm h

/-- Whether a number is negative. -/
def isNegative : Sign → Bool
  | .negative => true
  | .positive => false

/-- The exact value of a float by its parts. -/
theorem binary?_eq (x : Float) : binary? x =
    match parts x with
    | .finite s m e _ => some ⟨isNegative s, m, e⟩
    | .zero s => some ⟨isNegative s, 0, -1074⟩
    | .infinity _ | .notANumber => none := by
  obtain ⟨b, hb⟩ : ∃ b : BitVec Format.binary64.numBits, b = x.toModel.toBits.toBitVec := ⟨_, rfl⟩
  have hbits : x.toBits.toNat = b.toNat := by
    rw [hb]
    rfl
  have hparts : parts x = UnpackedFloat.unpack .binary64 b := by
    rw [hb]
    rfl
  have hdigits := toNat_unpackMantissa b
  have hexponent := toNat_unpackExponent b
  have hsign : (b.toNat / 2 ^ 63 == 1) = isNegative (Sign.ofBitVec (unpackSign b)) := by
    rw [← toNat_unpackSign]
    rcases BitVec.eq_zero_or_eq_one (unpackSign b) with h | h <;> rw [h] <;> rfl
  unfold binary?
  rw [hbits, hparts]
  unfold UnpackedFloat.unpack
  dsimp only
  rw [show b.toNat / Nat.pow 2 52 % Nat.pow 2 11 = (unpackExponent b).toNat from hexponent.symm,
    show b.toNat % Nat.pow 2 52 = (unpackMantissa b).toNat from hdigits.symm,
    show (b.toNat / Nat.pow 2 63 == 1) = _ from hsign]
  by_cases hmax : unpackExponent b = -1#_
  · have hvalue : ((unpackExponent b).toNat == 2047) = true := by
      rw [hmax]
      rfl
    rw [if_pos hvalue, if_pos hmax]
    by_cases hzero : unpackMantissa b = 0#_
    · rw [if_pos hzero]
    · rw [if_neg hzero]
  · have hvalue : ¬((unpackExponent b).toNat == 2047) = true := fun heq =>
      hmax (BitVec.eq_of_toNat_eq (beq_iff_eq.mp heq))
    rw [if_neg hvalue, if_neg hmax]
    by_cases hnone : unpackExponent b = 0#_
    · have hvalue : ((unpackExponent b).toNat == 0) = true := by
        rw [hnone]
        rfl
      rw [if_pos hvalue, if_pos hnone]
      by_cases hzero : unpackMantissa b = 0#_
      · rw [dif_pos hzero, hzero]
        rfl
      · rw [dif_neg hzero, hnone]
        rfl
    · have hvalue : ¬((unpackExponent b).toNat == 0) = true := fun heq =>
        hnone (BitVec.eq_of_toNat_eq (beq_iff_eq.mp heq))
      rw [if_neg hvalue, if_neg hnone, bias_eq]
      dsimp only
      rw [toNat_one_append]
      rfl

/-! ## Intervals -/

/-- How many quarters of the last digit the interval of a float reaches down. Below a power of two the next
float is only half as far. -/
def reach (m : ℕ) (q : ℤ) : ℕ := if m = 2 ^ 52 ∧ -1074 < q then 1 else 2

/-- The number lies in the interval of the float. -/
structure Rounds (v : ℚ) (m : ℕ) (q : ℤ) : Prop where
  low : (4 * m - reach m q) * 2 ^ (q - 2) ≤ v
  high : v ≤ (4 * m + 2) * 2 ^ (q - 2)
  inside : m % 2 = 1 → (4 * m - reach m q) * 2 ^ (q - 2) < v ∧ v < (4 * m + 2) * 2 ^ (q - 2)

theorem reach_le (m : ℕ) (q : ℤ) : (reach m q : ℚ) ≤ 2 := by
  unfold reach
  split <;> norm_num

/-! ## Digits and what is left -/

/-- The digits, a bit after them and a bit for the rest stand for the number, so far as they tell. -/
def Represents : ExtendedMantissa → ℚ → Prop
  | ⟨m, false, false⟩, v => v = m
  | ⟨m, false, true⟩, v => m < v ∧ v < m + 1 / 2
  | ⟨m, true, false⟩, v => v = m + 1 / 2
  | ⟨m, true, true⟩, v => m + 1 / 2 < v ∧ v < m + 1

theorem Represents.bounds {em : ExtendedMantissa} {v : ℚ} (h : Represents em v) :
    em.mantissa ≤ v ∧ v < em.mantissa + 1 := by
  rcases em with ⟨m, _ | _, _ | _⟩ <;> simp only [Represents] at h ⊢ <;> constructor <;> linarith

theorem Represents.shiftRightOne {em : ExtendedMantissa} {v : ℚ} (h : Represents em v) :
    Represents em.shiftRightOne (v / 2) := by
  rcases em with ⟨m, r, s⟩
  obtain ⟨k, hk | hk⟩ : ∃ k, m = 2 * k ∨ m = 2 * k + 1 := ⟨m / 2, by omega⟩
  · have hdiv : m / 2 = k := by omega
    have hbit : (m % 2 != 0) = false := by simp [hk]
    have hcast : (m : ℚ) = 2 * k := by exact_mod_cast hk
    unfold ExtendedMantissa.shiftRightOne
    dsimp only
    rw [hdiv, hbit]
    rcases r with _ | _ <;> rcases s with _ | _ <;> simp only [Represents, Bool.or_false, Bool.or_true,
      hcast] at h ⊢ <;> first | linarith | constructor <;> linarith
  · have hdiv : m / 2 = k := by omega
    have hbit : (m % 2 != 0) = true := by
      have hmod : m % 2 = 1 := by omega
      rw [hmod]
      rfl
    have hcast : (m : ℚ) = 2 * k + 1 := by exact_mod_cast hk
    unfold ExtendedMantissa.shiftRightOne
    dsimp only
    rw [hdiv, hbit]
    rcases r with _ | _ <;> rcases s with _ | _ <;> simp only [Represents, Bool.or_false, Bool.or_true,
      hcast] at h ⊢ <;> first | linarith | constructor <;> linarith

theorem Represents.shiftRight {em : ExtendedMantissa} {v : ℚ} (h : Represents em v) (n : ℕ) :
    Represents (em >>> n) (v / 2 ^ n) := by
  induction n with
  | zero =>
      rw [pow_zero, div_one]
      exact h
  | succ n ih =>
      have hnext := ih.shiftRightOne
      rw [div_div, ← pow_succ] at hnext
      exact hnext

/-- The digits are rounded to the whole number in whose interval the number lies. -/
theorem Represents.roundedMantissa_eq {em : ExtendedMantissa} {v : ℚ} (h : Represents em v) {r : ℕ}
    (hlow : r - 1 / 2 ≤ v) (hhigh : v ≤ r + 1 / 2) (hinside : r % 2 = 1 → r - 1 / 2 < v ∧ v < r + 1 / 2) :
    em.roundedMantissa = r := by
  rcases em with ⟨m, _ | _, _ | _⟩ <;> simp only [Represents] at h
  · have hle : (m : ℚ) < r + 1 := by linarith
    have hge : (r : ℚ) < m + 1 := by linarith
    have hle : m < r + 1 := by exact_mod_cast hle
    have hge : r < m + 1 := by exact_mod_cast hge
    show m = r
    omega
  · have hle : (m : ℚ) < r + 1 := by linarith
    have hge : (r : ℚ) < m + 1 := by linarith
    have hle : m < r + 1 := by exact_mod_cast hle
    have hge : r < m + 1 := by exact_mod_cast hge
    show m = r
    omega
  · have hle : (m : ℚ) < r + 1 := by linarith
    have hge : (r : ℚ) < m + 2 := by linarith
    have hle : m < r + 1 := by exact_mod_cast hle
    have hge : r < m + 2 := by exact_mod_cast hge
    -- half way, the even neighbour is taken
    show m + m % 2 = r
    obtain hr | hr : r = m ∨ r = m + 1 := by omega
    · have heven : r % 2 ≠ 1 := fun hodd => by
        have hlt := (hinside hodd).2
        rw [hr] at hlt
        linarith
      omega
    · have heven : r % 2 ≠ 1 := fun hodd => by
        have hlt := (hinside hodd).1
        rw [hr] at hlt
        push_cast at hlt
        linarith
      omega
  · have hle : (m : ℚ) < r := by linarith
    have hge : (r : ℚ) < m + 2 := by linarith
    have hle : m < r := by exact_mod_cast hle
    have hge : r < m + 2 := by exact_mod_cast hge
    show m + 1 = r
    omega

/-! ## Rounding -/

/-- The exponent to which digits and an exponent are brought. -/
def target (m : ℕ) (e : ℤ) : ℤ := Format.binary64.targetExponent (totalExponent m e)

theorem target_eq (m : ℕ) (e : ℤ) : target m e = max (m.log2 + 1 + e - 53) (-1074) := by
  have hdigits : (Format.binary64.mantissaBits : ℤ) = 53 := by decide
  have hleast : Format.binary64.minExponent = -1074 := by decide
  unfold target Format.targetExponent totalExponent
  rw [hdigits, hleast]

theorem shiftToTargetExponent_eq (m : ℕ) (e : ℤ) (a : Accuracy) :
    shiftToTargetExponent .binary64 m e a =
      (ExtendedMantissa.ofMantissaAndAccuracy m a >>> (target m e - e).toNat,
        e + (target m e - e).toNat) := rfl

theorem mantissa_ofMantissaAndAccuracy (m : ℕ) (a : Accuracy) :
    (ExtendedMantissa.ofMantissaAndAccuracy m a).mantissa = m := by
  rcases a with _ | _ | _ | _ <;> rfl

theorem zpow_two_pos (e : ℤ) : (0 : ℚ) < 2 ^ e := zpow_pos (by norm_num) e

theorem zpow_two_lt {a b : ℤ} : (2 : ℚ) ^ a < 2 ^ b ↔ a < b := zpow_lt_zpow_iff_right₀ (by norm_num)

theorem zpow_two_add (a : ℤ) (n : ℕ) : (2 : ℚ) ^ (a + n) = 2 ^ n * 2 ^ a := by
  rw [zpow_add₀ (by norm_num), zpow_natCast, mul_comm]

/-- How large a number is, by its digits. -/
theorem Represents.size {m : ℕ} {e : ℤ} {a : Accuracy} {v : ℚ}
    (h : Represents (.ofMantissaAndAccuracy m a) (v / 2 ^ e)) (hm : m ≠ 0) :
    2 ^ (m.log2 + e) ≤ v ∧ v < 2 ^ (m.log2 + 1 + e) := by
  obtain ⟨hlow, hhigh⟩ := h.bounds
  rw [mantissa_ofMantissaAndAccuracy] at hlow hhigh
  have hdigits : ((2 ^ m.log2 : ℕ) : ℚ) ≤ m := by exact_mod_cast Nat.log2_self_le hm
  have hnext : ((m + 1 : ℕ) : ℚ) ≤ (2 ^ (m.log2 + 1) : ℕ) := by exact_mod_cast Nat.lt_log2_self
  push_cast at hdigits hnext
  have hpos := zpow_two_pos e
  constructor
  · rw [add_comm, zpow_two_add]
    exact (le_div_iff₀ hpos).mp (hdigits.trans hlow)
  · have hcast : ((m.log2 : ℤ) + 1 + e) = e + ((m.log2 + 1 : ℕ) : ℤ) := by push_cast; ring
    rw [hcast, zpow_two_add]
    exact (div_lt_iff₀ hpos).mp (hhigh.trans_le hnext)

variable {m : ℕ} {q : ℤ} {v : ℚ}

/-- A number in the interval of a float is brought to the exponent of the float; or else it lies below a
power of two, and is brought to the exponent before. -/
theorem Rounds.target_eq (h : Rounds v m q) (hc : IsCanonical m q) {n : ℕ} {e : ℤ} {a : Accuracy}
    (hv : Represents (.ofMantissaAndAccuracy n a) (v / 2 ^ e)) (he : e ≤ target n e) :
    target n e = q ∨ target n e = q - 1 ∧ m = 2 ^ 52 ∧ -1074 < q ∧ v < 2 ^ 54 * 2 ^ (q - 2) := by
  have hpos := zpow_two_pos (q - 2)
  have hreach := reach_le m q
  have hone : (1 : ℚ) ≤ m := by exact_mod_cast hc.pos
  have hlt : (m : ℚ) ≤ 2 ^ 53 - 1 := by
    have hcast : ((m + 1 : ℕ) : ℚ) ≤ (2 ^ 53 : ℕ) := by exact_mod_cast hc.lt
    push_cast at hcast
    linarith
  have hlow : (4 * m - 2) * 2 ^ (q - 2) ≤ v := le_trans (by nlinarith) h.low
  have hpower (k : ℕ) : (2 : ℚ) ^ (q - 2 + k) = 2 ^ k * 2 ^ (q - 2) := zpow_two_add _ _
  rw [Decimal.target_eq] at he ⊢
  by_cases hn : n = 0
  · -- less than the least float, which has the least exponent
    obtain ⟨-, hsmall⟩ := hv.bounds
    rw [mantissa_ofMantissaAndAccuracy, hn, Nat.cast_zero, zero_add, div_lt_one (zpow_two_pos e)] at hsmall
    rw [hn, Nat.log2_zero] at he ⊢
    have hle : (2 : ℚ) ^ e ≤ 2 ^ (q - 2 + (2 : ℕ)) :=
      zpow_le_zpow_right₀ (by norm_num) (by have := hc.least; push_cast; omega)
    rw [hpower] at hle
    rcases hc.full with hfull | hleast
    · have hfull : (2 : ℚ) ^ 52 ≤ m := by exact_mod_cast hfull
      nlinarith
    · exact .inl (by omega)
  · obtain ⟨hfrom, hto⟩ := hv.size hn
    have hbelow : (2 : ℚ) ^ ((n.log2 : ℤ) + e) < 2 ^ (q - 2 + (55 : ℕ)) := by
      rw [hpower]
      nlinarith [h.high]
    have hbelow := zpow_two_lt.mp hbelow
    rcases hc.full with hfull | hleast
    · by_cases hpast : 2 ^ 54 * 2 ^ (q - 2) ≤ v
      · have habove : (2 : ℚ) ^ (q - 2 + (54 : ℕ)) < 2 ^ ((n.log2 : ℤ) + 1 + e) := by
          rw [hpower]
          exact hpast.trans_lt hto
        have habove := zpow_two_lt.mp habove
        have := hc.least
        exact .inl (by push_cast at hbelow habove; omega)
      · have hpast : v < 2 ^ 54 * 2 ^ (q - 2) := not_le.mp hpast
        have hm : m = 2 ^ 52 := by
          by_contra hne
          have hmore : ((2 ^ 52 + 1 : ℕ) : ℚ) ≤ m := by exact_mod_cast (by omega : 2 ^ 52 + 1 ≤ m)
          push_cast at hmore
          nlinarith
        have hbelow : (2 : ℚ) ^ ((n.log2 : ℤ) + e) < 2 ^ (q - 2 + (54 : ℕ)) := by
          rw [hpower]
          exact hfrom.trans_lt hpast
        have hbelow := zpow_two_lt.mp hbelow
        push_cast at hbelow
        by_cases hleast : q = -1074
        · exact .inl (by omega)
        · have hmore : -1074 < q := lt_of_le_of_ne hc.least (Ne.symm hleast)
          have hone : reach m q = 1 := if_pos ⟨hm, hmore⟩
          have habove : (2 : ℚ) ^ (q - 2 + (53 : ℕ)) < 2 ^ ((n.log2 : ℤ) + 1 + e) := by
            rw [hpower]
            have hfrom := h.low
            rw [hone, hm] at hfrom
            push_cast at hfrom
            refine lt_of_le_of_lt (le_trans ?_ hfrom) hto
            nlinarith
          have habove := zpow_two_lt.mp habove
          push_cast at habove
          exact .inr ⟨by omega, hm, hmore, hpast⟩
    · push_cast at hbelow
      exact .inl (by omega)

/-- Digits that are a float's own stay as they are. -/
theorem shiftToTargetExponent_canonical (hc : IsCanonical m q) :
    shiftToTargetExponent .binary64 m q .exact = (⟨m, false, false⟩, q) := by
  have hlog : m.log2 < 53 := (Nat.log2_lt hc.pos.ne').mpr hc.lt
  have hnone : (target m q - q).toNat = 0 := by
    have := hc.least
    rw [target_eq]
    omega
  rw [shiftToTargetExponent_eq, hnone, Nat.cast_zero, add_zero]
  rfl

/-- One digit too many is left out. -/
theorem shiftToTargetExponent_power (hq : -1074 < q) :
    shiftToTargetExponent .binary64 (2 ^ 53) (q - 1) .exact = (⟨2 ^ 52, false, false⟩, q) := by
  have hone : (target (2 ^ 53) (q - 1) - (q - 1)).toNat = 1 := by
    rw [target_eq, Nat.log2_two_pow]
    omega
  rw [shiftToTargetExponent_eq, hone, Nat.cast_one, sub_add_cancel]
  rfl

/-- What is known of a number, to enough digits, is rounded to the float in whose interval the number
lies. -/
theorem roundWithAccuracy_eq (s : Sign) (h : Rounds v m q) (hc : IsCanonical m q) {n : ℕ} {e : ℤ}
    {a : Accuracy} (hv : Represents (.ofMantissaAndAccuracy n a) (v / 2 ^ e)) (he : e ≤ target n e) :
    roundWithAccuracy .binary64 s n e a = .finite s m q hc.pos := by
  have hpos := zpow_two_pos (q - 2)
  have hbrought : e + (target n e - e).toNat = target n e := by omega
  have hshifted : Represents (ExtendedMantissa.ofMantissaAndAccuracy n a >>> (target n e - e).toNat)
      (v / 2 ^ target n e) := by
    have hshift := hv.shiftRight (target n e - e).toNat
    rwa [div_div, ← zpow_natCast, ← zpow_add₀ (by norm_num), hbrought] at hshift
  unfold roundWithAccuracy
  rw [shiftToTargetExponent_eq, hbrought]
  dsimp only
  rcases h.target_eq hc hv he with htarget | ⟨htarget, hm, hq, hbelow⟩
  · rw [htarget] at hshifted ⊢
    have hquarter : (2 : ℚ) ^ q = 4 * 2 ^ (q - 2) := by
      have hpower := zpow_two_add (q - 2) 2
      norm_num at hpower
      exact hpower
    have hreach := reach_le m q
    have hrounded := hshifted.roundedMantissa_eq (r := m)
      ((le_div_iff₀ (zpow_two_pos q)).mpr (by rw [hquarter]; nlinarith [h.low]))
      ((div_le_iff₀ (zpow_two_pos q)).mpr (by rw [hquarter]; nlinarith [h.high]))
      fun hodd => ⟨(lt_div_iff₀ (zpow_two_pos q)).mpr (by rw [hquarter]; nlinarith [(h.inside hodd).1]),
        (div_lt_iff₀ (zpow_two_pos q)).mpr (by rw [hquarter]; nlinarith [(h.inside hodd).2])⟩
    rw [hrounded, shiftToTargetExponent_canonical hc, dif_neg hc.pos.ne']
  · subst hm
    rw [htarget] at hshifted ⊢
    have hhalf : (2 : ℚ) ^ (q - 1) = 2 * 2 ^ (q - 2) := by
      have hpower := zpow_two_add (q - 2) 1
      norm_num at hpower
      rw [← hpower]
      congr 1
      omega
    have hlow := h.low
    rw [show reach (2 ^ 52) q = 1 from if_pos ⟨rfl, hq⟩] at hlow
    push_cast at hlow
    have hrounded := hshifted.roundedMantissa_eq (r := 2 ^ 53)
      ((le_div_iff₀ (zpow_two_pos (q - 1))).mpr (by rw [hhalf]; push_cast; nlinarith))
      ((div_le_iff₀ (zpow_two_pos (q - 1))).mpr (by rw [hhalf]; push_cast; nlinarith))
      (fun hodd => absurd hodd (by decide))
    rw [hrounded, shiftToTargetExponent_power hq, dif_neg (by norm_num)]

end FactIndex.Decimal

import Mathlib.Data.Prod.Lex
import Mathlib.Order.Compare

/-!
# The order of floating-point numbers

Floating-point numbers are in line by sign, by exponent and by digits, but for the one that is no number,
which compares with nothing.

## Main definitions

* `place`: where a number stands in the line.
* `lt_of_lt_of_le`, `le_of_le_of_le`, `not_le_of_lt`, `beq_zero_of_pos`: what follows for comparisons.
-/

namespace FactIndex.Decimal

open Float.Model Float.Model.UnpackedFloat

/-- Where a number stands: negative numbers with large exponents come first. -/
def place : UnpackedFloat → Option (ℤ ×ₗ ℤ ×ₗ ℤ)
  | .notANumber => none
  | .infinity .negative => some (toLex (-2, toLex (0, 0)))
  | .finite .negative m e _ => some (toLex (-1, toLex (-e, -m)))
  | .zero _ => some (toLex (0, toLex (0, 0)))
  | .finite .positive m e _ => some (toLex (1, toLex (e, m)))
  | .infinity .positive => some (toLex (2, toLex (0, 0)))

section

variable {m m' : ℕ} {e e' : ℤ}

theorem then_eq_lt : (compare e e').then (compare m m') = .lt ↔ e < e' ∨ e = e' ∧ m < m' := by
  rw [Ordering.then_eq_lt, compare_lt_iff_lt, compare_eq_iff_eq, Nat.compare_eq_lt]

theorem then_eq_gt : (compare e e').then (compare m m') = .gt ↔ e' < e ∨ e = e' ∧ m' < m := by
  rw [Ordering.then_eq_gt, compare_gt_iff_gt, compare_eq_iff_eq, Nat.compare_eq_gt]

end

variable {x y : UnpackedFloat}

/-- Numbers compare as their places do. -/
theorem place_of_compare {o : Ordering} (h : x.compare y = some o) :
    ∃ a b, place x = some a ∧ place y = some b ∧ (o = .lt ↔ a < b) ∧ (o = .gt ↔ b < a) := by
  rcases x with (_ | _) | _ | _ | ⟨_ | _, m, e, hm⟩ <;>
    rcases y with (_ | _) | _ | _ | ⟨_ | _, m', e', hm'⟩ <;> cases h <;>
      refine ⟨_, _, rfl, rfl, ?_⟩ <;> simp only [Prod.Lex.toLex_lt_toLex] <;>
        first | decide | simp [then_eq_lt, then_eq_gt] <;> omega

/-- What has a place can be compared. -/
theorem compare_of_place {a b : ℤ ×ₗ ℤ ×ₗ ℤ} (hx : place x = some a) (hy : place y = some b) :
    ∃ o, x.compare y = some o ∧ (o = .lt ↔ a < b) ∧ (o = .gt ↔ b < a) := by
  obtain ⟨o, ho⟩ : ∃ o, x.compare y = some o := by
    rcases x with (_ | _) | _ | _ | ⟨_ | _, m, e, hm⟩ <;>
      rcases y with (_ | _) | _ | _ | ⟨_ | _, m', e', hm'⟩ <;> cases hx <;> cases hy <;>
        exact ⟨_, rfl⟩
  obtain ⟨a', b', hx', hy', hiff⟩ := place_of_compare ho
  cases hx.symm.trans hx'
  cases hy.symm.trans hy'
  exact ⟨o, ho, hiff⟩

/-! ## Comparisons of floating-point numbers -/

theorem lt_iff (x y : Float) : x < y ↔ ∃ a b, place x.toModel.unpack = some a ∧
    place y.toModel.unpack = some b ∧ a < b := by
  have hlt : x < y ↔ x.toModel.unpack.compare y.toModel.unpack = some .lt := by
    show decide (x.toModel < y.toModel) = true ↔ _
    rw [decide_eq_true_iff]
    exact beq_iff_eq
  rw [hlt]
  constructor
  · intro h
    obtain ⟨a, b, hx, hy, hab, -⟩ := place_of_compare h
    exact ⟨a, b, hx, hy, hab.mp rfl⟩
  · rintro ⟨a, b, hx, hy, hab⟩
    obtain ⟨o, ho, hlt, -⟩ := compare_of_place hx hy
    rw [ho, hlt.mpr hab]

theorem le_iff (x y : Float) : x ≤ y ↔ ∃ a b, place x.toModel.unpack = some a ∧
    place y.toModel.unpack = some b ∧ a ≤ b := by
  have hle : x ≤ y ↔ (x.toModel.unpack.compare y.toModel.unpack).any (·.isLE) = true := by
    show decide (x.toModel ≤ y.toModel) = true ↔ _
    rw [decide_eq_true_iff]
    rfl
  rw [hle]
  constructor
  · intro h
    cases hcompare : x.toModel.unpack.compare y.toModel.unpack with
    | none =>
        rw [hcompare] at h
        cases h
    | some o =>
        obtain ⟨a, b, hx, hy, -, hab⟩ := place_of_compare hcompare
        refine ⟨a, b, hx, hy, not_lt.mp fun hba => ?_⟩
        rw [hcompare, hab.mpr hba] at h
        cases h
  · rintro ⟨a, b, hx, hy, hab⟩
    obtain ⟨o, ho, -, hgt⟩ := compare_of_place hx hy
    rw [ho]
    cases o with
    | gt => exact absurd (hgt.mp rfl) (not_lt.mpr hab)
    | _ => rfl

variable {a b c : Float}

theorem lt_of_lt_of_le (hab : a < b) (hbc : b ≤ c) : a < c := by
  obtain ⟨i, j, hi, hj, hij⟩ := (lt_iff a b).mp hab
  obtain ⟨j', k, hj', hk, hjk⟩ := (le_iff b c).mp hbc
  cases hj.symm.trans hj'
  exact (lt_iff a c).mpr ⟨i, k, hi, hk, hij.trans_le hjk⟩

theorem le_of_le_of_le (hab : a ≤ b) (hbc : b ≤ c) : a ≤ c := by
  obtain ⟨i, j, hi, hj, hij⟩ := (le_iff a b).mp hab
  obtain ⟨j', k, hj', hk, hjk⟩ := (le_iff b c).mp hbc
  cases hj.symm.trans hj'
  exact (le_iff a c).mpr ⟨i, k, hi, hk, hij.trans hjk⟩

theorem le_of_lt (h : a < b) : a ≤ b := by
  obtain ⟨i, j, hi, hj, hij⟩ := (lt_iff a b).mp h
  exact (le_iff a b).mpr ⟨i, j, hi, hj, hij.le⟩

/-- A number that comes after zero is not zero. -/
theorem beq_zero_of_pos (h : 0 < a) : (a == 0) = false := by
  obtain ⟨i, j, hi, hj, hij⟩ := (lt_iff 0 a).mp h
  by_contra heq
  rw [Bool.not_eq_false] at heq
  have hcompare : a.toModel.unpack.compare (0 : Float).toModel.unpack = some .eq :=
    beq_iff_eq.mp heq
  obtain ⟨j', i', hj', hi', -, hgt⟩ := place_of_compare hcompare
  cases hi.symm.trans hi'
  cases hj.symm.trans hj'
  cases hgt.mpr hij

end FactIndex.Decimal

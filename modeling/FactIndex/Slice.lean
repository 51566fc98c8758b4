/-!
# Slices

Parts of a list between two positions. A negative position counts from the end.

## Main definitions

* `slice`: the part between two positions.
* `front`: the part before a position.
-/

namespace FactIndex

variable {α : Type}

/-- A position in a list of the given length. A negative one counts from the end. -/
def position (length : Nat) (i : Int) : Nat :=
  if 0 ≤ i then min i.toNat length else length - i.natAbs

/-- The part of a list between two positions. -/
def slice (xs : List α) (start stop : Int) : List α :=
  (xs.take (position xs.length stop)).drop (position xs.length start)

/-- The part of a list before a position. -/
def front (xs : List α) (stop : Int) : List α := xs.take (position xs.length stop)

@[simp] theorem front_ofNat (xs : List α) (n : Nat) : front xs n = xs.take n := by
  simp [front, position, List.take_eq_take_iff]

/-- From a position on, so and so many elements. -/
theorem slice_ofNat (xs : List α) (start size : Nat) :
    slice xs start (start + size : Nat) = (xs.drop start).take size := by
  simp only [slice, position, Int.natCast_nonneg, if_true, Int.toNat_natCast]
  rw [← List.take_eq_take_min, List.drop_take]
  by_cases h : start ≤ xs.length
  · rw [Nat.min_eq_left h]; congr 1; omega
  · have h : xs.length ≤ start := by omega
    rw [Nat.min_eq_right h, List.drop_eq_nil_of_le (Nat.le_refl _),
      List.drop_eq_nil_of_le h]
    simp

end FactIndex

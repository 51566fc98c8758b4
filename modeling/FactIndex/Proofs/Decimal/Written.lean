import FactIndex.Decimal.Numeral
import Mathlib.Data.List.TakeDrop
import Mathlib.Data.List.TakeWhile

/-!
# Whole numbers that are written and read

A whole number is written with a sign if it is negative and with decimal digits. Numeric fields and
numeric arguments both read it back.

## Main definitions

* `intChars`: the characters of a whole number.
* `fieldInt?_toString`, `argumentInt?_toString`: what is written is read.
-/

namespace FactIndex.Decimal

open FactIndex.Text

/-! ## Digits -/

/-- What holds of the ten digits holds of every digit. -/
theorem forall_isDigit {P : Char → Prop} (h : ∀ n < 10, P (Nat.digitChar n)) {c : Char}
    (hc : c.isDigit = true) : P c := by
  have hbounds : 48 ≤ c.toNat ∧ c.toNat ≤ 57 := by
    simp only [Char.isDigit, Bool.and_eq_true, decide_eq_true_eq] at hc
    exact ⟨UInt32.le_iff_toNat_le.mp hc.1, UInt32.le_iff_toNat_le.mp hc.2⟩
  have hlt : c.toNat - 48 < 10 := by omega
  have heq : Nat.digitChar (c.toNat - 48) = c := by
    apply Char.toNat_inj.mp
    rw [Nat.toNat_digitChar_of_lt_ten hlt]
    omega
  rw [← heq]
  exact h _ hlt

theorem isDigit_of_mem {n : Nat} {c : Char} (h : c ∈ Nat.toDigits 10 n) : c.isDigit = true :=
  Nat.isDigit_of_mem_toDigits (by decide) (by decide) h

theorem wholeOf_toDigits (n : Nat) : wholeOf (Nat.toDigits 10 n) = n :=
  Nat.ofDigitChars_toDigits (by decide) (by decide)

theorem whole_toDigits (n : Nat) : whole (Nat.toDigits 10 n) = some n := by
  have hdigits : (Nat.toDigits 10 n).all Char.isDigit = true :=
    List.all_eq_true.mpr fun _ => isDigit_of_mem
  simp [whole, hdigits, wholeOf_toDigits]

/-! ## Signs -/

/-- The characters of a whole number. -/
def intChars : Int → List Char
  | .ofNat n => Nat.toDigits 10 n
  | .negSucc n => '-' :: Nat.toDigits 10 (n + 1)

theorem toList_toString (n : Int) : (toString n).toList = intChars n := by
  cases n with
  | ofNat n => simp [intChars, Int.repr]
  | negSucc n => simp [intChars, Int.repr]

/-- A whole number has digits, perhaps after a hyphen. -/
theorem isDigit_of_mem_intChars {n : Int} {c : Char} (h : c ∈ intChars n) :
    c = '-' ∨ c.isDigit = true := by
  cases n with
  | ofNat n => exact .inr (isDigit_of_mem h)
  | negSucc n =>
      rcases List.mem_cons.mp h with h | h
      · exact .inl h
      · exact .inr (isDigit_of_mem h)

/-- What holds of the hyphen and of the ten digits holds of every character of a whole number. -/
theorem forall_mem_intChars {P : Char → Prop} (hsign : P '-') (h : ∀ n < 10, P (Nat.digitChar n))
    (n : Int) : ∀ c ∈ intChars n, P c := by
  intro c hc
  rcases isDigit_of_mem_intChars hc with rfl | hdigit
  · exact hsign
  · exact forall_isDigit h hdigit

theorem not_mem_intChars {c : Char} (hsign : c ≠ '-') (h : ∀ n < 10, c ≠ Nat.digitChar n) (n : Int) :
    c ∉ intChars n :=
  fun hc => forall_mem_intChars (P := (c ≠ ·)) hsign h n c hc rfl

/-- Only zero is written with a zero in front. -/
theorem eq_zero_of_front {n : Nat} {rest : List Char} (h : Nat.toDigits 10 n = '0' :: rest) :
    n = 0 := by
  induction n using Nat.strongRecOn generalizing rest with
  | ind n ih =>
      by_cases hn : n < 10
      · rw [Nat.toDigits_of_lt_base hn] at h
        simpa using (List.cons.inj h).1
      · rw [Nat.toDigits_of_base_le (by decide) (by omega)] at h
        rcases List.append_eq_cons_iff.mp h with ⟨hnil, _⟩ | ⟨front, hfront, _⟩
        · exact absurd hnil Nat.toDigits_ne_nil
        · have hzero := ih (n / 10) (by omega) hfront
          omega

/-- In front stands a hyphen or a digit, which is no zero unless it stands alone. -/
theorem front_intChars (n : Int) : ∃ c rest, intChars n = c :: rest ∧
    (c = '-' ∨ c.isDigit = true) ∧ (c = '0' → rest = []) := by
  cases n with
  | negSucc n => exact ⟨'-', _, rfl, .inl rfl, fun h => absurd h (by decide)⟩
  | ofNat n =>
      cases hn : Nat.toDigits 10 n with
      | nil => exact absurd hn Nat.toDigits_ne_nil
      | cons c rest =>
          refine ⟨c, rest, hn, .inr (isDigit_of_mem (n := n) (by simp [hn])), ?_⟩
          rintro rfl
          obtain rfl := eq_zero_of_front hn
          rw [Nat.toDigits_zero] at hn
          exact (List.cons.inj hn).2.symm

theorem ne_plus {c : Char} (h : c = '-' ∨ c.isDigit = true) : c ≠ '+' := by
  rcases h with rfl | h
  · decide
  · exact forall_isDigit (P := (· ≠ '+')) (by decide) h

/-- A whole number is read by its hyphen or else by its digits. -/
theorem read_intChars (n : Int) : (match intChars n with
    | '-' :: rest => (whole rest).map fun n => -(n : Int)
    | cs => (whole cs).map Int.ofNat) = some n := by
  cases n with
  | negSucc n =>
      show (whole (Nat.toDigits 10 (n + 1))).map (fun n => -(n : Int)) = _
      rw [whole_toDigits]
      rfl
  | ofNat n =>
      have hwhole := whole_toDigits n
      unfold intChars
      split
      · rename_i rest heq
        have hdigit : '-'.isDigit = true := isDigit_of_mem (n := n) (by simp [heq])
        cases hdigit
      · rw [hwhole]
        rfl

theorem signedInt?_intChars (n : Int) : signedInt? (intChars n) = some n := by
  have hread := read_intChars n
  obtain ⟨c, rest, hcs, hc, _⟩ := front_intChars n
  rw [hcs] at hread ⊢
  unfold signedInt?
  split
  · rename_i heq
    cases heq
    exact absurd rfl (ne_plus hc)
  · rename_i heq
    cases heq
    exact hread
  · rename_i hminus
    split at hread
    · rename_i heq
      exact absurd heq (hminus _)
    · exact hread

/-! ## White space and grouping marks -/

theorem trimWhere_of_forall {drop : Char → Bool} {cs : List Char} (h : ∀ c ∈ cs, drop c = false) :
    trimWhere drop cs = cs := by
  have hkeep : ∀ cs : List Char, (∀ c ∈ cs, drop c = false) → cs.dropWhile drop = cs := by
    intro cs h
    cases cs with
    | nil => rfl
    | cons c rest => simp [List.dropWhile, h c (by simp)]
  unfold trimWhere
  rw [hkeep cs h, hkeep _ fun c hc => h c (List.mem_reverse.mp hc), List.reverse_reverse]

theorem trimWhere_intChars (n : Int) : trimWhere isSpace (intChars n) = intChars n :=
  trimWhere_of_forall (forall_mem_intChars (by decide) (by decide) n)

theorem ungroup?_of_forall {cs : List Char} (h : ∀ c ∈ cs, c ≠ '_') (afterDigit : Bool) :
    ungroup? afterDigit cs = some cs := by
  induction cs generalizing afterDigit with
  | nil => rfl
  | cons c rest ih =>
      have hc : (c == '_') = false := by simpa using h c (by simp)
      have hrest := ih (fun d hd => h d (by simp [hd])) c.isDigit
      unfold ungroup?
      rw [hc, hrest]
      rfl

/-! ## Reading -/

/-- The text of a whole number is a numeric argument for it. -/
theorem argumentInt?_toString (n : Int) : argumentInt? (toString n) = some n := by
  have hdigits : normalDigits (toString n) = intChars n := by
    unfold normalDigits
    rw [toList_toString, trimWhere_intChars]
    refine (List.map_congr_left (g := id) ?_).trans (List.map_id _)
    intro c hc
    have hsame := forall_mem_intChars (P := fun c => (digitValue? c).elim c digitChar = c) rfl
      (by decide) n c hc
    split
    · rename_i d hd
      rwa [hd] at hsame
    · rfl
  have hmarks : ungroup? false (intChars n) = some (intChars n) :=
    ungroup?_of_forall (forall_mem_intChars (by decide) (by decide) n) false
  unfold argumentInt?
  rw [hdigits, hmarks]
  exact signedInt?_intChars n

/-- Different whole numbers are written differently. -/
theorem toString_injective : Function.Injective (toString : Int → String) := by
  intro m n h
  have hread := argumentInt?_toString m
  rw [h, argumentInt?_toString] at hread
  exact (Option.some.inj hread).symm

theorem hasDoubleMark_of_forall {cs : List Char} (h : ∀ c ∈ cs, c ≠ '_') :
    hasDoubleMark cs = false := by
  induction cs with
  | nil => rfl
  | cons c rest ih =>
      have hrest := ih fun d hd => h d (by simp [hd])
      unfold hasDoubleMark
      split
      · rename_i heq
        cases heq
        exact absurd rfl (h '_' (by simp))
      · rename_i heq
        cases heq
        exact hrest
      · rfl

theorem looseUngroup?_of_forall {cs : List Char} (h : ∀ c ∈ cs, c ≠ '_') :
    looseUngroup? cs = some cs := by
  have hfirst : (cs.head? == some '_') = false := by
    rw [beq_eq_false_iff_ne]
    exact fun heq => h '_' (List.mem_of_mem_head? heq) rfl
  have hlast : (cs.getLast? == some '_') = false := by
    rw [beq_eq_false_iff_ne]
    exact fun heq => h '_' (List.mem_of_getLast? heq) rfl
  have hall : cs.filter (· != '_') = cs :=
    List.filter_eq_self.mpr fun c hc => by simpa using h c hc
  unfold looseUngroup?
  rw [hfirst, hlast, hasDoubleMark_of_forall h, hall]
  rfl

theorem withoutZeroFraction_of_forall {cs : List Char} (h : ∀ c ∈ cs, c ≠ '.') :
    withoutZeroFraction cs = cs := by
  have hspan : cs.span (· != '.') = (cs, []) := by
    have hkeep : ∀ c ∈ cs, (c != '.') = true := fun c hc => by simpa using h c hc
    rw [List.span_eq_takeWhile_dropWhile, List.takeWhile_eq_self_iff.mpr hkeep,
      List.dropWhile_eq_nil_iff.mpr hkeep]
  unfold withoutZeroFraction
  rw [hspan]

/-- The text of a whole number is taken for it in a numeric field. -/
theorem fieldInt?_toString (n : Int) : fieldInt? (toString n) = some n := by
  have hloose : looseUngroup? (withoutZeroFraction (intChars n)) = some (intChars n) := by
    rw [withoutZeroFraction_of_forall (forall_mem_intChars (by decide) (by decide) n),
      looseUngroup?_of_forall (forall_mem_intChars (by decide) (by decide) n)]
  have hread := read_intChars n
  obtain ⟨c, rest, hcs, hc, hzero⟩ := front_intChars n
  have hfront : (c.isDigit || c == '-') = true := by
    rcases hc with rfl | hc
    · rfl
    · rw [hc]
      rfl
  unfold fieldInt?
  rw [toList_toString, trimWhere_intChars]
  rw [hcs] at hloose hread ⊢
  dsimp only
  split
  · rename_i heq
    cases heq
    exact absurd rfl (ne_plus hc)
  · rename_i heq
    cases heq
    exact absurd rfl (ne_plus hc)
  · rw [Option.bind_some]
    split
    · rename_i heq
      cases heq
      obtain rfl := hzero rfl
      exact hread
    · rename_i heq
      cases heq
      rw [if_pos hfront, Option.bind_some, hloose]
      exact hread
    · rename_i heq
      cases heq

end FactIndex.Decimal

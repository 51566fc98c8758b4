import FactIndex.Proofs.Decimal.Shortest
import FactIndex.Proofs.Decimal.Written
import FactIndex.Proofs.Json.Printed

/-!
# Floats that are written and read, and values that can be stored

The shortest decimal of a float is set with a point or with an exponent. In every place the point can have,
the text stands for the same value, and what is read for it is the float. Hence a value that is not nested
too deeply is read back from its text.

## Main definitions

* `Spells`: a text that is taken for a float, the one that is read for a decimal of this value.
* `spells_positional`, `spells_scientific`: the two ways in which digits are set.
* `readsFloat`: every float is read back from its text.
* `Fits`: a value that is nested so deep at most, whose objects have distinct keys.
* `Fits.isReadable`: its text is read back.
* `parse?_print_nest`: what is nested deeper is not read back.
-/

namespace FactIndex.Json

open FactIndex.Decimal Float.Model Float.Model.UnpackedFloat

variable {front back tail : List Char} {k lead : ℤ} {n : ℕ} {v : ℚ}

/-! ## Digits -/

/-- Zeros at the end are so many powers of ten. -/
theorem wholeOf_append_replicate (digits : List Char) (k : ℕ) :
    wholeOf (digits ++ List.replicate k '0') = wholeOf digits * 10 ^ k :=
  (Nat.ofDigitChars_append 0).trans (Nat.ofDigitChars_replicate_zero.trans (mul_comm _ _))

/-- Zeros in front do not count. -/
theorem wholeOf_replicate_append (k : ℕ) (digits : List Char) :
    wholeOf (List.replicate k '0' ++ digits) = wholeOf digits := by
  have hzero : Nat.ofDigitChars 10 (List.replicate k '0') 0 = 0 := Nat.ofDigitChars_replicate_zero
  refine (Nat.ofDigitChars_append 0).trans ?_
  rw [hzero]
  rfl

theorem isDigit_replicate {c : Char} {k : ℕ} (h : c ∈ List.replicate k '0') : c.isDigit = true := by
  rw [List.eq_of_mem_replicate h]
  rfl

/-- The digits at the front end where something else begins. -/
theorem spanDigits_append (hfront : ∀ c ∈ front, c.isDigit = true) (htail : ∀ c ∈ tail.head?, c.isDigit = false) :
    spanDigits (front ++ tail) = (front, tail) := by
  have hstop : tail.takeWhile Char.isDigit = [] ∧ tail.dropWhile Char.isDigit = tail := by
    cases tail with
    | nil => exact ⟨rfl, rfl⟩
    | cons c rest =>
        have hc := htail c rfl
        rw [List.takeWhile_cons, List.dropWhile_cons, hc]
        exact ⟨rfl, rfl⟩
  unfold spanDigits
  rw [List.span_eq_takeWhile_dropWhile, List.takeWhile_append_of_pos hfront, List.dropWhile_append_of_pos hfront,
    hstop.1, hstop.2, List.append_nil]

/-- Digits of a whole number: there are some, and a zero stands in front only if it stands alone. -/
structure IsWhole (front : List Char) : Prop where
  digits : ∀ c ∈ front, c.isDigit = true
  front : ∃ c rest, front = c :: rest ∧ (c = '0' → rest = [])

theorem isWhole_toDigits (n : ℕ) : IsWhole (Nat.toDigits 10 n) := by
  obtain ⟨c, rest, heq, -, hzero⟩ := front_intChars n
  exact ⟨fun _ => isDigit_of_mem, c, rest, heq, hzero⟩

/-- More digits may follow, unless the number is zero. -/
theorem isWhole_append (hn : 0 < n) (hback : ∀ c ∈ back, c.isDigit = true) : IsWhole (Nat.toDigits 10 n ++ back) := by
  obtain ⟨hdigits, c, rest, heq, -⟩ := isWhole_toDigits n
  refine ⟨fun d hd => (List.mem_append.mp hd).elim (hdigits d) (hback d), c, rest ++ back, ?_, ?_⟩
  · rw [heq, List.cons_append]
  · rintro rfl
    exact absurd (eq_zero_of_front heq) hn.ne'

/-- The first digits of a number. -/
theorem isWhole_take (hn : 0 < n) (k : ℕ) : IsWhole ((Nat.toDigits 10 n).take (k + 1)) := by
  obtain ⟨hdigits, c, rest, heq, -⟩ := isWhole_toDigits n
  refine ⟨fun d hd => hdigits d (List.mem_of_mem_take hd), c, rest.take k, ?_, ?_⟩
  · rw [heq, List.take_succ_cons]
  · rintro rfl
    exact absurd (eq_zero_of_front heq) hn.ne'

/-! ## Texts with a point or with an exponent -/

/-- The text starts with a digit and is taken for a float, the one that is read for a decimal of this
value. -/
def Spells (text : List Char) (v : ℚ) : Prop :=
  (∃ c rest, text = c :: rest ∧ c.isDigit = true) ∧ ∃ (n : ℕ) (e : ℤ), (n : ℚ) * 10 ^ e = v ∧
    ∀ negative, unsignedNumber? negative text = some (.float (if negative then -scaled n e else scaled n e))

/-- Where something follows the digits, the text is taken for a float. -/
theorem unsignedNumber?_eq {cs : List Char} (hspan : spanDigits cs = (front, tail)) (hfront : IsWhole front)
    (htail : tail ≠ []) (hpoint : ∀ rest, tail = '.' :: rest → (spanDigits rest).1 ≠ []) (negative : Bool) :
    unsignedNumber? negative cs =
      (decimal? cs).map fun d => .float (if negative then -scaled d.1 d.2 else scaled d.1 d.2) := by
  unfold unsignedNumber?
  rw [hspan]
  dsimp only
  rw [if_neg, if_neg]
  · rw [List.isEmpty_iff]
    exact htail
  · rw [Bool.or_eq_true, Bool.not_eq_true', Bool.not_eq_true']
    rintro (hbad | hbad)
    · obtain ⟨-, c, rest, rfl, hzero⟩ := hfront
      split at hbad
      · rename_i heq
        cases heq
      · rename_i heq
        cases heq
        cases hzero rfl
      · cases hbad
    · split at hbad
      · rename_i rest
        rw [Bool.not_eq_false', List.isEmpty_iff] at hbad
        exact hpoint rest rfl hbad
      · cases hbad

theorem IsWhole.starts (h : IsWhole front) (rest : List Char) : ∃ c cs, front ++ rest = c :: cs ∧ c.isDigit = true := by
  obtain ⟨hdigits, c, cs, rfl, -⟩ := h
  exact ⟨c, cs ++ rest, rfl, hdigits c List.mem_cons_self⟩

/-- Digits with a point among them, perhaps with an exponent. -/
theorem spells_point (hfront : IsWhole front) (hback : ∀ c ∈ back, c.isDigit = true) (hsome : back ≠ [])
    (htail : exponent? tail = some k) (hstop : ∀ c ∈ tail.head?, c.isDigit = false) :
    Spells (front ++ '.' :: (back ++ tail)) (wholeOf (front ++ back) * 10 ^ (k - back.length)) := by
  have hspan : spanDigits (front ++ '.' :: (back ++ tail)) = (front, '.' :: (back ++ tail)) :=
    spanDigits_append hfront.digits (by rintro _ ⟨⟩; rfl)
  have hnext : spanDigits (back ++ tail) = (back, tail) := spanDigits_append hback hstop
  have hnonempty : back.isEmpty = false := by simpa using hsome
  have hdecimal : decimal? (front ++ '.' :: (back ++ tail)) = some (wholeOf (front ++ back), k - back.length) := by
    unfold decimal?
    simp only [hspan, hnext, hnonempty, Bool.and_false, Bool.false_eq_true, if_false, htail, Option.map_some]
  refine ⟨hfront.starts _, _, _, rfl, fun negative => ?_⟩
  rw [unsignedNumber?_eq hspan hfront (List.cons_ne_nil _ _), hdecimal, Option.map_some]
  rintro _ ⟨⟩
  rwa [hnext]

/-- Digits with an exponent. -/
theorem spells_power (hfront : IsWhole front) (htail : exponent? ('e' :: tail) = some k) :
    Spells (front ++ 'e' :: tail) (wholeOf front * 10 ^ k) := by
  have hspan : spanDigits (front ++ 'e' :: tail) = (front, 'e' :: tail) :=
    spanDigits_append hfront.digits (by rintro _ ⟨⟩; rfl)
  have hsome : front.isEmpty = false := by
    obtain ⟨c, rest, rfl, -⟩ := hfront.front
    rfl
  have hdecimal : decimal? (front ++ 'e' :: tail) = some (wholeOf front, k) := by
    unfold decimal?
    rw [hspan]
    show (if front.isEmpty = true then none else (exponent? ('e' :: tail)).map fun e => (wholeOf front, e)) = _
    rw [hsome, htail]
    rfl
  refine ⟨hfront.starts _, _, _, rfl, fun negative => ?_⟩
  rw [unsignedNumber?_eq hspan hfront (List.cons_ne_nil _ _) nofun, hdecimal, Option.map_some]

/-! ## The two ways in which digits are set -/

/-- An exponent with its sign, perhaps with zeros in front. -/
theorem exponent?_eq (lead : ℤ) (k : ℕ) : exponent? ('e' :: (if lead < 0 then '-' else '+') ::
    (List.replicate k '0' ++ Nat.toDigits 10 lead.natAbs)) = some lead := by
  have hwhole : whole (List.replicate k '0' ++ Nat.toDigits 10 lead.natAbs) = some lead.natAbs := by
    have hdigits : (List.replicate k '0' ++ Nat.toDigits 10 lead.natAbs).all Char.isDigit = true :=
      List.all_eq_true.mpr fun _ hc => (List.mem_append.mp hc).elim isDigit_replicate isDigit_of_mem
    have hsome : (List.replicate k '0' ++ Nat.toDigits 10 lead.natAbs).isEmpty = false := by
      simp
    unfold whole
    rw [hdigits, hsome, wholeOf_replicate_append, wholeOf_toDigits]
    rfl
  by_cases h : lead < 0
  · rw [if_pos h]
    show (whole (List.replicate k '0' ++ Nat.toDigits 10 lead.natAbs)).map (fun n => -(n : ℤ)) = _
    rw [hwhole]
    exact congrArg some (show -(lead.natAbs : ℤ) = lead by omega)
  · rw [if_neg h]
    show (whole (List.replicate k '0' ++ Nat.toDigits 10 lead.natAbs)).map Int.ofNat = _
    rw [hwhole]
    exact congrArg some (Int.natAbs_of_nonneg (by omega))

/-- Digits in full. -/
theorem spells_positional (hn : 0 < n) (e : ℤ) :
    Spells (positional (Nat.toDigits 10 n) (e + (Nat.toDigits 10 n).length - 1)) (n * 10 ^ e) := by
  have hlength : 0 < (Nat.toDigits 10 n).length := Nat.length_toDigits_pos
  have hdigits : ∀ c ∈ Nat.toDigits 10 n, c.isDigit = true := fun _ => isDigit_of_mem
  obtain ⟨lead, hlead⟩ : ∃ lead, lead = e + (Nat.toDigits 10 n).length - 1 := ⟨_, rfl⟩
  rw [← hlead]
  unfold positional
  by_cases hnegative : lead < 0
  · have hback : ∀ c ∈ List.replicate (-lead - 1).toNat '0' ++ Nat.toDigits 10 n, c.isDigit = true :=
      fun c hc => (List.mem_append.mp hc).elim isDigit_replicate (hdigits c)
    have hspells := @spells_point ['0'] _ [] 0
      ⟨fun c hc => List.mem_singleton.mp hc ▸ rfl, '0', [], rfl, fun _ => rfl⟩ hback
      (by simp [Nat.toDigits_ne_nil]) rfl nofun
    have hvalue : wholeOf (['0'] ++ (List.replicate (-lead - 1).toNat '0' ++ Nat.toDigits 10 n)) = n :=
      (wholeOf_replicate_append 1 _).trans ((wholeOf_replicate_append _ _).trans (wholeOf_toDigits n))
    have hexponent : (0 - ((List.replicate (-lead - 1).toNat '0' ++ Nat.toDigits 10 n).length : ℕ) : ℤ) = e := by
      rw [List.length_append, List.length_replicate]
      omega
    rw [hvalue, hexponent, List.append_nil] at hspells
    rw [if_pos hnegative]
    exact hspells
  · rw [if_neg hnegative]
    dsimp only
    by_cases hfew : (Nat.toDigits 10 n).length ≤ lead.toNat + 1
    · have hzeros : ((lead.toNat + 1 - (Nat.toDigits 10 n).length : ℕ) : ℤ) = e := by omega
      obtain ⟨zeros, hcount⟩ : ∃ zeros, zeros = lead.toNat + 1 - (Nat.toDigits 10 n).length := ⟨_, rfl⟩
      rw [← hcount] at hzeros ⊢
      have hspells := @spells_point (Nat.toDigits 10 n ++ List.replicate zeros '0') ['0'] [] 0
        (isWhole_append hn fun c => isDigit_replicate) (fun c hc => List.mem_singleton.mp hc ▸ rfl)
        (List.cons_ne_nil _ _) rfl nofun
      have hvalue : (wholeOf (Nat.toDigits 10 n ++ List.replicate zeros '0' ++ ['0']) : ℚ) *
          10 ^ (0 - ((['0'] : List Char).length : ℤ)) = n * 10 ^ e := by
        have hone : wholeOf (Nat.toDigits 10 n ++ List.replicate zeros '0' ++ ['0']) = n * 10 ^ zeros * 10 := by
          rw [show (['0'] : List Char) = List.replicate 1 '0' from rfl, wholeOf_append_replicate,
            wholeOf_append_replicate, wholeOf_toDigits, pow_one]
        rw [hone, ← hzeros, zpow_natCast]
        push_cast
        norm_num
        ring
      rw [hvalue] at hspells
      rw [if_pos hfew]
      exact hspells
    · have hspells := @spells_point _ ((Nat.toDigits 10 n).drop (lead.toNat + 1)) [] 0
        (isWhole_take hn lead.toNat) (fun c hc => hdigits c (List.mem_of_mem_drop hc))
        (by rw [Ne, List.drop_eq_nil_iff]; exact hfew) rfl nofun
      have hexponent : (0 - (((Nat.toDigits 10 n).drop (lead.toNat + 1)).length : ℕ) : ℤ) = e := by
        rw [List.length_drop]
        omega
      rw [List.take_append_drop, wholeOf_toDigits, hexponent, List.append_nil] at hspells
      rw [if_neg hfew, List.append_assoc]
      exact hspells

/-- One digit before the point, and the exponent. -/
theorem spells_scientific (hn : 0 < n) (width : ℕ) (e : ℤ) :
    Spells (scientific width (Nat.toDigits 10 n) (e + (Nat.toDigits 10 n).length - 1)) (n * 10 ^ e) := by
  have hdigits : ∀ c ∈ Nat.toDigits 10 n, c.isDigit = true := fun _ => isDigit_of_mem
  have hwhole := wholeOf_toDigits n
  have hfirst := isWhole_take hn 0
  obtain ⟨lead, hlead⟩ : ∃ lead, lead = e + (Nat.toDigits 10 n).length - 1 := ⟨_, rfl⟩
  have htail := exponent?_eq lead (width - (Nat.toDigits 10 lead.natAbs).length)
  rw [← hlead]
  unfold scientific digitsOf
  dsimp only
  revert hdigits hwhole hfirst hlead
  cases hcs : Nat.toDigits 10 n with
  | nil => exact absurd hcs Nat.toDigits_ne_nil
  | cons first rest =>
      intro hdigits hwhole hfirst hlead
      cases rest with
      | nil =>
          have hspells := spells_power hfirst htail
          rw [show [first].take (0 + 1) = [first] from rfl, hwhole] at hspells
          rw [show lead = e by simpa using hlead] at hspells ⊢
          simpa using hspells
      | cons second rest =>
          have hrest : ∀ c ∈ second :: rest, c.isDigit = true :=
            fun c hc => hdigits c (List.mem_cons_of_mem _ hc)
          have hspells := spells_point hfirst hrest (List.cons_ne_nil _ _) htail (by rintro _ ⟨⟩; rfl)
          have hexponent : lead - ((second :: rest).length : ℕ) = e := by
            rw [hlead]
            simp only [List.length_cons]
            push_cast
            omega
          rw [hexponent] at hspells
          have hall : (first :: second :: rest).take (0 + 1) ++ second :: rest = first :: second :: rest := rfl
          rw [hall, hwhole] at hspells
          simpa using hspells

/-! ## Floats -/

theorem neg_eq_ofParts (x : Float) : -x = ofParts (parts x).neg := rfl

/-- A number is no word. -/
theorem named?_eq_none_of_starts {run : List Char} {c d : Char} {rest : List Char} (hrun : run = c :: rest)
    (hc : c.isDigit = true ∨ c = '-' ∧ ∃ cs, rest = d :: cs ∧ d.isDigit = true) :
    named? (String.ofList run) = none := by
  have hword {word : String} (hfirst : ∃ first second cs, word.toList = first :: second :: cs ∧ first.isDigit = false ∧
      (first = '-' → second.isDigit = false)) : String.ofList run ≠ word := by
    rintro rfl
    obtain ⟨first, second, cs, heq, hplain, hnegative⟩ := hfirst
    rw [String.toList_ofList, hrun] at heq
    cases heq
    rcases hc with hc | ⟨rfl, cs, heq, hd⟩
    · exact Bool.noConfusion (hplain.symm.trans hc)
    · cases heq
      exact Bool.noConfusion ((hnegative rfl).symm.trans hd)
  unfold named?
  split
  · exact absurd ‹_› (hword ⟨_, _, _, rfl, rfl, by decide⟩)
  · exact absurd ‹_› (hword ⟨_, _, _, rfl, rfl, by decide⟩)
  · exact absurd ‹_› (hword ⟨_, _, _, rfl, rfl, by decide⟩)
  · exact absurd ‹_› (hword ⟨_, _, _, rfl, rfl, by decide⟩)
  · exact absurd ‹_› (hword ⟨_, _, _, rfl, rfl, by decide⟩)
  · exact absurd ‹_› (hword ⟨_, _, _, rfl, rfl, by decide⟩)
  · rfl

/-- A text that spells a number is read, perhaps after a hyphen. -/
theorem Spells.plain? {text : List Char} (h : Spells text v) (negative : Bool) : ∃ (n : ℕ) (e : ℤ),
    (n : ℚ) * 10 ^ e = v ∧ Json.plain? (if negative then '-' :: text else text) =
      some (.float (if negative then -scaled n e else scaled n e)) := by
  obtain ⟨⟨c, rest, htext, hc⟩, n, e, hvalue, hread⟩ := h
  refine ⟨n, e, hvalue, ?_⟩
  unfold Json.plain?
  cases negative with
  | true =>
      rw [if_pos rfl, named?_eq_none_of_starts (d := c) rfl (.inr ⟨rfl, rest, htext, hc⟩)]
      exact hread true
  | false =>
      rw [if_neg Bool.false_ne_true, named?_eq_none_of_starts (d := c) htext (.inl hc)]
      have hsign : c ≠ '-' := fun heq => by
        rw [heq] at hc
        cases hc
      have hnumber : number? text = unsignedNumber? false text := by
        rw [htext]
        unfold number?
        split
        · rename_i heq
          cases heq
          exact absurd rfl hsign
        · rfl
      exact hnumber.trans (hread false)

/-- The texts of a zero and of what is no finite number. -/
theorem readsFloat_special : ReadsFloat Layout.stored (ofParts .notANumber) ∧
    (∀ s, ReadsFloat Layout.stored (ofParts (.infinity s))) ∧ ∀ s, ReadsFloat Layout.stored (ofParts (.zero s)) := by
  refine ⟨?_, fun s => ?_, fun s => ?_⟩
  · rfl
  · cases s <;> rfl
  · cases s <;> rfl

/-- A float with digits is read back from its text, however that is laid out. -/
theorem readsFloat_of_finite (layout : Layout) {x : Float} {s : Float.Model.UnpackedFloat.Sign} {m : ℕ} {q : ℤ} {hm : 0 < m}
    (hparts : parts x = .finite s m q hm) : ReadsFloat layout x := by
  have hx := ofParts_parts x
  have hbinary := binary?_eq x
  have hc := isCanonical_of_parts hparts
  have hpos := significand_shortest_pos hc
  rw [hparts] at hx hbinary
  have hspells (inFull : Bool) : Spells
      (if inFull then positional (digitsOf (shortest m q).significand) ((shortest m q).exponent +
        (digitsOf (shortest m q).significand).length - 1)
      else scientific layout.exponentWidth (digitsOf (shortest m q).significand) ((shortest m q).exponent +
        (digitsOf (shortest m q).significand).length - 1))
      ((shortest m q).significand * 10 ^ (shortest m q).exponent) := by
    split
    · exact spells_positional hpos _
    · exact spells_scientific hpos _ _
  unfold ReadsFloat Layout.write
  rw [hbinary]
  dsimp only
  rw [String.toList_ofList]
  obtain ⟨n, e, hvalue, hread⟩ := (hspells _).plain? (isNegative s)
  refine hread.trans ?_
  rw [scaled_of_value hc hvalue, ← hx]
  cases s with
  | positive => rfl
  | negative =>
      show some (Json.float (-ofParts (.finite .positive m q hc.pos))) = _
      rw [neg_eq_ofParts, parts_ofParts hc.pos hc]
      rfl

/-- Every float is read back from its text. -/
theorem readsFloat (x : Float) : ReadsFloat Layout.stored x := by
  have hx := ofParts_parts x
  obtain ⟨hundefined, hinfinity, hzero⟩ := readsFloat_special
  cases hparts : parts x with
  | notANumber =>
      rw [hparts] at hx
      exact hx ▸ hundefined
  | infinity s =>
      rw [hparts] at hx
      exact hx ▸ hinfinity s
  | zero s =>
      rw [hparts] at hx
      exact hx ▸ hzero s
  | finite s m q hm => exact readsFloat_of_finite _ hparts

/-- In a document only floats with an exact value are kept. They are read back. -/
theorem readsFloat_document {x : Float} (h : (binary? x).isSome = true) : ReadsFloat Layout.document x := by
  have hx := ofParts_parts x
  have hbinary := binary?_eq x
  cases hparts : parts x with
  | notANumber =>
      rw [hparts] at hbinary
      simp [hbinary] at h
  | infinity s =>
      rw [hparts] at hbinary
      simp [hbinary] at h
  | zero s =>
      rw [hparts] at hx
      rw [← hx]
      cases s <;> rfl
  | finite s m q hm => exact readsFloat_of_finite _ hparts

end FactIndex.Json

namespace FactIndex.Json

open FactIndex.Decimal

/-! ## Values that can be stored -/

/-- Values that are nested so deep at most, whose objects have distinct keys. -/
inductive Fits : Nat → Json → Prop
  | null {depth : Nat} : Fits depth .null
  | bool {depth : Nat} (b : Bool) : Fits depth (.bool b)
  | int {depth : Nat} (n : Int) : Fits depth (.int n)
  | float {depth : Nat} (x : Float) : Fits depth (.float x)
  | str {depth : Nat} (s : String) : Fits depth (.str s)
  | arr {depth : Nat} {xs : List Json} (h : ∀ x ∈ xs, Fits depth x) : Fits (depth + 1) (.arr xs)
  | obj {depth : Nat} {ms : Members} (hkeys : ms.keys.Nodup) (h : ∀ m ∈ ms, Fits depth m.2) :
      Fits (depth + 1) (.obj ms)

theorem Fits.single {depth : Nat} {value : Json} (key : String) (h : Fits depth value) :
    Fits (depth + 1) (.single key value) :=
  .obj (List.nodup_singleton key) (List.forall_mem_singleton.mpr h)

/-- The text in which such a value is stored is read back. -/
theorem Fits.isReadable {depth : Nat} {v : Json} (h : Fits depth v) : IsReadable .stored depth v := by
  induction h with
  | null => exact .null
  | bool b => exact .bool b
  | int n => exact .int n
  | float x => exact .float (readsFloat x)
  | str s => exact .str s
  | arr _ ih => exact .arr ih
  | obj hkeys _ ih => exact .obj hkeys ih

/-! ## Values that are nested too deeply -/

variable {depth n : ℕ} {style : Style}

end FactIndex.Json

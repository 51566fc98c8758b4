import FactIndex.Json.Printer
import FactIndex.Json.Token
import FactIndex.Proofs.Decimal.Written
/-!
# Tokens of written texts

A written text is cut into tokens where its parts meet. Words and numbers end where something follows
that can be no part of them; quoted texts and punctuation end by themselves.

A text between quotes is escaped character by character, and read back in the same steps: the closing
quote is found, the escapes give back the code units, and those give back the characters.

## Main definitions

* `IsQuotable`: no quote among some characters closes.
* `exists_units`: the code units between the characters and their escapes.
* `quotedSpan_escape`, `decodeQuoted?_escape`: escaped texts are read back.
* `IsCut`, `IsSharplyCut`: some characters make up some tokens.
* `isSharplyCut_quote`, `isCut_plain`: the tokens of quoted texts, of words and of numbers.
* `plain?_intChars`: a whole number is read back.
-/

namespace FactIndex.Json

/-! ## Escapes -/

/-- The shapes of what is written for a character. -/
theorem escapeChar_cases (asciiOnly : Bool) (c : Char) :
    (∃ x, escapeChar asciiOnly c = ['\\', x] ∧ x ≠ 'u' ∧ shortEscape? x = some c.toNat) ∨
      escapeChar asciiOnly c = wideEscape c ∨
      escapeChar asciiOnly c = [c] ∧ c ≠ '"' ∧ c ≠ '\\' ∧ 0x20 ≤ c.toNat := by
  unfold escapeChar
  split
  · rename_i h
    obtain rfl := eq_of_beq h
    exact .inl ⟨'"', rfl, by decide, rfl⟩
  rename_i hquote
  split
  · rename_i h
    obtain rfl := eq_of_beq h
    exact .inl ⟨'\\', rfl, by decide, rfl⟩
  rename_i hbackslash
  split
  · rename_i h
    exact .inl ⟨'b', rfl, by decide, congrArg some (eq_of_beq h).symm⟩
  split
  · rename_i h
    exact .inl ⟨'t', rfl, by decide, congrArg some (eq_of_beq h).symm⟩
  split
  · rename_i h
    exact .inl ⟨'n', rfl, by decide, congrArg some (eq_of_beq h).symm⟩
  split
  · rename_i h
    exact .inl ⟨'f', rfl, by decide, congrArg some (eq_of_beq h).symm⟩
  split
  · rename_i h
    exact .inl ⟨'r', rfl, by decide, congrArg some (eq_of_beq h).symm⟩
  split
  · rename_i hsmall
    refine .inr (.inl ?_)
    unfold wideEscape
    rw [if_pos (by omega)]
  rename_i hlarge
  split
  · exact .inr (.inl rfl)
  · exact .inr (.inr ⟨rfl, by simpa using hquote, by simpa using hbackslash, by omega⟩)

theorem hexDigit_ne {n : Nat} (h : n < 16) : hexDigit n ≠ '"' ∧ hexDigit n ≠ '\\' := by
  have hall : ∀ n < 16, hexDigit n ≠ '"' ∧ hexDigit n ≠ '\\' := by decide
  exact hall n h

theorem hexValue?_hexDigit {n : Nat} (h : n < 16) : hexValue? (hexDigit n) = some n := by
  have hall : ∀ n < 16, hexValue? (hexDigit n) = some n := by decide
  exact hall n h

/-- The digits of a code unit stand for it. -/
theorem hexNumber?_digits {n : Nat} (h : n < 0x10000) :
    hexNumber? [hexDigit (n / 4096 % 16), hexDigit (n / 256 % 16), hexDigit (n / 16 % 16),
      hexDigit (n % 16)] = some n := by
  unfold hexNumber?
  simp only [List.foldlM_cons, List.foldlM_nil, hexValue?_hexDigit (Nat.mod_lt _ (by decide)),
    Option.map_some, Option.bind_eq_bind, Option.bind_some]
  refine congrArg some ?_
  omega

/-! ## The closing quote -/

/-- No quote among the characters closes, and none after them is kept from closing. -/
def IsQuotable (cs : List Char) : Prop :=
  ∀ rest, quotedSpan (cs ++ rest) = (quotedSpan rest).map fun r => (cs ++ r.1, r.2)

theorem IsQuotable.nil : IsQuotable [] := fun _ => Option.map_id'.symm

theorem IsQuotable.append {cs ds : List Char} (hcs : IsQuotable cs) (hds : IsQuotable ds) :
    IsQuotable (cs ++ ds) := by
  intro rest
  rw [List.append_assoc, hcs, hds, Option.map_map]
  simp [Function.comp_def]

theorem isQuotable_singleton {c : Char} (hquote : c ≠ '"') (hbackslash : c ≠ '\\') :
    IsQuotable [c] := by
  intro rest
  rw [List.singleton_append, quotedSpan]
  · rfl
  · exact hquote
  · exact fun _ _ h => absurd h hbackslash

theorem isQuotable_escaped (c : Char) : IsQuotable ['\\', c] := fun _ => rfl

theorem isQuotable_unitEscape (n : Nat) : IsQuotable (unitEscape n) := by
  have hdigit : ∀ k, IsQuotable [hexDigit (k % 16)] := by
    intro k
    have hne := hexDigit_ne (Nat.mod_lt k (by decide : 0 < 16))
    exact isQuotable_singleton hne.1 hne.2
  exact (isQuotable_escaped 'u').append ((hdigit _).append ((hdigit _).append
    ((hdigit _).append (hdigit _))))

theorem isQuotable_escapeChar (asciiOnly : Bool) (c : Char) : IsQuotable (escapeChar asciiOnly c) := by
  rcases escapeChar_cases asciiOnly c with ⟨x, h, _, _⟩ | h | ⟨h, hquote, hbackslash, _⟩
  · rw [h]
    exact isQuotable_escaped x
  · rw [h]
    unfold wideEscape
    dsimp only
    split
    · exact isQuotable_unitEscape _
    · exact (isQuotable_unitEscape _).append (isQuotable_unitEscape _)
  · rw [h]
    exact isQuotable_singleton hquote hbackslash

/-- An escaped text ends where the closing quote stands. -/
theorem quotedSpan_escape (asciiOnly : Bool) (cs rest : List Char) :
    quotedSpan (escape asciiOnly cs ++ '"' :: rest) = some (escape asciiOnly cs, rest) := by
  have hall : IsQuotable (escape asciiOnly cs) := by
    induction cs with
    | nil => exact IsQuotable.nil
    | cons c cs ih => exact (isQuotable_escapeChar asciiOnly c).append ih
  rw [hall]
  simp [quotedSpan]

/-! ## Code units -/

theorem codeUnits?_unitEscape {n : Nat} (h : n < 0x10000) (rest : List Char) :
    codeUnits? (unitEscape n ++ rest) = (codeUnits? rest).map (n :: ·) := by
  unfold unitEscape
  simp only [List.cons_append, List.nil_append]
  rw [codeUnits?, hexNumber?_digits h]
  cases codeUnits? rest <;> rfl

/-- A character that is no surrogate, and no character is, is its own code unit. -/
theorem joinUnits?_toNat (c : Char) (rest : List Nat) :
    joinUnits? (c.toNat :: rest) = (joinUnits? rest).map (c :: ·) := by
  have hvalid : c.toNat < 0xd800 ∨ 0xdfff < c.toNat ∧ c.toNat < 0x110000 := c.valid
  have hhigh : (0xd800 ≤ c.toNat && c.toNat < 0xdc00) = false := by
    simp only [Bool.and_eq_false_iff, decide_eq_false_iff_not]
    omega
  have hlow : (0xdc00 ≤ c.toNat && c.toNat < 0xe000) = false := by
    simp only [Bool.and_eq_false_iff, decide_eq_false_iff_not]
    omega
  rw [joinUnits?.eq_def]
  dsimp only
  rw [hhigh, hlow, Char.ofNat_toNat, if_neg Bool.false_ne_true, if_neg Bool.false_ne_true]

/-- A high and a low surrogate form the character whose offset they share. -/
theorem joinUnits?_pair {c : Char} (h : 0x10000 ≤ c.toNat) (rest : List Nat) :
    joinUnits? ((0xd800 + (c.toNat - 0x10000) / 0x400) :: (0xdc00 + (c.toNat - 0x10000) % 0x400) ::
      rest) = (joinUnits? rest).map (c :: ·) := by
  have hvalid : c.toNat < 0xd800 ∨ 0xdfff < c.toNat ∧ c.toNat < 0x110000 := c.valid
  have hhigh : (0xd800 ≤ 0xd800 + (c.toNat - 0x10000) / 0x400 &&
      0xd800 + (c.toNat - 0x10000) / 0x400 < 0xdc00) = true := by
    simp only [Bool.and_eq_true, decide_eq_true_eq]
    omega
  have hlow : (0xdc00 ≤ 0xdc00 + (c.toNat - 0x10000) % 0x400 &&
      0xdc00 + (c.toNat - 0x10000) % 0x400 < 0xe000) = true := by
    simp only [Bool.and_eq_true, decide_eq_true_eq]
    omega
  have hsum : 0x10000 + (0xd800 + (c.toNat - 0x10000) / 0x400 - 0xd800) * 0x400 +
      (0xdc00 + (c.toNat - 0x10000) % 0x400 - 0xdc00) = c.toNat := by
    omega
  rw [joinUnits?, if_pos hhigh, if_pos hlow, hsum, Char.ofNat_toNat]

/-- What is written for a character stands for code units that form the character. -/
theorem exists_units (asciiOnly : Bool) (c : Char) : ∃ units : List Nat,
    (∀ rest, codeUnits? (escapeChar asciiOnly c ++ rest) = (codeUnits? rest).map (units ++ ·)) ∧
      ∀ rest, joinUnits? (units ++ rest) = (joinUnits? rest).map (c :: ·) := by
  rcases escapeChar_cases asciiOnly c with ⟨x, h, hx, hvalue⟩ | h | ⟨h, hquote, hbackslash, hsize⟩
  · refine ⟨[c.toNat], fun rest => ?_, joinUnits?_toNat c⟩
    have hstep : codeUnits? ('\\' :: x :: rest) = (do
        let unit ← shortEscape? x
        let units ← codeUnits? rest
        return unit :: units) := by
      rw [codeUnits?]
      exact fun _ _ _ _ _ hu => absurd hu hx
    rw [h]
    show codeUnits? ('\\' :: x :: rest) = _
    rw [hstep, hvalue]
    cases codeUnits? rest <;> rfl
  · rw [h]
    unfold wideEscape
    dsimp only
    split
    · rename_i hsmall
      exact ⟨[c.toNat], codeUnits?_unitEscape hsmall, joinUnits?_toNat c⟩
    · rename_i hlarge
      have hvalid : c.toNat < 0xd800 ∨ 0xdfff < c.toNat ∧ c.toNat < 0x110000 := c.valid
      refine ⟨[_, _], fun rest => ?_, joinUnits?_pair (by omega)⟩
      rw [List.append_assoc, codeUnits?_unitEscape (by omega), codeUnits?_unitEscape (by omega)]
      cases codeUnits? rest <;> rfl
  · refine ⟨[c.toNat], fun rest => ?_, joinUnits?_toNat c⟩
    have hraw : (c.toNat < 0x20 || c == '\\') = false := by
      rw [Bool.or_eq_false_iff, decide_eq_false_iff_not, beq_eq_false_iff_ne]
      exact ⟨by omega, hbackslash⟩
    rw [h]
    show codeUnits? (c :: rest) = _
    rw [codeUnits?, hraw]
    · cases codeUnits? rest <;> rfl
    · exact fun _ _ _ _ _ hc => absurd hc hbackslash
    · exact fun _ _ hc => absurd hc hbackslash

/-- An escaped text stands for the text. -/
theorem decodeQuoted?_escape (asciiOnly : Bool) (s : String) :
    decodeQuoted? (escape asciiOnly s.toList) = some s := by
  have hall : ∀ cs : List Char, ∃ units, codeUnits? (escape asciiOnly cs) = some units ∧
      joinUnits? units = some cs := by
    intro cs
    induction cs with
    | nil => exact ⟨[], rfl, rfl⟩
    | cons c cs ih =>
        obtain ⟨units, hunits, hjoin⟩ := exists_units asciiOnly c
        obtain ⟨more, hmore, hrest⟩ := ih
        refine ⟨units ++ more, ?_, ?_⟩
        · show codeUnits? (escapeChar asciiOnly c ++ escape asciiOnly cs) = _
          rw [hunits, hmore]
          rfl
        · rw [hjoin, hrest]
          rfl
  obtain ⟨units, hunits, hjoin⟩ := hall s.toList
  unfold decodeQuoted?
  rw [hunits, Option.bind_some, hjoin, Option.map_some, String.ofList_toList]

open FactIndex.Decimal FactIndex.Text

/-! ## Cutting -/

/-- The characters cannot go on with a word or a number. -/
def IsApart (cs : List Char) : Prop := ∀ c ∈ cs.head?, isPlainChar c = false

/-- The characters make up the tokens if no word and no number goes on after them. -/
def IsCut (cs : List Char) (ts : List Token) : Prop :=
  ∀ rest, IsApart rest → tokens? (cs ++ rest) = (tokens? rest).map (ts ++ ·)

/-- The characters make up the tokens, whatever follows. -/
def IsSharplyCut (cs : List Char) (ts : List Token) : Prop :=
  ∀ rest, tokens? (cs ++ rest) = (tokens? rest).map (ts ++ ·)

variable {as bs : List Char} {ts us : List Token}

theorem IsSharplyCut.isCut (h : IsSharplyCut as ts) : IsCut as ts := fun rest _ => h rest

theorem IsSharplyCut.append (ha : IsSharplyCut as ts) (hb : IsSharplyCut bs us) :
    IsSharplyCut (as ++ bs) (ts ++ us) := by
  intro rest
  rw [List.append_assoc, ha, hb, Option.map_map]
  simp [Function.comp_def]

theorem IsSharplyCut.append_isCut (ha : IsSharplyCut as ts) (hb : IsCut bs us) :
    IsCut (as ++ bs) (ts ++ us) := by
  intro rest hrest
  rw [List.append_assoc, ha, hb rest hrest, Option.map_map]
  simp [Function.comp_def]

theorem IsCut.append_isSharplyCut {c : Char} (ha : IsCut as ts) (hb : IsSharplyCut (c :: bs) us)
    (hc : isPlainChar c = false) : IsSharplyCut (as ++ c :: bs) (ts ++ us) := by
  intro rest
  have hfront : IsApart (c :: bs ++ rest) := by
    rintro _ ⟨⟩
    exact hc
  rw [List.append_assoc, ha _ hfront, hb, Option.map_map]
  simp [Function.comp_def]

theorem isSharplyCut_nil : IsSharplyCut [] [] := fun _ => Option.map_id'.symm

/-! ## Punctuation and blanks -/

theorem isSharplyCut_punctuation {c : Char} {token : Token} (h : punctuation? c = some token) :
    IsSharplyCut [c] [token] := by
  intro rest
  have hmark : (c == ' ' || c == '\t' || c == '\n' || c == '\r') = false ∧ (c == '"') = false := by
    unfold punctuation? at h
    split at h
    all_goals first | exact ⟨by decide, by decide⟩ | cases h
  rw [List.singleton_append, tokens?, hmark.1, hmark.2, h]
  rfl

theorem isSharplyCut_blanks (n : Nat) : IsSharplyCut (List.replicate n ' ') [] := by
  induction n with
  | zero => exact isSharplyCut_nil
  | succ n ih =>
      intro rest
      rw [List.replicate_succ, List.cons_append, tokens?]
      exact ih rest

/-! ## Quoted texts -/

theorem isSharplyCut_quote (asciiOnly : Bool) (s : String) :
    IsSharplyCut (quote asciiOnly s).toList [.text s] := by
  intro rest
  have hspan := quotedSpan_escape asciiOnly s.toList rest
  have htext : (quote asciiOnly s).toList ++ rest =
      '"' :: (escape asciiOnly s.toList ++ '"' :: rest) := by
    simp [quote]
  rw [htext, tokens?]
  simp only [Char.reduceBEq, Bool.or_self, Bool.false_eq_true, if_false, if_true]
  split
  · rename_i hnone
    rw [hspan] at hnone
    cases hnone
  · rename_i body after hsome
    rw [hspan] at hsome
    cases hsome
    rw [decodeQuoted?_escape]
    cases tokens? rest <;> rfl

/-! ## Words and numbers -/

/-- A plain character stands for itself neither as a blank nor as a mark. -/
theorem not_mark_of_isPlainChar {c : Char} (h : isPlainChar c = true) :
    (c == ' ' || c == '\t' || c == '\n' || c == '\r') = false ∧ (c == '"') = false ∧
      punctuation? c = none := by
  refine ⟨?_, ?_, ?_⟩
  · simp only [Bool.or_eq_false_iff, beq_eq_false_iff_ne]
    refine ⟨⟨⟨?_, ?_⟩, ?_⟩, ?_⟩ <;> (rintro rfl; cases h)
  · rw [beq_eq_false_iff_ne]
    rintro rfl
    cases h
  · unfold punctuation?
    split
    all_goals first | cases h | rfl

/-- A run of plain characters is one token. -/
theorem isCut_plain {run : List Char} {value : Json} (hne : run ≠ [])
    (hplain : run.all isPlainChar = true) (h : plain? run = some value) :
    IsCut run [.plain value] := by
  have hall := List.all_eq_true.mp hplain
  intro rest hrest
  cases run with
  | nil => exact absurd rfl hne
  | cons c run =>
      have hc : isPlainChar c = true := hall c (by simp)
      have hrun : ∀ d ∈ run, isPlainChar d = true := fun d hd => hall d (by simp [hd])
      have hend : rest.takeWhile isPlainChar = [] ∧ rest.dropWhile isPlainChar = rest := by
        cases rest with
        | nil => exact ⟨rfl, rfl⟩
        | cons d rest => simp [hrest d rfl]
      obtain ⟨hblank, hquote, hmark⟩ := not_mark_of_isPlainChar hc
      rw [List.cons_append, tokens?, hblank, hquote, hmark]
      simp only [Bool.false_eq_true, if_false, if_true, hc]
      rw [List.takeWhile_append_of_pos hrun, List.dropWhile_append_of_pos hrun, hend.1, hend.2,
        List.append_nil, h]
      cases tokens? rest <;> rfl

/-! ## Whole numbers -/

/-- Each name has one of four letters. -/
theorem named?_eq_none {cs : List Char} (h : ∀ c ∈ cs, c ≠ 'u' ∧ c ≠ 's' ∧ c ≠ 'N' ∧ c ≠ 'y') :
    named? (String.ofList cs) = none := by
  have hword : ∀ word : String, String.ofList cs = word →
      'u' ∉ word.toList ∧ 's' ∉ word.toList ∧ 'N' ∉ word.toList ∧ 'y' ∉ word.toList := by
    rintro _ rfl
    rw [String.toList_ofList]
    exact ⟨fun hc => (h _ hc).1 rfl, fun hc => (h _ hc).2.1 rfl, fun hc => (h _ hc).2.2.1 rfl,
      fun hc => (h _ hc).2.2.2 rfl⟩
  unfold named?
  split
  all_goals first
    | rfl
    | rename_i heq
      have hletters := hword _ heq
      revert hletters
      decide

theorem spanDigits_toDigits (n : Nat) : spanDigits (Nat.toDigits 10 n) = (Nat.toDigits 10 n, []) := by
  have hall : ∀ c ∈ Nat.toDigits 10 n, c.isDigit = true := fun _ => isDigit_of_mem
  unfold spanDigits
  rw [List.span_eq_takeWhile_dropWhile, List.takeWhile_eq_self_iff.mpr hall,
    List.dropWhile_eq_nil_iff.mpr hall]

theorem unsignedNumber?_toDigits (negative : Bool) (n : Nat) :
    unsignedNumber? negative (Nat.toDigits 10 n) = some (.int (if negative then -n else n)) := by
  have hwhole := wholeOf_toDigits n
  unfold unsignedNumber?
  rw [spanDigits_toDigits]
  cases hdigits : Nat.toDigits 10 n with
  | nil => exact absurd hdigits Nat.toDigits_ne_nil
  | cons c rest =>
      rw [hdigits] at hwhole
      dsimp only
      rw [hwhole]
      split
      · rename_i heq
        cases heq
      · rename_i heq
        cases heq
        obtain rfl := eq_zero_of_front hdigits
        rw [Nat.toDigits_zero] at hdigits
        cases hdigits
      · rfl

/-- The text of a whole number is read back. -/
theorem plain?_intChars (n : Int) : plain? (intChars n) = some (.int n) := by
  have hname : named? (String.ofList (intChars n)) = none :=
    named?_eq_none (forall_mem_intChars (by decide) (by decide) n)
  unfold plain?
  rw [hname]
  show number? (intChars n) = _
  cases n with
  | negSucc n => exact unsignedNumber?_toDigits true (n + 1)
  | ofNat n =>
      have hread := unsignedNumber?_toDigits false n
      unfold number? intChars
      split
      · rename_i rest heq
        have hdigit : '-'.isDigit = true := isDigit_of_mem (n := n) (by simp [heq])
        cases hdigit
      · exact hread

theorem isCut_int (n : Int) : IsCut (toString n).toList [.plain (.int n)] := by
  rw [toList_toString]
  have hall : ∀ c ∈ intChars n, isPlainChar c = true :=
    forall_mem_intChars (by decide) (by decide) n
  refine isCut_plain ?_ (List.all_eq_true.mpr hall) (plain?_intChars n)
  obtain ⟨c, rest, hcs, _⟩ := front_intChars n
  rw [hcs]
  exact List.cons_ne_nil c rest

end FactIndex.Json

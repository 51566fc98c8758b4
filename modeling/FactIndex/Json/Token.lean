import FactIndex.Json.Basic
import FactIndex.Decimal.Numeral

/-!
# Tokens of JSON texts

A JSON text is first cut into tokens. The content of a quoted text is decoded in three passes: the
characters up to the closing quote, the code units that they stand for, and the characters that the
code units form.

## Main definitions

* `Token`: brackets, separators, quoted texts and plain values.
* `decodeQuoted?`: the text that the characters between two quotes stand for.
* `tokens?`: the tokens of a text.
-/

namespace FactIndex.Json

open FactIndex.Decimal

/-- A token of a JSON text. -/
inductive Token where
  | openObject
  | closeObject
  | openArray
  | closeArray
  | colon
  | comma
  | text (value : String)
  | plain (value : Json)

/-! ## Quoted texts -/

/-- The characters up to the closing quote, and what follows it. A quote after a backslash does not
close. -/
def quotedSpan : List Char → Option (List Char × List Char)
  | [] => none
  | '"' :: rest => some ([], rest)
  | '\\' :: c :: rest => (quotedSpan rest).map fun r => ('\\' :: c :: r.1, r.2)
  | c :: rest => (quotedSpan rest).map fun r => (c :: r.1, r.2)

/-- The value of a hexadecimal digit. -/
def hexValue? (c : Char) : Option Nat :=
  if c.isDigit then some (c.toNat - 48)
  else if 'a' ≤ c && c ≤ 'f' then some (c.toNat - 87)
  else if 'A' ≤ c && c ≤ 'F' then some (c.toNat - 55)
  else none

/-- The number that hexadecimal digits stand for. -/
def hexNumber? (digits : List Char) : Option Nat :=
  digits.foldlM (fun n c => (hexValue? c).map fun d => 16 * n + d) 0

/-- What a backslash and a single character stand for. -/
def shortEscape? : Char → Option Nat
  | '"' => some 34
  | '\\' => some 92
  | '/' => some 47
  | 'b' => some 8
  | 'f' => some 12
  | 'n' => some 10
  | 'r' => some 13
  | 't' => some 9
  | _ => none

/-- The code units that the characters between two quotes stand for. Control characters have to be
escaped. -/
def codeUnits? : List Char → Option (List Nat)
  | [] => some []
  | '\\' :: 'u' :: a :: b :: c :: d :: rest => do
    let unit ← hexNumber? [a, b, c, d]
    let units ← codeUnits? rest
    return unit :: units
  | '\\' :: c :: rest => do
    let unit ← shortEscape? c
    let units ← codeUnits? rest
    return unit :: units
  | c :: rest =>
    if c.toNat < 0x20 || c == '\\' then none
    else (codeUnits? rest).map (c.toNat :: ·)

/-- The characters that code units form. A high and a low surrogate form one character, and neither
may stand alone. -/
def joinUnits? : List Nat → Option (List Char)
  | [] => some []
  | high :: rest =>
    if 0xd800 ≤ high && high < 0xdc00 then
      match rest with
      | low :: rest =>
        if 0xdc00 ≤ low && low < 0xe000 then
          (joinUnits? rest).map
            (Char.ofNat (0x10000 + (high - 0xd800) * 0x400 + (low - 0xdc00)) :: ·)
        else none
      | [] => none
    else if 0xdc00 ≤ high && high < 0xe000 then none
    else (joinUnits? rest).map (Char.ofNat high :: ·)

/-- The text that the characters between two quotes stand for. -/
def decodeQuoted? (body : List Char) : Option String :=
  ((codeUnits? body).bind joinUnits?).map String.ofList

theorem length_quotedSpan {cs body rest : List Char} (h : quotedSpan cs = some (body, rest)) :
    rest.length < cs.length := by
  fun_induction quotedSpan cs generalizing body rest with
  | case1 => simp at h
  | case2 r => simp at h; simp [h.2]
  | case3 c r ih =>
    obtain ⟨p, hp, he⟩ := Option.map_eq_some_iff.1 h
    have := @ih p.1 p.2 hp
    simp only [Prod.mk.injEq] at he
    simp only [← he.2, List.length_cons]
    omega
  | case4 c r _ _ ih =>
    obtain ⟨p, hp, he⟩ := Option.map_eq_some_iff.1 h
    have := @ih p.1 p.2 hp
    simp only [Prod.mk.injEq] at he
    simp only [← he.2, List.length_cons]
    omega

/-! ## Numbers and names -/

/-- Whether the character can occur in a number. -/
def isNumberChar (c : Char) : Bool :=
  c.isDigit || c == '+' || c == '-' || c == '.' || c == 'e' || c == 'E'

/-- An unsigned number. The whole part has no leading zero, a fraction has digits, and a number with
a fraction or an exponent is a float. -/
def unsignedNumber? (negative : Bool) (cs : List Char) : Option Json :=
  let (front, rest) := spanDigits cs
  let plainFront :=
    match front with
    | [] => false
    | '0' :: _ :: _ => false
    | _ => true
  let fractionFits :=
    match rest with
    | '.' :: rest => !(spanDigits rest).1.isEmpty
    | _ => true
  if !plainFront || !fractionFits then none
  else if rest.isEmpty then
    let n : Int := wholeOf front
    some (.int (if negative then -n else n))
  else (decimal? cs).map fun d =>
    let x := scaled d.1 d.2
    .float (if negative then -x else x)

/-- A number. -/
def number? : List Char → Option Json
  | '-' :: rest => unsignedNumber? true rest
  | cs => unsignedNumber? false cs

/-- The value that a word stands for. -/
def named? (word : String) : Option Json :=
  match word with
  | "null" => some .null
  | "true" => some (.bool true)
  | "false" => some (.bool false)
  | "NaN" => some (.float (0 / 0))
  | "Infinity" => some (.float (1 / 0))
  | "-Infinity" => some (.float (-(1 / 0)))
  | _ => none

/-- Whether the character can occur in a number or in a word. -/
def isPlainChar (c : Char) : Bool := isNumberChar c || c.isAlpha

/-- The value of a run of plain characters. -/
def plain? (run : List Char) : Option Json :=
  match named? (String.ofList run) with
  | some value => some value
  | none => number? run

/-! ## Cutting a text into tokens -/

/-- The token that a single character is. -/
def punctuation? : Char → Option Token
  | '{' => some .openObject
  | '}' => some .closeObject
  | '[' => some .openArray
  | ']' => some .closeArray
  | ':' => some .colon
  | ',' => some .comma
  | _ => none

/-- The tokens of a text. -/
def tokens? : List Char → Option (List Token)
  | [] => some []
  | c :: rest =>
    if c == ' ' || c == '\t' || c == '\n' || c == '\r' then tokens? rest
    else if c == '"' then
      match h : quotedSpan rest with
      | none => none
      | some (body, after) =>
        have : after.length < rest.length := length_quotedSpan h
        do
          let value ← decodeQuoted? body
          let more ← tokens? after
          return .text value :: more
    else
      match punctuation? c with
      | some token => (tokens? rest).map (token :: ·)
      | none =>
        if isPlainChar c then
          have : (rest.dropWhile isPlainChar).length ≤ rest.length :=
            (List.dropWhile_suffix isPlainChar).length_le
          do
            let value ← plain? (c :: rest.takeWhile isPlainChar)
            let more ← tokens? (rest.dropWhile isPlainChar)
            return .plain value :: more
        else none
termination_by cs => cs.length
decreasing_by all_goals (simp only [List.length_cons]; omega)

end FactIndex.Json

import FactIndex.Json.Token

/-!
# Percent-encoded addresses

Each pair of hexadecimal digits after a percent sign stands for a byte. The bytes of a run of ASCII
characters are decoded as UTF-8, and what is no UTF-8 becomes the replacement character.

## Main definitions

* `decodeUtf8`: the characters of a sequence of bytes.
* `percentDecode`: the text that an address stands for.
-/

namespace FactIndex.Text

open FactIndex.Json

/-- The bytes of ASCII characters. A percent sign that no two hexadecimal digits follow stands for
itself. -/
def percentBytes : List Char → List Nat
  | '%' :: a :: b :: rest =>
    match hexValue? a, hexValue? b with
    | some x, some y => (16 * x + y) :: percentBytes rest
    | _, _ => 37 :: percentBytes (a :: b :: rest)
  | c :: rest => c.toNat :: percentBytes rest
  | [] => []

/-- The character that replaces bytes that are no UTF-8. -/
def replacement : Char := Char.ofNat 0xfffd

/-- For the first byte of a sequence: the bits that it contributes, how many bytes follow, and the
bounds of the first of them. -/
def leadByte? (b : Nat) : Option (Nat × Nat × Nat × Nat) :=
  if 0xc2 ≤ b && b ≤ 0xdf then some (b - 0xc0, 1, 0x80, 0xbf)
  else if b == 0xe0 then some (0, 2, 0xa0, 0xbf)
  else if b == 0xed then some (0xd, 2, 0x80, 0x9f)
  else if 0xe1 ≤ b && b ≤ 0xef then some (b - 0xe0, 2, 0x80, 0xbf)
  else if b == 0xf0 then some (0, 3, 0x90, 0xbf)
  else if 0xf1 ≤ b && b ≤ 0xf3 then some (b - 0xf0, 3, 0x80, 0xbf)
  else if b == 0xf4 then some (4, 3, 0x80, 0x8f)
  else none

/-- A sequence that is being decoded: the bits so far, how many bytes are missing, and the bounds of
the next one. -/
structure Pending where
  bits : Nat
  missing : Nat
  low : Nat
  high : Nat

/-- The characters of a sequence of bytes. A sequence that breaks off gives one replacement
character, and the byte that breaks it is read anew. -/
def decodeUtf8From : Option Pending → List Nat → List Char
  | none, [] => []
  | some _, [] => [replacement]
  | none, b :: rest =>
    if b < 0x80 then Char.ofNat b :: decodeUtf8From none rest
    else
      match leadByte? b with
      | some (bits, missing, low, high) => decodeUtf8From (some ⟨bits, missing, low, high⟩) rest
      | none => replacement :: decodeUtf8From none rest
  | some p, b :: rest =>
    if p.low ≤ b && b ≤ p.high then
      let bits := p.bits * 64 + (b - 0x80)
      if p.missing ≤ 1 then Char.ofNat bits :: decodeUtf8From none rest
      else decodeUtf8From (some ⟨bits, p.missing - 1, 0x80, 0xbf⟩) rest
    else if b < 0x80 then replacement :: Char.ofNat b :: decodeUtf8From none rest
    else
      match leadByte? b with
      | some (bits, missing, low, high) =>
        replacement :: decodeUtf8From (some ⟨bits, missing, low, high⟩) rest
      | none => replacement :: replacement :: decodeUtf8From none rest

/-- The characters of a sequence of bytes. -/
def decodeUtf8 (bytes : List Nat) : List Char := decodeUtf8From none bytes

/-- The runs of characters that lie on the same side of the end of ASCII. -/
def asciiRuns (cs : List Char) : List (List Char) :=
  cs.splitBy fun a b => decide (a.toNat < 0x80) == decide (b.toNat < 0x80)

/-- The text that a percent-encoded address stands for. -/
def percentDecode (s : String) : String :=
  String.ofList ((asciiRuns s.toList).flatMap fun run =>
    match run with
    | c :: _ => if c.toNat < 0x80 then decodeUtf8 (percentBytes run) else run
    | [] => [])

end FactIndex.Text

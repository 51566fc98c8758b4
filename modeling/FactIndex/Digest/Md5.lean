/-!
# The MD5 digest

The digest of a text is taken over its UTF-8 bytes. It names lookup documents, cache entries and
descriptions.

## Main definitions

* `padded`: the message with its end mark and length.
* `md5`: the digest as thirty-two hexadecimal digits.
-/

namespace FactIndex.Digest

/-- The four words that are carried from block to block. -/
structure Registers where
  a : UInt32
  b : UInt32
  c : UInt32
  d : UInt32

/-- The amounts by which the rounds rotate, four for each round. -/
def rotations : List (List UInt32) :=
  [[7, 12, 17, 22], [5, 9, 14, 20], [4, 11, 16, 23], [6, 10, 15, 21]]

/-- The constants of the sixty-four steps: the whole parts of `2 ^ 32 * |sin (i + 1)|`. -/
def sines : List UInt32 :=
  [0xd76aa478, 0xe8c7b756, 0x242070db, 0xc1bdceee, 0xf57c0faf, 0x4787c62a, 0xa8304613, 0xfd469501,
   0x698098d8, 0x8b44f7af, 0xffff5bb1, 0x895cd7be, 0x6b901122, 0xfd987193, 0xa679438e, 0x49b40821,
   0xf61e2562, 0xc040b340, 0x265e5a51, 0xe9b6c7aa, 0xd62f105d, 0x02441453, 0xd8a1e681, 0xe7d3fbc8,
   0x21e1cde6, 0xc33707d6, 0xf4d50d87, 0x455a14ed, 0xa9e3e905, 0xfcefa3f8, 0x676f02d9, 0x8d2a4c8a,
   0xfffa3942, 0x8771f681, 0x6d9d6122, 0xfde5380c, 0xa4beea44, 0x4bdecfa9, 0xf6bb4b60, 0xbebfbc70,
   0x289b7ec6, 0xeaa127fa, 0xd4ef3085, 0x04881d05, 0xd9d4d039, 0xe6db99e5, 0x1fa27cf8, 0xc4ac5665,
   0xf4292244, 0x432aff97, 0xab9423a7, 0xfc93a039, 0x655b59c3, 0x8f0ccc92, 0xffeff47d, 0x85845dd1,
   0x6fa87e4f, 0xfe2ce6e0, 0xa3014314, 0x4e0811a1, 0xf7537e82, 0xbd3af235, 0x2ad7d2bb, 0xeb86d391]

/-- A word rotated to the left. -/
def rotate (x n : UInt32) : UInt32 := (x <<< n) ||| (x >>> (32 - n))

/-- The mixing function and the word of the block that a step uses. -/
def mixing (step : Nat) (r : Registers) : UInt32 × Nat :=
  if step < 16 then ((r.b &&& r.c) ||| (~~~r.b &&& r.d), step)
  else if step < 32 then ((r.d &&& r.b) ||| (~~~r.d &&& r.c), (5 * step + 1) % 16)
  else if step < 48 then (r.b ^^^ r.c ^^^ r.d, (3 * step + 5) % 16)
  else (r.c ^^^ (r.b ||| ~~~r.d), 7 * step % 16)

/-- One step on a block of sixteen words. -/
def step (block : Array UInt32) (r : Registers) (constant : UInt32 × Nat) : Registers :=
  let (mixed, word) := mixing constant.2 r
  let amount := ((rotations.getD (constant.2 / 16) []).getD (constant.2 % 4) 0)
  let sum := r.a + mixed + constant.1 + block.getD word 0
  ⟨r.d, r.b + rotate sum amount, r.b, r.c⟩

/-- All steps on a block, added to the words carried so far. -/
def compress (r : Registers) (block : Array UInt32) : Registers :=
  let s := sines.zipIdx.foldl (step block) r
  ⟨r.a + s.a, r.b + s.b, r.c + s.c, r.d + s.d⟩

/-- A number as bytes, least byte first. -/
def littleEndian (count n : Nat) : List UInt8 :=
  (List.range count).map fun i => UInt8.ofNat (n / Nat.pow 256 i)

/-- The message with its end mark, zeros up to a block boundary and its length in bits. -/
def padded (message : List UInt8) : List UInt8 :=
  let zeros := (119 - message.length % 64) % 64
  message ++ [0x80] ++ List.replicate zeros 0 ++ littleEndian 8 (8 * message.length)

/-- The words that bytes form, least byte first. -/
def wordsOf : List UInt8 → List UInt32
  | a :: b :: c :: d :: rest =>
    (a.toUInt32 ||| (b.toUInt32 <<< 8) ||| (c.toUInt32 <<< 16) ||| (d.toUInt32 <<< 24)) ::
      wordsOf rest
  | _ => []

/-- The words in blocks of sixteen. -/
def blocksOf : Nat → List UInt32 → List (Array UInt32)
  | 0, _ => []
  | count + 1, words => (words.take 16).toArray :: blocksOf count (words.drop 16)

/-- The two hexadecimal digits of a byte. -/
def hexByte (n : Nat) : List Char :=
  [Nat.digitChar (n / 16 % 16), Nat.digitChar (n % 16)]

/-- A word as eight hexadecimal digits, least byte first. -/
def hexWord (x : UInt32) : List Char :=
  (littleEndian 4 x.toNat).flatMap fun b => hexByte b.toNat

/-- The digest of a text as hexadecimal digits. -/
def md5 (text : String) : String :=
  let words := wordsOf (padded text.toUTF8.toList)
  let start : Registers := ⟨0x67452301, 0xefcdab89, 0x98badcfe, 0x10325476⟩
  let r := (blocksOf (words.length / 16) words).foldl compress start
  String.ofList (hexWord r.a ++ hexWord r.b ++ hexWord r.c ++ hexWord r.d)

end FactIndex.Digest

import FactIndex.Text.Characters

/-!
# Control and format characters

Characters of the general categories "control" and "format" have no shape of their own.

## Main definitions

* `isControl`: whether a character is of one of the two categories.
* `withoutControls`: a text without them.
-/

namespace FactIndex.Text

/-- The code points of control and format characters. -/
def controlRanges : CodeRanges :=
  [(0, 31), (127, 159), (173, 173), (1536, 1541), (1564, 1564), (1757, 1757), (1807, 1807),
   (2192, 2193), (2274, 2274), (6158, 6158), (8203, 8207), (8234, 8238), (8288, 8292),
   (8294, 8303), (65279, 65279), (65529, 65531), (69821, 69821), (69837, 69837), (78896, 78904),
   (113824, 113827), (119155, 119162), (917505, 917505), (917536, 917631)]

/-- Whether the character is a control or a format character. -/
def isControl (c : Char) : Bool := controlRanges.contains c

/-- A text without its control and format characters. -/
def withoutControls (s : String) : String :=
  String.ofList (s.toList.filter fun c => !isControl c)

end FactIndex.Text

import FactIndex.Digest.Md5
import FactIndex.Json.Printer
import FactIndex.Json.Display

/-!
# Digests of values

Two values have the same structural digest when they are equal up to the order of members. The
digest of a plain text names documents that are stored under a number.

## Main definitions

* `structuralText`, `structuralHash`: the canonical text of a value and its digest.
* `plainHash`: the digest of a value's plain text.
-/

namespace FactIndex.Digest

/-- The canonical text of a value: members sorted, nothing but ASCII, no blanks. -/
def structuralText (value : Json) : String := Json.Style.canonical.print value

/-- The digest of the canonical text. -/
def structuralHash (value : Json) : String := md5 (structuralText value)

/-- The digest of the plain text of a value. -/
def plainHash (value : Json) : String := md5 value.plainText

end FactIndex.Digest

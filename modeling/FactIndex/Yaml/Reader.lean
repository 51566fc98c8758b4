import FactIndex.Json.Display
import FactIndex.Yaml.Scalar
import FactIndex.Yaml.Token

/-!
# Reading YAML texts

A text holds one document, or none. Mappings become objects and sequences arrays; keys that are no texts
are written out.

## Main definitions

* `Parse`: reading what a list of tokens begins with.
* `node`: the value that the tokens begin with.
* `parse?`: the value of a text, which is nothing if there is no document.
-/

namespace FactIndex.Yaml

/-- The tokens that are left, and the values that have been given names. -/
structure Input where
  tokens : List Token
  anchors : Table String Json := []

/-- Reading what the tokens begin with. -/
abbrev Parse (α : Type) := StateT Input Option α

namespace Parse

/-- The next token. -/
def peek : Parse (Option Token) := do return (← get).tokens.head?

/-- Passes over the next token. -/
def skip : Parse Unit := modify fun i => { i with tokens := i.tokens.drop 1 }

/-- Passes over the next token if it is the given one, and says whether it was. -/
def skipIf (t : Token) : Parse Bool := do
  if (← peek) = some t then
    skip
    return true
  else return false

/-- The next token has to be the given one. -/
def expect (t : Token) : Parse Unit := do
  if !(← skipIf t) then failure

/-- Whether the next token is one of some tokens, or there is none. -/
def isAt (ts : List Token) : Parse Bool := do
  match ← peek with
  | some t => return ts.contains t
  | none => return true

end Parse

/-! ## Values -/

/-- A key with its value. -/
structure Pair where
  key : Json
  /-- Whether the value is merged into the mapping. -/
  isMerge : Bool
  value : Json

/-- What is merged into a mapping: an object, or several of which the first ones count most. -/
def mergedMembers : Json → Option Members
  | .obj ms => some ms
  | .arr xs => do
    let each ← xs.reverse.mapM fun x => match x with
      | Json.obj ms => some ms
      | _ => none
    return each.flatten
  | _ => none

/-- A key in written form. Containers are no keys. -/
def keyText : Json → Option String
  | .arr _ | .obj _ => none
  | value => some value.plainText

/-- The object that pairs amount to. What is merged comes first, so that other members replace it. -/
def objectOf (pairs : List Pair) : Option Json := do
  let merged ← (pairs.filter Pair.isMerge).mapM fun p => mergedMembers p.value
  let own ← (pairs.filter fun p => !p.isMerge).mapM fun p => do return (← keyText p.key, p.value)
  return Json.obj (Table.merge [] (merged.flatten ++ own))

/-- The value of a scalar with a type. -/
def taggedScalar (tag text : String) : Option Json :=
  match tag with
  | "" => plainValue text
  | "!str" => some (.str text)
  | "!int" => if Form.of text = .whole then valueOf .whole text else none
  | "!float" =>
    match Form.of text with
    | .float => valueOf .float text
    | .whole => valueOf .float text
    | _ => none
  | "!bool" => if Form.of text = .truth then valueOf .truth text else none
  | "!null" => some .null
  | _ => none

/-- The value of a scalar. -/
def scalarValue (tag : Option String) (text : String) (isPlain : Bool) : Option Json :=
  match tag with
  | some tag => taggedScalar tag text
  | none => if isPlain then plainValue text else some (.str text)

/-- Whether a container may have a type. -/
def suits (tag : Option String) (name : String) : Bool :=
  match tag with
  | some tag => tag = "" || tag = name
  | none => true

/-! ## Nodes -/

/-- The name and the type in front of a node, in either order. -/
def properties : Nat → Option String → Option String → Parse (Option String × Option String)
  | 0, anchor, tag => return (anchor, tag)
  | fuel + 1, anchor, tag => do
    match ← Parse.peek, anchor, tag with
    | some (.anchor name), none, tag =>
      Parse.skip
      properties fuel (some name) tag
    | some (.tag name), anchor, none =>
      Parse.skip
      properties fuel anchor (some name)
    | _, anchor, tag => return (anchor, tag)

/-- Gives a value a name, which nothing before it in the text may have. -/
def remember (anchor : Option String) (value : Json) : Parse Json := do
  if let some name := anchor then
    if ((← get).anchors.get? name).isSome then failure
    modify fun i => { i with anchors := i.anchors.put name value }
  return value

/-- What is found where a node may be left out. -/
def orNothing (absent : Bool) (read : Parse Json) : Parse Json :=
  if absent then return .null else read

/-- A node of which there is nothing but its name or its type. -/
def emptyNode (anchor tag : Option String) : Parse Json := do
  if anchor.isNone && tag.isNone then failure
  let some value := scalarValue tag "" true | failure
  remember anchor value

mutual

/-- The value that the tokens begin with. Blocks are allowed or not, and so is a sequence that is not
further in than its key. -/
def node : Nat → Bool → Bool → Parse Json
  | 0, _, _ => failure
  | fuel + 1, block, flush => do
    if let some (.reference name) := ← Parse.peek then
      Parse.skip
      let some value := (← get).anchors.get? name | failure
      return value
    let (anchor, tag) ← properties 2 none none
    match ← Parse.peek with
    | some (.scalar text isPlain) =>
      Parse.skip
      let some value := scalarValue tag text isPlain | failure
      remember anchor value
    | some .openSequence =>
      Parse.skip
      if !suits tag "!seq" then failure
      remember anchor (.arr (← flowElements fuel true))
    | some .openMapping =>
      Parse.skip
      let some value := objectOf (← flowPairs fuel true) | failure
      if !suits tag "!map" then failure
      remember anchor value
    | some .sequenceStart =>
      if !block || !suits tag "!seq" then failure
      Parse.skip
      let xs ← elements fuel [.blockEnd]
      Parse.expect .blockEnd
      remember anchor (.arr xs)
    | some .mappingStart =>
      if !block || !suits tag "!map" then failure
      Parse.skip
      let pairs ← blockPairs fuel
      Parse.expect .blockEnd
      let some value := objectOf pairs | failure
      remember anchor value
    | some .element =>
      if flush && suits tag "!seq" then
        remember anchor (.arr (← elements fuel [.key, .value, .blockEnd]))
      else emptyNode anchor tag
    | _ => emptyNode anchor tag

/-- The elements after hyphens. One is left out before certain tokens. -/
def elements : Nat → List Token → Parse (List Json)
  | 0, _ => failure
  | fuel + 1, ends => do
    if !(← Parse.skipIf .element) then return []
    let x ← orNothing (← Parse.isAt (.element :: ends)) (node fuel true false)
    return x :: (← elements fuel ends)

/-- The pairs of a mapping that is shown by indentation. -/
def blockPairs : Nat → Parse (List Pair)
  | 0 => failure
  | fuel + 1 => do
    if !(← Parse.skipIf .key) then return []
    let ends : List Token := [.key, .value, .blockEnd]
    let isMerge := (← Parse.peek) == some (.scalar "<<" true)
    let key ← orNothing (← Parse.isAt ends) (node fuel true true)
    let hasValue ← Parse.skipIf .value
    let value ← orNothing (!hasValue || (← Parse.isAt ends)) (node fuel true true)
    return ⟨key, isMerge, value⟩ :: (← blockPairs fuel)

/-- A pair between brackets or braces, after the mark of its key. -/
def flowPair : Nat → Token → Parse Pair
  | 0, _ => failure
  | fuel + 1, closing => do
    let isMerge := (← Parse.peek) == some (.scalar "<<" true)
    let key ← orNothing (← Parse.isAt [.value, .comma, closing]) (node fuel false false)
    let hasValue ← Parse.skipIf .value
    let value ← orNothing (!hasValue || (← Parse.isAt [.comma, closing])) (node fuel false false)
    return ⟨key, isMerge, value⟩

/-- The elements between brackets. A pair among them is a mapping of its own. -/
def flowElements : Nat → Bool → Parse (List Json)
  | 0, _ => failure
  | fuel + 1, isFirst => do
    if ← Parse.skipIf .closeSequence then return []
    if !isFirst then
      Parse.expect .comma
      if ← Parse.skipIf .closeSequence then return []
    let x ← if ← Parse.skipIf .key then do
        let some value := objectOf [← flowPair fuel .closeSequence] | failure
        pure value
      else node fuel false false
    return x :: (← flowElements fuel false)

/-- The pairs between braces. A key alone has no value. -/
def flowPairs : Nat → Bool → Parse (List Pair)
  | 0, _ => failure
  | fuel + 1, isFirst => do
    if ← Parse.skipIf .closeMapping then return []
    if !isFirst then
      Parse.expect .comma
      if ← Parse.skipIf .closeMapping then return []
    let pair ← if ← Parse.skipIf .key then flowPair fuel .closeMapping
      else do pure ⟨← node fuel false false, false, .null⟩
    return pair :: (← flowPairs fuel false)

end

/-! ## Documents -/

/-- Passes over the same token as often as it comes. -/
def skipAll (t : Token) : Nat → Parse Unit
  | 0 => return
  | fuel + 1 => do
    if ← Parse.skipIf t then skipAll t fuel

/-- The only document, which is nothing if there is none. -/
def document (fuel : Nat) : Parse Json := do
  skipAll .documentEnd fuel
  let directives ← Parse.skipIf .directive
  skipAll .directive fuel
  let isMarked ← Parse.skipIf .documentStart
  if directives && !isMarked then failure
  if !isMarked && (← Parse.isAt []) then return .null
  let value ← orNothing
    (isMarked && (← Parse.isAt [.directive, .documentStart, .documentEnd])) (node fuel true false)
  skipAll .documentEnd fuel
  if (← Parse.peek).isSome then failure
  return value

/-- The value of a text. -/
def parse? (text : String) : Option Json := do
  let tokens ← tokens? text
  let (value, _) ← (document (2 * tokens.length + 2)).run { tokens }
  return value

end FactIndex.Yaml

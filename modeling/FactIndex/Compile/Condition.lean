import FactIndex.Fact.Item
import FactIndex.Index.Settings
import FactIndex.Search.Clause
import FactIndex.Text.Percent

/-!
# Conditions on values

A condition compares the values of a field with an item. What clause that makes depends on the kind of
the item, on the comparator and on the settings, and on nothing else.

## Main definitions

* `Item.searchValue`: the form in which an item is searched.
* `Condition.ofProperty`: the condition on the values of a property.
* `Condition.ofEntity`: the condition on an entity itself, or on a property named with the value.
-/

namespace FactIndex

open FactIndex.Text

/-- The form in which an item is searched. -/
def Item.searchValue : Item → Except Failure Json
  | .page e => .ok (.str e.sortText)
  | .text s => .ok (.str s)
  | .uri s => .ok (.str s)
  | .number x => .ok (.float x)
  | .boolean b => .ok (.bool b)
  | .time t => Json.float <$> Calendar.TimeOf.dayNumber t
  | .coordinate lat lon => .ok (.str (Item.pairText lat lon))
  | .area a => .ok (.str (Item.areaText a))

/-- Whether an item is a page. -/
def Item.isPage : Item → Bool
  | .page _ => true
  | _ => false

/-- Whether a comparator asks for equality, or for its contrary. -/
def Comparator.isEquality : Comparator → Bool
  | .eq | .neq => true
  | _ => false

namespace Condition

/-- A clause, and how it is to be used. -/
structure Matched where
  clause : Json
  /-- The array that the clause looks at. -/
  array : String
  /-- The value that the clause looks for. -/
  value : Json
  /-- Whether documents are wanted that the clause does not select. -/
  negated : Bool
  /-- Whether the clause has no part in the score. -/
  isFilter : Bool := false
deriving DecidableEq

/-- How a condition is joined to others. -/
def Matched.occur (m : Matched) : Occur :=
  if m.negated then .mustNot else if m.isFilter then .filter else .must

/-- A point in a box. -/
def inBox (field : String) (a : Area) : Json :=
  Clause.boundingBox field (.float a.north) (.float a.west) (.float a.south) (.float a.east)

/-- The addresses of mail and telephone, without their schemes. -/
def withoutSchemes (s : String) : String := replaceText "mailto:" "" (replaceText "tel:" "" s)

/-- A pattern for addresses: the schemes of the web and the equals signs are dropped. -/
def uriPattern (s : String) : String :=
  replaceText "=" "" (replaceText "https://" "" (replaceText "http://" "" s))

/-- Equality of texts. -/
def textEquals (q : QuerySettings) (normalKeywords : Bool) (type : ValueType)
    (group array s : String) : Matched :=
  let field := Field.inGroup group array
  if type = .keyword then
    let s := if normalKeywords then Field.keyword s else s
    ⟨Clause.term (field ++ ".keyword") (.str s), array, .str s, false, true⟩
  else if q.textIgnoresCase then
    ⟨Clause.phrase field (.str s), array, .str s, false, false⟩
  else ⟨Clause.term (field ++ ".keyword") (.str s), array, .str s, false, true⟩

/-- Equality of addresses. -/
def uriEquals (q : QuerySettings) (group array s : String) : Matched :=
  let field := Field.inGroup group array
  if q.uriIgnoresCase then
    ⟨Clause.phrase (field ++ ".lowercase") (.str s), array, .str s, false, false⟩
  else ⟨Clause.term (field ++ ".keyword") (.str s), array, .str s, false, false⟩

/-- A pattern that is not to occur. One with a plus asks for something all the same, so that it is not
negated as a whole. -/
def textUnlike (q : QuerySettings) (group array s : String) : Matched :=
  let field := Field.inGroup group array
  if q.operators && occurs "+" s then
    let s := "-" ++ s
    ⟨Clause.queryString (.str field) (.str s), array, .str s, false, false⟩
  else ⟨Clause.queryString (.str field) (.str s), array, .str s, true, false⟩

/-- A pattern for addresses. Those of mail and telephone are compared as a whole. -/
def uriLike (q : QuerySettings) (group array s : String) (negated : Bool) : Matched :=
  let s := uriPattern s
  let isPlain := occurs "tel:" s || occurs "mailto:" s
  let s := if isPlain then withoutSchemes s else s
  let array :=
    if isPlain then array ++ ".keyword"
    else if q.uriIgnoresCase then array ++ ".lowercase"
    else array
  ⟨Clause.queryString (.str (Field.inGroup group array)) (.str s), array, .str s, negated, false⟩

/-- A bound on the values. Those of texts are compared as a whole. -/
def bounded (group array : String) (item : Item) (c : Comparator) (value : Json) :
    Except Failure Matched := do
  let array := match item with
    | .text _ => array ++ ".keyword"
    | _ => array
  let clause ← Clause.range (Field.inGroup group array) value c
  return ⟨clause, array, value, false, false⟩

/-- The condition on the values of a property, which lie in an array of a group. The comparator is in
its normal form; for the equality of pages the value is a number and the array that of numbers. -/
def ofProperty (q : QuerySettings) (normalKeywords : Bool) (type : ValueType)
    (group array : String) (item : Item) (c : Comparator) (value : Json) :
    Except Failure Matched :=
  let field := Field.inGroup group array
  let negated := c.isNegated
  match item, c with
  | .area a, _ => .ok ⟨inBox (field ++ ".point") a, array, value, negated, false⟩
  | item, .less => bounded group array item .less value
  | item, .greater => bounded group array item .greater value
  | item, .leq => bounded group array item .leq value
  | item, .geq => bounded group array item .geq value
  | .text s, .eq => .ok (textEquals q normalKeywords type group array s)
  | .uri _, .eq => .ok (uriEquals q group array value.plainText)
  | .text s, .like =>
    .ok ⟨Clause.queryString (Json.ofTexts [field, field ++ ".keyword"]) (.str s), array, .str s,
      false, false⟩
  | .text s, .nlike => .ok (textUnlike q group array s)
  | .page e, .nlike => .ok (textUnlike q group array e.sortText)
  | .uri _, .like => .ok (uriLike q group array value.plainText false)
  | .uri _, .nlike => .ok (uriLike q group array value.plainText true)
  | .page e, .like =>
    .ok ⟨Clause.queryString (.str field) (.str e.sortText), array, .str e.sortText, false, false⟩
  | .coordinate _ _, .eq => .ok ⟨Clause.terms field value, array, value, false, false⟩
  | _, .eq => .ok ⟨Clause.term field value, array, value, false, true⟩
  | _, .neq => .ok ⟨Clause.term field value, array, value, true, false⟩
  | _, _ => .ok ⟨Clause.words (.str field) value "and", array, value, negated, false⟩

/-! ## Entities themselves -/

/-- The title of the item that stands for everything that is no part of a page. -/
def noPart : String := "NO_SUBOBJECT"

/-- Whether an item stands for everything that is no part of a page. -/
def isNoPart : Item → Bool
  | .page e => e.title = noPart
  | _ => false

/-- A text between quotation marks. -/
def quotedText (s : String) : String := "\"" ++ s ++ "\""

/-- A pattern. A tilde in front searches it in all texts, there as a phrase if it has no wildcard. -/
def pattern (q : QuerySettings) (field s : String) : Json :=
  let hasWildcard := occurs "*" s
  let (fields, s) : Json × String :=
    match afterFront? "~" s with
    | some rest =>
      let rest := if !hasWildcard && q.widePhrase then quotedText rest else rest
      (Json.ofTexts q.wideFields, rest)
    | none => (.str field, s)
  if hasWildcard then Clause.queryString fields (.str s)
  else Clause.words fields (.str s) "or"

/-- The condition on a field of the entity itself, and whether it has no part in the score. The
comparator is in its normal form. -/
def ofEntity (q : QuerySettings) (field : String) (item : Item) (c : Comparator) (value : Json) :
    Except Failure (Json × Bool) :=
  match item with
  | .area a => .ok (inBox (field ++ ".point") a, false)
  | item =>
    if item.isPage && c.isRange then
      (fun clause => (clause, false)) <$> Clause.range (field ++ ".keyword") value c
    else if isNoPart item then .ok (Clause.term "subject.subobject.keyword" (.str ""), true)
    else
      match item, c with
      | .text s, .eq => .ok (Clause.words (.str field) (.str (quotedText s)) "or", false)
      | _, .eq | _, .neq => .ok (Clause.terms field value, false)
      | _, .like | _, .nlike => .ok (pattern q field value.plainText, false)
      | _, c =>
        if c.isRange then (fun clause => (clause, false)) <$> Clause.range field value c
        else .ok (Clause.words (.str field) value "or", false)

end Condition

end FactIndex

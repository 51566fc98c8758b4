import FactIndex.Search.Clause

/-!
# Which documents a clause selects

A clause is a request to the search engine, which selects documents by it. How a compound clause
counts its members is fixed here; how single values compare is the engine's own business and a
parameter.

A clause on a property is copied for each of its subproperties. The copy of a clause is the clause that
would have been made for the subproperty, so that the whole selects what the clause selects for one of
the properties.

## Main definitions

* `Indexed`: the values that lie under each field of a document.
* `Matching`: what the engine knows about values, stored lists and other kinds of clauses.
* `Clause.holds`: whether a clause selects a document.
* `Clause.OfGroup`: a clause that is made for each property in the same way.
* `Clause.holds_overHierarchy`: what a clause and its copies select together.
-/

namespace FactIndex

/-- A document, as the values that the engine finds under each field. -/
abbrev Indexed := String → List Json

/-- How the engine compares. -/
structure Matching where
  /-- Whether a value of a document compares with a given one. -/
  compares : Comparator → Json → Json → Bool
  /-- The values in the list that a reference stands for. -/
  stored : Json → List Json
  /-- Whether a clause of any other kind, with the given body, selects a document. -/
  other : Indexed → String → Json → Bool

namespace Matching

/-- The comparator of a bound in a range clause. -/
def comparatorOf? (bound : String) : Option Comparator :=
  if bound = "gt" then some .greater
  else if bound = "gte" then some .geq
  else if bound = "lt" then some .less
  else if bound = "lte" then some .leq
  else none

/-- Every comparator with a bound is the comparator of that bound. -/
theorem comparatorOf_bound {c : Comparator} {bound : String} (h : c.bound? = some bound) :
    comparatorOf? bound = some c := by
  cases c <;> simp only [Comparator.bound?, Option.some.injEq, reduceCtorEq] at h <;>
    · subst h
      decide

/-- A value of the document keeps to all bounds. -/
def keeps (M : Matching) (value : Json) (bounds : Members) : Bool :=
  bounds.all fun bound =>
    match comparatorOf? bound.1 with
    | some c => M.compares c value bound.2
    | none => false

/-- A value of the field is the given one. -/
def hasValue (M : Matching) (doc : Indexed) (field : String) (value : Json) : Bool :=
  (doc field).any fun v => M.compares .eq v value

/-- A clause without members of its own selects the document. -/
def leaf (M : Matching) (doc : Indexed) (kind : String) (body : Json) : Bool :=
  match kind, body with
  | "match_all", _ => true
  | "term", .obj [(field, value)] => M.hasValue doc field value
  | "terms", .obj [(field, .arr values)] => values.any (M.hasValue doc field)
  | "terms", .obj [(field, reference)] => (M.stored reference).any (M.hasValue doc field)
  | "range", .obj [(field, .obj bounds)] => (doc field).any fun v => M.keeps v bounds
  | "exists", .obj [("field", .str field)] => !(doc field).isEmpty
  | kind, body => M.other doc kind body

end Matching

namespace Clause

/-- Whether members of a compound clause are such that its `should` part is of no consequence. -/
def isDemanding (members : Members) : Bool :=
  members.any fun m => (m.1 = "must" || m.1 = "filter") && m.2 != .arr []

mutual

/-- Whether a clause selects a document. -/
def holds (M : Matching) (doc : Indexed) : Json → Bool
  | .obj [(kind, body)] =>
    if kind = "bool" then holdsCompound M doc body
    else if kind = "constant_score" then holdsUnder M doc "filter" body
    else if kind = "function_score" then holdsUnder M doc "query" body
    else M.leaf doc kind body
  | _ => false

/-- Whether a compound clause with the given members selects a document. Without a member that has
to hold, one of those that should hold has to. -/
def holdsCompound (M : Matching) (doc : Indexed) : Json → Bool
  | .obj members =>
    holdsRequired M doc members && (isDemanding members || holdsOptional M doc members)
  | _ => false

/-- The members that must hold do, and those that must not do not. -/
def holdsRequired (M : Matching) (doc : Indexed) : List (String × Json) → Bool
  | [] => true
  | (key, clauses) :: ms =>
    (if key = "must" || key = "filter" then holdsAll M doc clauses
      else if key = "must_not" then !holdsAny M doc clauses
      else true) && holdsRequired M doc ms

/-- One of the members that should hold does, unless there are none. -/
def holdsOptional (M : Matching) (doc : Indexed) : List (String × Json) → Bool
  | [] => true
  | (key, clauses) :: ms =>
    if key = "should" then clauses == .arr [] || holdsAny M doc clauses
    else holdsOptional M doc ms

/-- Whether a member of the given name selects a document. -/
def holdsUnder (M : Matching) (doc : Indexed) (name : String) : Json → Bool
  | .obj members => holdsMember M doc name members
  | _ => false

/-- Whether the member of the given name is there and selects a document. -/
def holdsMember (M : Matching) (doc : Indexed) (name : String) : List (String × Json) → Bool
  | [] => false
  | (key, clause) :: ms => if key = name then holds M doc clause else holdsMember M doc name ms

/-- Each of several clauses selects a document. A clause stands for a list of its own. -/
def holdsAll (M : Matching) (doc : Indexed) : Json → Bool
  | .arr clauses => holdsEach M doc clauses
  | clause => holds M doc clause

/-- Each clause of a list selects a document. -/
def holdsEach (M : Matching) (doc : Indexed) : List Json → Bool
  | [] => true
  | clause :: clauses => holds M doc clause && holdsEach M doc clauses

/-- One of several clauses selects a document. -/
def holdsAny (M : Matching) (doc : Indexed) : Json → Bool
  | .arr clauses => holdsSome M doc clauses
  | clause => holds M doc clause

/-- One clause of a list selects a document. -/
def holdsSome (M : Matching) (doc : Indexed) : List Json → Bool
  | [] => false
  | clause :: clauses => holds M doc clause || holdsSome M doc clauses

end

variable (M : Matching) (doc : Indexed)

section Makers

attribute [local simp] holds holdsCompound holdsRequired holdsOptional holdsUnder holdsMember holdsAll
  holdsEach holdsAny holdsSome isDemanding Matching.leaf

@[simp] theorem holdsEach_eq_all (clauses : List Json) :
    holdsEach M doc clauses = clauses.all (holds M doc) := by
  induction clauses with
  | nil => simp
  | cons clause clauses ih => simp [ih]

@[simp] theorem holdsSome_eq_any (clauses : List Json) :
    holdsSome M doc clauses = clauses.any (holds M doc) := by
  induction clauses with
  | nil => simp
  | cons clause clauses ih => simp [ih]

/-! ## The clauses of the makers -/

theorem compound_eq (occur : Occur) (clauses : List Json) :
    compound occur clauses = .obj [("bool", .obj [(occur.key, .arr clauses)])] := rfl

@[simp] theorem holds_must (clauses : List Json) :
    holds M doc (compound .must clauses) = clauses.all (holds M doc) := by
  cases clauses <;> simp [compound_eq, Occur.key]

@[simp] theorem holds_filter (clauses : List Json) :
    holds M doc (compound .filter clauses) = clauses.all (holds M doc) := by
  cases clauses <;> simp [compound_eq, Occur.key]

@[simp] theorem holds_mustNot (clauses : List Json) :
    holds M doc (compound .mustNot clauses) = !clauses.any (holds M doc) := by
  simp [compound_eq, Occur.key]

/-- Without members there is no constraint. -/
@[simp] theorem holds_should (clauses : List Json) :
    holds M doc (compound .should clauses) = (clauses.isEmpty || clauses.any (holds M doc)) := by
  cases clauses <;> simp [compound_eq, Occur.key]

@[simp] theorem holds_term (field : String) (value : Json) :
    holds M doc (term field value) = M.hasValue doc field value := by
  simp [term, Json.single]

@[simp] theorem holds_terms (field : String) (values : List Json) :
    holds M doc (terms field (.arr values)) = values.any (M.hasValue doc field) := by
  simp [terms, several, Json.single]

@[simp] theorem holds_hasField (field : String) :
    holds M doc (hasField field) = !(doc field).isEmpty := by
  simp [hasField, Json.single]

theorem holds_constantScore (clause : Json) :
    holds M doc (constantScore clause) = holds M doc clause := by
  simp [constantScore, Json.single]

/-- A range clause compares the values of the field by its comparator. -/
theorem holds_range {field : String} {value clause : Json} {c : Comparator}
    (h : range field value c = .ok clause) :
    holds M doc clause = (doc field).any fun v => M.compares c v value := by
  unfold range at h
  cases hb : c.bound? with
  | none => rw [hb] at h; cases h
  | some bound =>
      rw [hb] at h
      cases h
      simp [Json.single, Matching.keeps, Matching.comparatorOf_bound hb]

end Makers

end Clause

end FactIndex

namespace FactIndex.Clause

open FactIndex.Text

/-! ## Fronts of names -/

theorem afterFront_append (front rest : String) : afterFront? front (front ++ rest) = some rest := by
  have hprefix : front.toList.isPrefixOf (front ++ rest).toList = true := by
    rw [List.isPrefixOf_iff_prefix, String.toList_append]
    exact List.prefix_append _ _
  unfold afterFront?
  rw [if_pos hprefix, String.toList_append, ← String.length_toList, List.drop_left,
    String.ofList_toList]

theorem swapFront_append (old new rest : String) : swapFront old new (old ++ rest) = new ++ rest := by
  simp only [swapFront, afterFront_append]

/-- The name of a group starts like no name that stands for anything but a field. -/
theorem swapFront_of_head_ne (n : Int) (new : String) {name : String}
    (h : name.toList.head? ≠ some 'P') : swapFront (Field.group n ++ ".") new name = name := by
  have hno : ¬ (Field.group n ++ ".").toList.isPrefixOf name.toList = true := by
    rw [List.isPrefixOf_iff_prefix]
    rintro ⟨rest, hrest⟩
    apply h
    rw [← hrest]
    simp [Field.group]
  simp only [swapFront, afterFront?, if_neg hno]

theorem swapFront_inGroup (n m : Int) (array : String) :
    swapFront (Field.group n ++ ".") (Field.group m ++ ".") (Field.inGroup (Field.group n) array) =
      Field.inGroup (Field.group m) array :=
  swapFront_append _ _ _

/-! ## Copies of a clause -/

section Copies

attribute [local simp] renameFields renameEach renameMembers

/-- A clause that is made for each property in the same way: its copy for another property is the
clause of that property. -/
def OfGroup (make : Int → Json) : Prop :=
  ∀ n m, renameFields (Field.group n ++ ".") (Field.group m ++ ".") (make n) = make m

/-- A value in which no fields are named. -/
def IsPlain (value : Json) : Prop := ∀ old new, renameFields old new value = value

theorem isPlain_int (n : Int) : IsPlain (.int n) := fun _ _ => by simp

theorem isPlain_float (x : Float) : IsPlain (.float x) := fun _ _ => by simp

theorem isPlain_bool (b : Bool) : IsPlain (.bool b) := fun _ _ => by simp

theorem isPlain_str (s : String) : IsPlain (.str s) := fun _ _ => by simp

theorem isPlain_arr {values : List Json} (h : ∀ v ∈ values, IsPlain v) : IsPlain (.arr values) := by
  intro old new
  rw [renameFields]
  congr 1
  induction values with
  | nil => rfl
  | cons v values ih =>
      rw [renameEach, h v List.mem_cons_self old new, ih fun u hu => h u (List.mem_cons_of_mem v hu)]

/-- The key of a member that is no field, and that has the name of none as its value. -/
def IsInert (key : String) : Prop := key.toList.head? ≠ some 'P' ∧ key ≠ "field" ∧ key ≠ "fields"

instance (key : String) : Decidable (IsInert key) := inferInstanceAs (Decidable (_ ∧ _ ∧ _))

theorem IsPlain.ofGroup {value : Json} (h : IsPlain value) : OfGroup fun _ => value := fun _ _ => h _ _

theorem renameMembers_nil (old new : String) : renameMembers old new [] = [] := by rw [renameMembers]

theorem renameMembers_inert {key : String} (hkey : IsInert key) (n m : Int) (value : Json) (ms : Members) :
    renameMembers (Field.group n ++ ".") (Field.group m ++ ".") ((key, value) :: ms) =
      (key, renameFields (Field.group n ++ ".") (Field.group m ++ ".") value) ::
        renameMembers (Field.group n ++ ".") (Field.group m ++ ".") ms := by
  obtain ⟨hhead, hfield, hfields⟩ := hkey
  rw [renameMembers, swapFront_of_head_ne n _ hhead, if_neg hfield, if_neg hfields]

/-- A clause of a kind whose name is that of no field. -/
theorem ofGroup_single {kind : String} (hkind : IsInert kind) {make : Int → Json} (h : OfGroup make) :
    OfGroup fun n => .single kind (make n) := by
  intro n m
  simp only [Json.single, renameFields, renameMembers_inert hkind, renameMembers_nil, h n m]
  rfl

/-- An object with two members whose keys are those of no fields. -/
theorem ofGroup_pair {key key' : String} (hkey : IsInert key) (hkey' : IsInert key') (hne : key ≠ key')
    {make make' : Int → Json} (h : OfGroup make) (h' : OfGroup make') :
    OfGroup fun n => .obj [(key, make n), (key', make' n)] := by
  intro n m
  simp only [renameFields, renameMembers_inert hkey, renameMembers_inert hkey', renameMembers_nil, h n m,
    h' n m]
  rw [Table.merge_of_nodup (by simpa [Table.keys] using hne)]
  rfl

/-- What is said of a field of the property. -/
theorem ofGroup_onField (array : String) {make : Int → Json} (h : OfGroup make) :
    OfGroup fun n => .single (Field.inGroup (Field.group n) array) (make n) := by
  intro n m
  have hname : ∀ name : String, name.toList.head? ≠ some 'P' →
      Field.inGroup (Field.group n) array ≠ name := by
    rintro name hne rfl
    exact hne (by simp [Field.inGroup, Field.group])
  simp only [Json.single, renameFields, renameMembers, swapFront_inGroup, hname "field" (by decide),
    hname "fields" (by decide), if_false, h n m]
  rfl

theorem ofGroup_term (array : String) {value : Json} (h : IsPlain value) :
    OfGroup fun n => term (Field.inGroup (Field.group n) array) value :=
  ofGroup_single (by decide) (ofGroup_onField array h.ofGroup)

theorem ofGroup_terms (array : String) {value : Json} (h : IsPlain value) (hvalue : ∀ ms, value ≠ .obj ms) :
    OfGroup fun n => terms (Field.inGroup (Field.group n) array) value := by
  refine ofGroup_single (by decide) (ofGroup_onField array (IsPlain.ofGroup ?_))
  cases value with
  | obj ms => exact absurd rfl (hvalue ms)
  | arr values => exact h
  | null | bool | int | float | str => exact isPlain_arr (by simpa using h)

theorem ofGroup_hasField (array : String) :
    OfGroup fun n => hasField (Field.inGroup (Field.group n) array) := by
  intro n m
  have hkind := swapFront_of_head_ne n (Field.group m ++ ".")
    (show "exists".toList.head? ≠ some 'P' by decide)
  have hkey := swapFront_of_head_ne n (Field.group m ++ ".")
    (show "field".toList.head? ≠ some 'P' by decide)
  simp only [hasField, Json.single, renameFields, renameMembers, hkind, hkey, swapName, swapFront_inGroup,
    if_true, show ("exists" = "field") = False by decide, show ("exists" = "fields") = False by decide,
    if_false]
  rfl

theorem isInert_bound {c : Comparator} {bound : String} (h : c.bound? = some bound) : IsInert bound := by
  cases c <;> cases h <;> decide

/-- The range clause of each property, with the bound of a comparator. -/
theorem ofGroup_range (array : String) {bound : String} {value : Json} (h : IsPlain value)
    (hbound : IsInert bound) : OfGroup fun n => .single "range"
      (.single (Field.inGroup (Field.group n) array) (.single bound value)) :=
  ofGroup_single (by decide) (ofGroup_onField array (ofGroup_single hbound h.ofGroup))

theorem ofGroup_words (array operator : String) {value : Json} (h : IsPlain value) :
    OfGroup fun n => words (.str (Field.inGroup (Field.group n) array)) value operator :=
  ofGroup_single (by decide) (ofGroup_onField array
    (ofGroup_pair (by decide) (by decide) (by decide) h.ofGroup (isPlain_str operator).ofGroup))

theorem ofGroup_phrase (array : String) {value : Json} (h : IsPlain value) :
    OfGroup fun n => phrase (Field.inGroup (Field.group n) array) value :=
  ofGroup_single (by decide) (ofGroup_onField array h.ofGroup)

/-- A text in the query language, for some arrays of each property. -/
theorem ofGroup_queryString (arrays : List String) {value : Json} (h : IsPlain value) :
    OfGroup fun n => queryString
      (Json.ofTexts (arrays.map fun array => Field.inGroup (Field.group n) array)) value := by
  refine ofGroup_single (by decide) fun n m => ?_
  have hkey := swapFront_of_head_ne n (Field.group m ++ ".")
    (show "fields".toList.head? ≠ some 'P' by decide)
  have hnames : ((arrays.map fun array => Field.inGroup (Field.group n) array).map Json.str).map
      (swapName (Field.group n ++ ".") (Field.group m ++ ".")) =
        (arrays.map fun array => Field.inGroup (Field.group m) array).map Json.str := by
    simp only [List.map_map]
    exact List.map_congr_left fun array _ => congrArg Json.str (swapFront_inGroup n m array)
  have hquery := swapFront_of_head_ne n (Field.group m ++ ".")
    (show "query".toList.head? ≠ some 'P' by decide)
  simp only [Json.ofTexts, listed, renameFields, renameMembers, hkey, hquery, renameNames, hnames, h _ _,
    if_true, show ("fields" = "field") = False by decide, show ("query" = "field") = False by decide,
    show ("query" = "fields") = False by decide, if_false]
  rfl

theorem ofGroup_boundingBox (array : String) {top left bottom right : Json} (htop : IsPlain top)
    (hleft : IsPlain left) (hbottom : IsPlain bottom) (hright : IsPlain right) :
    OfGroup fun n => boundingBox (Field.inGroup (Field.group n) array) top left bottom right :=
  ofGroup_single (by decide) (ofGroup_onField array (ofGroup_pair (by decide) (by decide) (by decide)
    (ofGroup_pair (by decide) (by decide) (by decide) htop.ofGroup hleft.ofGroup)
    (ofGroup_pair (by decide) (by decide) (by decide) hbottom.ofGroup hright.ofGroup)))

end Copies

/-! ## What copies select -/

variable (M : Matching) (doc : Indexed)

/-- What a clause and its copies select together. -/
theorem holds_copies (clause : Json) (group : String) (lower : List Int) :
    holds M doc (overHierarchy clause group lower) = (holds M doc clause ||
      lower.any fun m => holds M doc (renameFields (group ++ ".") (Field.group m ++ ".") clause)) := by
  unfold overHierarchy
  cases lower with
  | nil => simp
  | cons m lower =>
      simp only [List.isEmpty_cons, Bool.false_eq_true, if_false, holds_should, Bool.false_or,
        List.any_cons, List.any_map, List.map_cons]
      rfl

/-- A clause and its copies select what the clause of one of the properties selects. -/
theorem holds_overHierarchy {make : Int → Json} (h : OfGroup make) (n : Int) (lower : List Int) :
    holds M doc (overHierarchy (make n) (Field.group n) lower) =
      (n :: lower).any fun m => holds M doc (make m) := by
  rw [holds_copies, List.any_cons]
  exact congrArg _ (congrArg _ (funext fun m => by rw [h n m]))

end FactIndex.Clause

import FactIndex.Compile.Leaf
import FactIndex.Description.Json

/-!
# The nodes of a description

A description is compiled node by node, from the leaves up. A node without a constraint has no clause,
and a compound without members has none either.

Only the expansion of a concept leads to another description; it is a parameter of the traversal. A
concept that is being expanded already is a defect, so that no more expansions lie within each other
than there are concepts with a stored query.

## Main definitions

* `Deployment.compileNode`, `Deployment.compileProperty`: the traversal.
* `Deployment.expandConcept`: the expansion of a concept.
* `Deployment.compile`: the query of a description.
-/

namespace FactIndex

namespace Description

/-- What the record of the visited nodes says about a description. -/
def portrait (d : Description) : Except Failure Members := do
  return [("type", .str d.kindName), ("query", .str (← d.queryText)),
    ("fingerprint", .str d.fingerprint), ("size", .int d.size), ("depth", .int d.depth)]

mutual

/-- Whether a description refers to a concept without a property in between. -/
def refersTo (hash : String) : Description → Bool
  | .concept c => c.hash = hash
  | .conjunction ds => anyRefersTo hash ds
  | .disjunction ds => anyRefersTo hash ds
  | .category _ _ _ | .space _ | .someProperty _ _ _ | .value _ _ _ | .thing _ => false

/-- Whether one of several descriptions refers to a concept. -/
def anyRefersTo (hash : String) : List Description → Bool
  | [] => false
  | d :: ds => d.refersTo hash || anyRefersTo hash ds

end

end Description

namespace Deployment

variable {σ : Type}

/-- How concepts are expanded, as a member of a compound or not, and where in the tree. -/
abbrev Expansion (σ : Type) := Bool → List Nat → Entity → Compiling σ (Option Json)

/-! ## Joining clauses -/

/-- A compound clause. Without members there is no constraint. -/
def joined (occur : Occur) (clauses : List Json) : Option Json :=
  if clauses.isEmpty then none else some (Clause.compound occur clauses)

/-- The fields that the negated ones among the members at a position look at, each once. -/
def negatedFields (p : Progress) (positions : List (List Nat)) : List String :=
  positions.foldl (fun fields position =>
    match p.negated.get? position with
    | some field => if fields.contains field then fields else fields ++ [field]
    | none => fields) []

/-- One of several clauses, each given with its position. A negated condition selects only documents
with the property; the disjunction as a whole does so as well. -/
def disjoined (clauses : List (List Nat × Json)) : Compiling σ (Option Json) := do
  match joined .should (clauses.map (·.2)) with
  | none => return none
  | some query =>
    let fields := negatedFields (← .progress) (clauses.map (·.1))
    return some (if fields.isEmpty then query
      else Clause.compound .must (query :: fields.map Clause.hasField))

/-! ## Properties -/

/-- The group of a property and the numbers of what lies below it. -/
def propertySite (d : Deployment σ) (p : Property) (depth : Option Int) :
    Action σ (String × List Int) := do
  let group := Field.group (← numberOf (.property p))
  return (group, ← below (.property p) (d.depthOf depth))

/-- A condition that is negated selects only documents with the property, and says so to a
disjunction that it may be a member of. -/
def negatedClause (d : Deployment σ) (path : List Nat) (field : String) (clause : Json) :
    Compiling σ Json := do
  if d.settings.query.negatedExists then
    .note fun p => { p with negated := p.negated.put path field }
  return Clause.compound .must [Clause.hasField field, Clause.compound .mustNot [clause]]

/-- The values of a property compare with an item. -/
def valueClause (d : Deployment σ) (path : List Nat) (p : Property) (site : String × List Int)
    (item : Item) (comparator : Comparator) (property : Option Property) : Compiling σ Json := do
  let m ← d.propertyCondition p site.1 item comparator property
  let clause := if p.inverse then m.clause else Clause.overHierarchy m.clause site.1 site.2
  if m.negated then d.negatedClause path (Field.inGroup site.1 m.array) clause
  else return Clause.compound m.occur [clause]

/-- The property has a value, or has none. -/
def presenceClause (p : Property) (site : String × List Int) (negated : Bool) : Json :=
  let array := if p.isPage then Field.numbers else Field.ofProperty p
  let clause := Clause.overHierarchy (Clause.hasField (Field.inGroup site.1 array)) site.1 site.2
  Clause.compound (if negated then .mustNot else .filter) [clause]

/-- The values of a property are entities that several clauses select. The text is that of the
description of these entities. -/
def objectClause (d : Deployment σ) (p : Property) (group text : String) (clauses : List Json) :
    Compiling σ (Option Json) := do
  if clauses.isEmpty then return none
  let numbers := Field.inGroup group Field.numbers
  let field := if p.isPage then numbers else "_id"
  let found ← .lookUp (d.lookup text field (.arr clauses))
  let clause ← if p.inverse then do
      let objects ← .ofExcept (Clause.fieldFilter field found)
      .lookUp (d.lookupInverse (inverseName p text) numbers objects)
    else pure found
  return some (Clause.compound .must [Clause.compound .must [clause]])

/-- What a property, followed from object to subject, leads to from the end of a chain. -/
def chainClause (d : Deployment σ) (p : Property) (field : String) (rest : Description) :
    Option Json → Compiling σ (Option Json)
  | none => return none
  | some clause => do
    if !p.inverse then return some clause
    let text ← .ofExcept rest.queryText
    let objects ← .ofExcept (Clause.fieldFilter field clause)
    return some (← .lookUp (d.lookupInverse (inverseName p text) field objects))

/-- A condition on a property, as a member of a chain if the field of the property before it is
given. -/
def linked (d : Deployment σ) (chain : Option String) (p : Property) (whole : Description) :
    Option Json → Compiling σ (Option Json)
  | none => return none
  | some clause => do
    match chain with
    | none => return some clause
    | some field =>
      let text ← .ofExcept whole.queryText
      return some (← .lookUp (d.lookupChain p text field clause))

/-! ## The traversal -/

/-- Records the visit to a node. -/
def visit (d : Deployment σ) (node : Description) : Compiling σ Unit := do
  if d.settings.query.nodeLog then
    let portrait ← .ofExcept node.portrait
    .note fun p => { p with nodes := p.nodes ++ [portrait] }

mutual

/-- The clause of a node, which may be a member of a compound and which has a position in the
tree. -/
def compileNode (d : Deployment σ) (expand : Expansion σ) (isMember : Bool) (path : List Nat) :
    Description → Compiling σ (Option Json)
  | .conjunction ds => do
    d.visit (.conjunction ds)
    return joined .must ((← d.compileMembers expand path 0 ds).map (·.2))
  | .disjunction ds => do
    d.visit (.disjunction ds)
    disjoined (← d.compileMembers expand path 0 ds)
  | .category categories depth negated => do
    d.visit (.category categories depth negated)
    return some (← .act (d.categoryClause isMember categories depth negated))
  | .concept c => do
    d.visit (.concept c)
    expand isMember path c
  | .space n => do
    d.visit (.space n)
    return some (placed isMember false true (Clause.term "subject.namespace" (.int n)))
  | .someProperty p inner depth => do
    d.visit (.someProperty p inner depth)
    d.compileProperty expand path none p depth inner
  | .value item comparator property => do
    d.visit (.value item comparator property)
    return some (← d.entityClause isMember item comparator property)
  | .thing negated => do
    d.visit (.thing negated)
    return if negated then some Clause.nothing else none

/-- The clauses of the members of a compound, each with its position. -/
def compileMembers (d : Deployment σ) (expand : Expansion σ) (path : List Nat) :
    Nat → List Description → Compiling σ (List (List Nat × Json))
  | _, [] => return []
  | i, m :: ms => do
    let clause ← d.compileNode expand true (path ++ [i]) m
    let rest ← d.compileMembers expand path (i + 1) ms
    return (match clause with
      | some clause => (path ++ [i], clause) :: rest
      | none => rest)

/-- The clause of a property whose values are described. In a chain the field of the property before
it is given. -/
def compileProperty (d : Deployment σ) (expand : Expansion σ) (path : List Nat)
    (chain : Option String) (p : Property) (depth : Option Int) :
    Description → Compiling σ (Option Json)
  | .someProperty q (.disjunction ds) qdepth => do
    let site ← .act (d.propertySite p depth)
    let rest := Description.someProperty q (.disjunction ds) qdepth
    let field := Field.inGroup site.1 Field.numbers
    let clauses ← d.compileAlternatives expand (path ++ [0]) (some field) q qdepth 0 ds
    let clause ← d.chainClause p field rest (joined .should clauses)
    d.linked chain p (.someProperty p rest depth) clause
  | .someProperty q inner qdepth => do
    let site ← .act (d.propertySite p depth)
    let rest := Description.someProperty q inner qdepth
    let field := Field.inGroup site.1 Field.numbers
    let clause ← d.compileProperty expand (path ++ [0]) (some field) q qdepth inner
    let clause ← d.chainClause p field rest clause
    d.linked chain p (.someProperty p rest depth) clause
  | .value item comparator property => do
    let site ← .act (d.propertySite p depth)
    let clause ← d.valueClause path p site item comparator property
    d.linked chain p (.someProperty p (.value item comparator property) depth) (some clause)
  | .thing negated => do
    let site ← .act (d.propertySite p depth)
    d.linked chain p (.someProperty p (.thing negated) depth) (some (presenceClause p site negated))
  | .disjunction ds => do
    let _ ← .act (d.propertySite p depth)
    let clauses ← d.compileAlternatives expand (path ++ [0]) none p depth 0 ds
    let clause := (joined .should clauses).map fun clause => Clause.compound .should [clause]
    d.linked chain p (.someProperty p (.disjunction ds) depth) clause
  | .conjunction ds => do
    let node := Description.conjunction ds
    let site ← .act (d.propertySite p depth)
    let text ← .ofExcept node.queryText
    let clauses ← d.compileMembers expand (path ++ [0]) 0 ds
    let clause ← d.objectClause p site.1 text (clauses.map (·.2))
    d.linked chain p (.someProperty p node depth) clause
  | .category categories categoryDepth negated => do
    let node := Description.category categories categoryDepth negated
    let site ← .act (d.propertySite p depth)
    let text ← .ofExcept node.queryText
    d.visit node
    let clause ← .act (d.categoryClause true categories categoryDepth negated)
    let clause ← d.objectClause p site.1 text [clause]
    d.linked chain p (.someProperty p node depth) clause
  | .concept c => do
    let site ← .act (d.propertySite p depth)
    let text ← .ofExcept (Description.concept c).queryText
    d.visit (.concept c)
    let clause ← expand true (path ++ [0]) c
    let clause ← d.objectClause p site.1 text clause.toList
    d.linked chain p (.someProperty p (.concept c) depth) clause
  | .space n => do
    let site ← .act (d.propertySite p depth)
    let text ← .ofExcept (Description.space n).queryText
    d.visit (.space n)
    let clause := Clause.term "subject.namespace" (.int n)
    let clause ← d.objectClause p site.1 text [clause]
    d.linked chain p (.someProperty p (.space n) depth) clause

/-- The clauses of a property with each of several descriptions of its values. -/
def compileAlternatives (d : Deployment σ) (expand : Expansion σ) (path : List Nat)
    (chain : Option String) (p : Property) (depth : Option Int) :
    Nat → List Description → Compiling σ (List Json)
  | _, [] => return []
  | i, m :: ms => do
    let clause ← d.compileProperty expand (path ++ [i]) chain p depth m
    let rest ← d.compileAlternatives expand path chain p depth (i + 1) ms
    return clause.toList ++ rest

end

/-! ## Concepts -/

/-- The members of a concept, which may be fetched beforehand. -/
def conceptClause (d : Deployment σ) (c : Entity) (inner : Description) :
    Option Json → Compiling σ (Option Json)
  | none => return none
  | some clause => do
    if !d.settings.query.conceptLookup then return some clause
    let number ← .act (numberOf (.entity c))
    return some (← .lookUp (d.lookupConcept c (.int number) inner clause))

/-- The clause of a concept. It is that of its stored query, which is compiled by the given
function. -/
def compileConcept (d : Deployment σ)
    (compile : Bool → List Nat → Description → Compiling σ (Option Json)) : Expansion σ :=
  fun isMember path c => do
    match (← .act catalog).query? c with
    | none | some "" => return none
    | some stored =>
      match Description.parse stored with
      | .error _ =>
        .report (.unreadable (← .ofExcept (Description.concept c).queryText))
        return some Clause.nothing
      | .ok inner =>
        if (← Compiling.progress).expanding.contains c.hash || inner.refersTo c.hash then
          .report (.circular c (← .ofExcept inner.queryText))
          return some Clause.nothing
        let clause ← .expandingOf c.hash (compile isMember (path ++ [0]) inner)
        d.conceptClause c inner clause

/-- Expands concepts, so and so many within each other. -/
def expandConcept (d : Deployment σ) : Nat → Expansion σ
  | 0 => fun _ _ _ => return some Clause.nothing
  | n + 1 => d.compileConcept (d.compileNode (d.expandConcept n))

/-- The clause of a description. -/
def compileTree (d : Deployment σ) (isMember : Bool) (description : Description) :
    Compiling σ (Option Json) := do
  let concepts := (← .act catalog).concepts
  d.compileNode (d.expandConcept (concepts.length + 1)) isMember [] description

/-- The query of a description, with what has come to light. There is no query if the description
puts no constraint on entities. -/
def compile (d : Deployment σ) (isMember : Bool) (description : Description) :
    Action σ (Option Json × Progress) :=
  Compiling.start (d.compileTree isMember description)

/-! ## The query of a search -/

/-- The query of a search whose results have the fields that they are sorted by. -/
def searchClause (d : Deployment σ) (constantScore : Bool) (sorted : List String)
    (clause : Option Json) : Json :=
  let clause :=
    if d.settings.query.sortedExists && !sorted.isEmpty then
      some (Clause.compound .must (clause.toList ++ sorted.map Clause.hasField))
    else clause
  let clause := clause.getD Clause.everything
  if constantScore then Clause.constantScore clause else clause

/-- The query of a search for a description, sorted by some fields. -/
def searchFor (d : Deployment σ) (description : Description) (constantScore : Bool)
    (sorted : List String) : Action σ (Json × Progress) := do
  let (clause, progress) ← d.compile false description
  return (d.searchClause constantScore sorted clause, progress)

end Deployment

end FactIndex

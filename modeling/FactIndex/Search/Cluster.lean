import FactIndex.Search.Client
import FactIndex.Slice
import FactIndex.Table

/-!
# A search engine in memory

The engine keeps documents by index and aliases of indices. It does not look at queries: a search
finds all documents of an index, unless its answer has been laid out beforehand. It can be made to
refuse requests and to be out of reach.

## Main definitions

* `Cluster`: documents, aliases and what has been laid out.
* `Cluster.answer`: the answer to a request.
* `Cluster.client`: the engine as a client.
-/

namespace FactIndex

/-- Documents by id. -/
abbrev Documents := Table String Json

/-- A search engine in memory. -/
structure Cluster where
  /-- The documents of each index. -/
  indices : Table String Documents := []
  /-- The indices that each alias stands for. -/
  aliases : Table String (List String) := []
  /-- Answers to the next searches. -/
  script : List Json := []
  /-- Errors with which requests are answered, by name. -/
  errors : Table String ClientError := []
  isAvailable : Bool := true
  /-- The ids of documents that refuse to be written. -/
  refused : List String := []
  /-- The answer to the next counts, if it is not the number of documents. -/
  countValue : Option Json := none
  isClosed : Bool := false
deriving DecidableEq

namespace Cluster

/-! ## Aliases -/

/-- The targets of an alias, in order. -/
def targets (c : Cluster) (name : String) : List String :=
  ((c.aliases.get? name).getD []).mergeSort (· ≤ ·)

/-- The index that a name stands for: the first target of an alias, or else the index itself. -/
def resolve (c : Cluster) (name : String) : String := (c.targets name).head?.getD name

/-- The documents of the index that a name stands for. -/
def documents (c : Cluster) (name : String) : Documents :=
  (c.indices.get? (c.resolve name)).getD []

/-- Sets the documents of the index that a name stands for. The index is made if it is not there. -/
def setDocuments (c : Cluster) (name : String) (docs : Documents) : Cluster :=
  { c with indices := c.indices.put (c.resolve name) docs }

/-- Whether a name is that of an index, or of an alias with targets. -/
def hasName (c : Cluster) (name : String) : Bool :=
  c.indices.has name || !(c.targets name).isEmpty

/-- Adds a target to an alias, or removes one. -/
def changeAlias (c : Cluster) (name index : String) (adds : Bool) : Cluster :=
  let old := ((c.aliases.get? name).getD []).filter (· ≠ index)
  { c with aliases := c.aliases.put name (if adds then old ++ [index] else old) }

/-- A member of an object that is a text. -/
def textOf (j : Json) (key : String) : String :=
  match j.get? key with
  | some (.str s) => s
  | _ => ""

/-- Does what a list of changes of aliases asks for. -/
def changeAliases (c : Cluster) (actions : List Json) : Cluster :=
  actions.foldl (fun c action =>
    match action with
    | .obj ms => ms.foldl (fun c m =>
        c.changeAlias (textOf m.2 "alias") (textOf m.2 "index") (m.1 == "add")) c
    | _ => c) c

/-- Removes an index, also from all aliases. -/
def removeIndex (c : Cluster) (name : String) : Cluster :=
  { c with
    indices := c.indices.erase name
    aliases := c.aliases.map fun a => (a.1, a.2.filter (· ≠ name)) }

/-! ## Searches -/

/-- The answer to a search that found some documents. -/
def found (options : Members) (hits : List Json) (total took score : Option Json) : Json :=
  let start := match Table.get? options "from_" with
    | some (.int n) => n
    | _ => 0
  let page := match Table.get? options "size" with
    | some (.int size) => slice hits start (start + size)
    | _ => slice hits start hits.length
  let total := match total with
    | some (.obj ms) => .obj ms
    | some value => .single "value" value
    | none => .single "value" (.int hits.length)
  .obj [("took", took.getD (.int 1)),
    ("hits", .obj [("total", total), ("max_score", score.getD .null), ("hits", .arr page)])]

/-- A document that is laid out by its number stands for one without content. -/
def hitOf : Json → Json
  | .int n => .obj [("_id", .str (toString n)), ("_source", .obj [])]
  | hit => hit

/-- An error as it is laid out: a word, or the status and the kind of a refusal. -/
def errorOf : Json → ClientError
  | .str "connection" => .connection
  | .str "timeout" => .timeout
  | .str "transport" => .transport
  | value =>
    let status := match value.get? "status" with
      | some (.int n) => n
      | _ => 500
    .refused status ((value.get? "error").getD .null) (value.get? "reason")

/-- The answer to a search that has been laid out. -/
def scripted (options : Members) (entry : Json) : Except ClientError Json :=
  match entry.get? "error", entry.get? "raw" with
  | some e, _ => .error (errorOf e)
  | none, some answer => .ok answer
  | none, none =>
    let hits := match entry.get? "hits" with
      | some (.arr xs) => xs.map hitOf
      | _ => []
    .ok (found options hits (entry.get? "total") (entry.get? "took") (entry.get? "max_score"))

/-- The answer to a search. -/
def search (c : Cluster) (index : String) (options : Members) :
    Except ClientError Json × Cluster :=
  match c.script with
  | entry :: rest => (scripted options entry, { c with script := rest })
  | [] =>
    let hits := (c.documents index).map fun d => .obj [("_id", .str d.1), ("_source", d.2)]
    (.ok (found options hits none none none), c)

/-! ## Writes -/

/-- What is reported of a write. -/
def report (action id : String) (status : Int) (more : Members := []) : Json :=
  .single action (.obj ([("_id", .str id), ("status", .int status)] ++ more))

/-- What is reported of a refused write. -/
def refusal (action id : String) : Json :=
  report action id 400 [("error", .single "type" (.str "mapper_exception"))]

/-- A document in which members are set. -/
def update (document more : Json) : Json :=
  match document, more with
  | .obj ms, .obj more => .obj (Table.merge ms more)
  | _, more => more

/-- Stores a document. -/
def store (c : Cluster) (index id : String) (document : Json) : Cluster :=
  c.setDocuments index ((c.documents index).put id document)

/-- Deletes a document. -/
def delete (c : Cluster) (index id : String) : Cluster :=
  c.setDocuments index ((c.documents index).erase id)

/-- Sets members of a document, which is made if it is not there. -/
def updateDocument (c : Cluster) (index id : String) (source : Json) : Cluster :=
  let current := ((c.documents index).get? id).getD (.obj [])
  c.store index id (update current ((source.get? "doc").getD (.obj [])))

/-- Does writes in order. The reports are in the same order. -/
def writeAll (c : Cluster) : List Json → List Json × Cluster
  | [] => ([], c)
  | operation :: rest =>
    match operation with
    | .obj ((action, target) :: _) =>
      let index := textOf target "_index"
      let id := textOf target "_id"
      let isRefused := c.refused.contains id
      if action = "delete" then
        let wasThere := (c.documents index).has id
        let (report, next) :=
          if isRefused then (refusal action id, c)
          else (report action id (if wasThere then 200 else 404), c.delete index id)
        let (reports, last) := next.writeAll rest
        (report :: reports, last)
      else
        match rest with
        | source :: rest =>
          let (report, next) :=
            if isRefused then (refusal action id, c)
            else if action = "update" then
              (report action id 200, c.updateDocument index id source)
            else (report action id 200, c.store index id source)
          let (reports, last) := next.writeAll rest
          (report :: reports, last)
        | [] => ([], c)
    | _ => ([], c)

/-- Whether a report is that of a refused write. -/
def isRefusal : Json → Bool
  | .obj ((_, report) :: _) => (report.get? "error").isSome
  | _ => false

/-- The answer to several writes. -/
def bulk (c : Cluster) (operations : List Json) : Json × Cluster :=
  let (reports, c) := c.writeAll operations
  (.obj [("errors", .bool (reports.any isRefusal)), ("items", .arr reports)], c)

/-! ## Requests -/

/-- What is answered if nothing stands in the way. -/
def perform (c : Cluster) : Request → Except ClientError Json × Cluster
  | .ping => (.ok (.bool c.isAvailable), c)
  | .search index options => c.search index options
  | .count index _ =>
    (.ok (.single "count" (c.countValue.getD (.int (c.documents index).length))), c)
  | .validate index _ =>
    (.ok (.obj [("valid", .bool true),
      ("explanations", .arr [.single "index" (.str index)])]), c)
  | .store index id document => (.ok (.obj []), c.store index id document)
  | .refresh _ => (.ok (.obj []), c)
  | .bulk operations =>
    let (answer, c) := c.bulk operations
    (.ok answer, c)
  | .hasIndex name => (.ok (.bool (c.hasName name)), c)
  | .hasAlias name => (.ok (.bool !(c.targets name).isEmpty), c)
  | .aliasTargets name =>
    (.ok (.obj ((c.targets name).map fun t => (t, .obj []))), c)
  | .createIndex name _ =>
    if c.indices.has name then
      (.error (.refused 400 (.str "resource_already_exists_exception") none), c)
    else (.ok (.obj []), { c with indices := c.indices.put name [] })
  | .deleteIndex name =>
    if c.indices.has name then (.ok (.obj []), c.removeIndex name)
    else (.error (.refused 404 (.str "index_not_found_exception") none), c)
  | .updateAliases actions => (.ok (.obj []), c.changeAliases actions)
  | .close => (.ok .null, { c with isClosed := true })

/-- The answer to a request. An error that was laid out comes first, then the engine has to be in
reach; whether it is can always be asked. -/
def answer (c : Cluster) (r : Request) : Except ClientError Json × Cluster :=
  match c.errors.get? r.name with
  | some e => (.error e, c)
  | none =>
    if c.isAvailable ∨ r = .ping then c.perform r else (.error .connection, c)

/-- The engine as a client. -/
def client : SearchClient Cluster := ⟨fun r c => c.answer r⟩

end Cluster

end FactIndex

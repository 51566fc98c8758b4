import FactIndex.Network

/-!
# The client of the search engine

The search engine is asked through a client. What it answers depends on a state that is the engine's
own business; nothing else here looks into it.

## Main definitions

* `Request`: what the engine can be asked.
* `Request.call`: the record of a request.
* `SearchClient`: an engine, as the function that answers requests.
-/

namespace FactIndex

/-- What the search engine can be asked. -/
inductive Request where
  /-- Whether it is there. -/
  | ping
  | search (index : String) (options : Members)
  | count (index : String) (query : Json)
  | validate (index : String) (query : Json)
  /-- To store a document. -/
  | store (index id : String) (document : Json)
  /-- To make what was stored visible to searches. -/
  | refresh (index : String)
  /-- To do several writes. -/
  | bulk (operations : List Json)
  | hasIndex (name : String)
  | hasAlias (name : String)
  | aliasTargets (name : String)
  | createIndex (name : String) (body : Members)
  | deleteIndex (name : String)
  | updateAliases (actions : List Json)
  | close
deriving DecidableEq

namespace Request

/-- The name of a request. -/
def name : Request → String
  | .ping => "ping"
  | .search _ _ => "search"
  | .count _ _ => "count"
  | .validate _ _ => "validate"
  | .store _ _ _ => "index"
  | .refresh _ => "refresh"
  | .bulk _ => "bulk"
  | .hasIndex _ => "exists"
  | .hasAlias _ => "exists_alias"
  | .aliasTargets _ => "get_alias"
  | .createIndex _ _ => "create"
  | .deleteIndex _ => "delete_index"
  | .updateAliases _ => "update_aliases"
  | .close => "close"

/-- The arguments of a request. The body of a new index is not recorded. -/
def arguments : Request → Members
  | .ping | .close => []
  | .search index options => ("index", .str index) :: options
  | .count index query => [("index", .str index), ("query", query)]
  | .validate index query => [("index", .str index), ("query", query), ("explain", .bool true)]
  | .store index id document =>
    [("index", .str index), ("id", .str id), ("document", document)]
  | .refresh index => [("index", .str index)]
  | .bulk operations => [("operations", .arr operations)]
  | .hasIndex name => [("index", .str name)]
  | .hasAlias name => [("name", .str name)]
  | .aliasTargets name => [("name", .str name)]
  | .createIndex name _ => [("index", .str name)]
  | .deleteIndex name => [("index", .str name)]
  | .updateAliases actions => [("actions", .arr actions)]

/-- The record of a request. -/
def call (r : Request) : Call := ⟨r.name, .obj r.arguments⟩

/-- Whether a request can change documents or indices. -/
def isWrite : Request → Bool
  | .store _ _ _ | .bulk _ | .createIndex _ _ | .deleteIndex _ | .updateAliases _ => true
  | _ => false

end Request

/-- A search engine with states of type `σ`. -/
structure SearchClient (σ : Type) where
  send : Request → σ → Except ClientError Json × σ

end FactIndex

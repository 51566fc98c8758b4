import FactIndex.Failure
import FactIndex.Schema.Record

/-!
# Settings

What can be set: how queries are compiled and run, how intermediate results are kept, how values are
written, how often a deferred write is tried again, and what the indices are called.

## Main definitions

* `QuerySettings`, `SubquerySettings`, `WriterSettings`, `RetrySettings`, `IndexSettings`: the groups.
* `Settings`: all of them, with `Settings.read` and `Settings.toJson`.
-/

namespace FactIndex

open FactIndex.Schema

/-- A duration in seconds with a default. The default is kept apart, because it is shown as a whole
number while a duration that was set is a float. -/
structure Duration where
  set? : Option Float := none
deriving DecidableEq

namespace Duration

/-- The duration in seconds. -/
def seconds (d : Duration) (default : Nat) : Float := d.set?.getD (Float.ofNat default)

/-- The duration as it is shown. -/
def toJson (d : Duration) (default : Nat) : Json :=
  match d.set? with
  | some x => .float x
  | none => .int default

/-- Reads a duration. -/
def read (value : Json) : Checked Duration := (fun x => ⟨some x⟩) <$> number value

end Duration

/-- How queries are compiled and run. -/
structure QuerySettings where
  /-- Whether queries that only filter go without scores. -/
  constantScore : Bool := true
  /-- Whether results must have the properties they are sorted by. -/
  sortedExists : Bool := true
  /-- Whether a negated condition inside a disjunction asks for the property all the same. -/
  negatedExists : Bool := true
  /-- Whether equality of texts is that of their words. -/
  textIgnoresCase : Bool := false
  /-- Whether addresses are compared in small letters. -/
  uriIgnoresCase : Bool := false
  /-- Whether `+` and `-` are operators inside of patterns. -/
  operators : Bool := true
  /-- The fields searched by a pattern that names no property. -/
  wideFields : List String := ["text_all"]
  /-- Whether such a pattern without wildcard is a phrase. -/
  widePhrase : Bool := true
  /-- Whether the members of a concept are fetched beforehand. -/
  conceptLookup : Bool := true
  /-- How many members of a hierarchy count, all if nothing is said. -/
  depth : Option Int := none
  /-- Whether searches are profiled. -/
  profile : Bool := false
  /-- Whether the nodes of a description are recorded. -/
  nodeLog : Bool := false
  /-- Whether another store answers when the search engine is down. -/
  otherStore : Bool := false
  /-- The sort key that stands for the score. -/
  scoreKey : String := "es.score"
deriving DecidableEq

/-- How intermediate results are kept. -/
structure SubquerySettings where
  /-- The number of results from which on they are stored as a document. -/
  threshold : Int := 100
  /-- The number of results asked for. -/
  size : Int := 100
  /-- How long results are remembered. -/
  lifetime : Duration := {}
  /-- Whether conditions on stored results go without scores. -/
  constantScore : Bool := true
  /-- The number of members from which on those of a concept are stored as a document. -/
  conceptThreshold : Int := 100
  /-- How long the members of a concept are remembered. -/
  conceptLifetime : Duration := {}
deriving DecidableEq

/-- How values are written. -/
structure WriterSettings where
  /-- Whether texts keep the targets of their links. -/
  rawText : Bool := false
  /-- Whether keywords are written in their normal form. -/
  normalKeywords : Bool := true
deriving DecidableEq

/-- How often and when a deferred write is tried again. -/
structure RetrySettings where
  /-- How often a job is put back. -/
  retries : Int := 5
  /-- How long a job that was put back has to wait. -/
  delay : Duration := {}
  /-- How long the changes of a deferred write are kept. -/
  changesLifetime : Duration := {}
deriving DecidableEq

/-- What the indices are called and made of. -/
structure IndexSettings where
  /-- The front of all names. -/
  stem : String := "semindex"
  /-- Additional settings of both indices. -/
  settings : Members := []
  /-- Additional mappings of the data index. -/
  mappings : Members := []
deriving DecidableEq

/-- All settings. -/
structure Settings where
  query : QuerySettings := {}
  subquery : SubquerySettings := {}
  writer : WriterSettings := {}
  retry : RetrySettings := {}
  index : IndexSettings := {}
deriving DecidableEq

/-! ## Defaults -/

/-- How long results are remembered by default, in seconds. -/
def SubquerySettings.defaultLifetime : Nat := 60

/-- How long results are remembered. -/
def SubquerySettings.lifetimeSeconds (s : SubquerySettings) : Float :=
  s.lifetime.seconds defaultLifetime

/-- How long the members of a concept are remembered. -/
def SubquerySettings.conceptLifetimeSeconds (s : SubquerySettings) : Float :=
  s.conceptLifetime.seconds defaultLifetime

/-- How long a job waits by default, in seconds. -/
def RetrySettings.defaultDelay : Nat := 600

/-- How long a job waits. -/
def RetrySettings.delaySeconds (s : RetrySettings) : Float := s.delay.seconds defaultDelay

/-- How long changes are kept by default, in seconds. -/
def RetrySettings.defaultChangesLifetime : Nat := 86400

/-- How long changes are kept. -/
def RetrySettings.changesLifetimeSeconds (s : RetrySettings) : Float :=
  s.changesLifetime.seconds defaultChangesLifetime

/-! ## Writing -/

/-- The JSON form of the query settings. -/
def QuerySettings.toJson (s : QuerySettings) : Json :=
  .obj [("constant_score", .bool s.constantScore), ("sort_property_exists", .bool s.sortedExists),
    ("must_not_property_exists", .bool s.negatedExists),
    ("text_case_insensitive", .bool s.textIgnoresCase),
    ("uri_case_insensitive", .bool s.uriIgnoresCase), ("boolean_operators", .bool s.operators),
    ("wide_proximity_fields", Json.ofTexts s.wideFields),
    ("wide_proximity_as_match_phrase", .bool s.widePhrase),
    ("concept_terms_lookup", .bool s.conceptLookup), ("hierarchy_depth", Json.ofInt? s.depth),
    ("profile", .bool s.profile), ("debug_description_log", .bool s.nodeLog),
    ("no_connection_fallback", .bool s.otherStore), ("score_sortfield", .str s.scoreKey)]

/-- The JSON form of the settings of intermediate results. -/
def SubquerySettings.toJson (s : SubquerySettings) : Json :=
  .obj [("terms_lookup_result_size_index_write_threshold", .int s.threshold),
    ("size", .int s.size),
    ("terms_lookup_cache_lifetime", s.lifetime.toJson defaultLifetime),
    ("constant_score", .bool s.constantScore),
    ("concept_terms_lookup_result_size_index_write_threshold", .int s.conceptThreshold),
    ("concept_terms_lookup_cache_lifetime", s.conceptLifetime.toJson defaultLifetime)]

/-- The JSON form of the settings for writing. -/
def WriterSettings.toJson (s : WriterSettings) : Json :=
  .obj [("raw_text", .bool s.rawText), ("keyword_normalize", .bool s.normalKeywords)]

/-- The JSON form of the settings of deferred writes. -/
def RetrySettings.toJson (s : RetrySettings) : Json :=
  .obj [("recovery_job_retries", .int s.retries),
    ("recovery_job_delay", s.delay.toJson defaultDelay),
    ("change_diff_ttl", s.changesLifetime.toJson defaultChangesLifetime)]

/-- The JSON form of the settings of the indices. -/
def IndexSettings.toJson (s : IndexSettings) : Json :=
  .obj [("prefix", .str s.stem), ("settings", .obj s.settings), ("mappings", .obj s.mappings)]

/-- The JSON form of the settings. -/
def Settings.toJson (s : Settings) : Json :=
  .obj [("query", s.query.toJson), ("subquery", s.subquery.toJson), ("indexer", s.writer.toJson),
    ("replication", s.retry.toJson), ("index", s.index.toJson)]

/-! ## Reading

Every field has a default, and members that are no field are ignored. -/

/-- Reads the query settings. -/
def QuerySettings.read : Json → Checked QuerySettings := record fun ms =>
  let flag (name : String) (default : Bool) : Checked Bool := withDefault ms name default truth
  QuerySettings.mk <$> flag "constant_score" true <*> flag "sort_property_exists" true <*>
    flag "must_not_property_exists" true <*> flag "text_case_insensitive" false <*>
    flag "uri_case_insensitive" false <*> flag "boolean_operators" true <*>
    withDefault ms "wide_proximity_fields" ["text_all"] (listOf text) <*>
    flag "wide_proximity_as_match_phrase" true <*> flag "concept_terms_lookup" true <*>
    withDefault ms "hierarchy_depth" none (optional integer) <*> flag "profile" false <*>
    flag "debug_description_log" false <*> flag "no_connection_fallback" false <*>
    withDefault ms "score_sortfield" "es.score" text

/-- Reads the settings of intermediate results. -/
def SubquerySettings.read : Json → Checked SubquerySettings := record fun ms =>
  SubquerySettings.mk <$>
    withDefault ms "terms_lookup_result_size_index_write_threshold" 100 integer <*>
    withDefault ms "size" 100 integer <*>
    withDefault ms "terms_lookup_cache_lifetime" {} Duration.read <*>
    withDefault ms "constant_score" true truth <*>
    withDefault ms "concept_terms_lookup_result_size_index_write_threshold" 100 integer <*>
    withDefault ms "concept_terms_lookup_cache_lifetime" {} Duration.read

/-- Reads the settings for writing. -/
def WriterSettings.read : Json → Checked WriterSettings := record fun ms =>
  WriterSettings.mk <$> withDefault ms "raw_text" false truth <*>
    withDefault ms "keyword_normalize" true truth

/-- Reads the settings of deferred writes. -/
def RetrySettings.read : Json → Checked RetrySettings := record fun ms =>
  RetrySettings.mk <$> withDefault ms "recovery_job_retries" 5 integer <*>
    withDefault ms "recovery_job_delay" {} Duration.read <*>
    withDefault ms "change_diff_ttl" {} Duration.read

/-- Reads the settings of the indices. -/
def IndexSettings.read : Json → Checked IndexSettings := record fun ms =>
  IndexSettings.mk <$> withDefault ms "prefix" "semindex" text <*>
    withDefault ms "settings" [] members <*> withDefault ms "mappings" [] members

/-- Reads the settings. -/
def Settings.read : Json → Checked Settings := record fun ms =>
  Settings.mk <$> withDefault ms "query" {} QuerySettings.read <*>
    withDefault ms "subquery" {} SubquerySettings.read <*>
    withDefault ms "indexer" {} WriterSettings.read <*>
    withDefault ms "replication" {} RetrySettings.read <*>
    withDefault ms "index" {} IndexSettings.read

end FactIndex

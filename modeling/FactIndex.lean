import FactIndex.Cache.Basic
import FactIndex.Cache.Operations
import FactIndex.Calendar.Time
import FactIndex.Compile.Condition
import FactIndex.Compile.Leaf
import FactIndex.Compile.Node
import FactIndex.Compile.Progress
import FactIndex.Decimal.Binary
import FactIndex.Decimal.Layout
import FactIndex.Decimal.Numeral
import FactIndex.Decimal.Shortest
import FactIndex.Description.Basic
import FactIndex.Description.Json
import FactIndex.Digest.Md5
import FactIndex.Digest.Structural
import FactIndex.Dispatch.Component
import FactIndex.Dispatch.Greeter
import FactIndex.Dispatch.Kind
import FactIndex.Dispatch.Loader
import FactIndex.Dispatch.Operation
import FactIndex.Fact.Catalog
import FactIndex.Fact.Entity
import FactIndex.Fact.Item
import FactIndex.Fact.Property
import FactIndex.Failure
import FactIndex.Index.Body
import FactIndex.Index.Load
import FactIndex.Index.Settings
import FactIndex.Json.Basic
import FactIndex.Json.Display
import FactIndex.Json.Number
import FactIndex.Json.Printer
import FactIndex.Json.Reader
import FactIndex.Json.Token
import FactIndex.KeyValue.Link
import FactIndex.KeyValue.Server
import FactIndex.Network
import FactIndex.Queue.Basic
import FactIndex.Queue.Message
import FactIndex.Queue.Operations
import FactIndex.Schema.Issue
import FactIndex.Schema.Record
import FactIndex.Search.Clause
import FactIndex.Search.Client
import FactIndex.Search.Cluster
import FactIndex.Search.Field
import FactIndex.Search.Hits
import FactIndex.Search.Query
import FactIndex.Slice
import FactIndex.Store.Connection
import FactIndex.Store.Lookup
import FactIndex.Store.Operations
import FactIndex.Store.Plan
import FactIndex.Store.Retrieval
import FactIndex.Store.Sorting
import FactIndex.Store.World
import FactIndex.Table
import FactIndex.Text.Characters
import FactIndex.Text.Lowercase
import FactIndex.Text.Control
import FactIndex.Text.Fields
import FactIndex.Text.Links
import FactIndex.Text.Percent
import FactIndex.Text.Quoted
import FactIndex.Update.Change
import FactIndex.Update.Document
import FactIndex.Update.Generation
import FactIndex.Update.Job
import FactIndex.Update.Recovery
import FactIndex.Update.Write
import FactIndex.Yaml.Cursor
import FactIndex.Yaml.Printer
import FactIndex.Yaml.Reader
import FactIndex.Yaml.Scalar
import FactIndex.Yaml.Token
import FactIndex.Proofs.Compile.Inline
import FactIndex.Proofs.Store.Catalog
import FactIndex.Proofs.Compile.ConceptGraph
import FactIndex.Proofs.Compile.Cycle
import FactIndex.Proofs.Cache.Content
import FactIndex.Proofs.Cache.View
import FactIndex.Proofs.Decimal.Written
import FactIndex.Proofs.Fact.EntityHash
import FactIndex.Proofs.Json.Printed
import FactIndex.Proofs.Lookup.History
import FactIndex.Proofs.Lookup.Reference
import FactIndex.Proofs.Update.Deferral
import FactIndex.Proofs.Update.Outage
import FactIndex.Proofs.Update.Exact
import FactIndex.Proofs.Update.Creation
import FactIndex.Proofs.Update.Overtaken
import FactIndex.Proofs.Update.Superseded
import FactIndex.Proofs.Queue.Flight
import FactIndex.Proofs.Update.Runner
import FactIndex.Proofs.Compile.Disjunction
import FactIndex.Proofs.Cache.Entry
import FactIndex.Proofs.Compile.Again
import FactIndex.Proofs.Compile.Chain
import FactIndex.Proofs.Queue.Contents
import FactIndex.Proofs.Update.Decided
import FactIndex.Proofs.Queue.Load
import FactIndex.Proofs.Decimal.Order
import FactIndex.Proofs.Update.Steady
import FactIndex.Proofs.Update.Timeline
import FactIndex.Proofs.Update.Awaited
import FactIndex.Proofs.Update.Course
import FactIndex.Proofs.Update.Budget
import FactIndex.Proofs.Compile.Standing
import FactIndex.Proofs.Compile.Sense
import FactIndex.Proofs.Lookup.Named
import FactIndex.Proofs.Lookup.Shortened
import FactIndex.Proofs.Lookup.Repetition
import FactIndex.Proofs.Update.Target
import FactIndex.Proofs.Lookup.Removal
import FactIndex.Proofs.Compile.Hindsight
import FactIndex.Proofs.Compile.Places
import FactIndex.Proofs.Compile.Meant
import FactIndex.Proofs.Compile.Nodes
import FactIndex.Proofs.Compile.Expanded
import FactIndex.Proofs.Compile.Numbering
import FactIndex.Proofs.Compile.Materialized
import FactIndex.Proofs.Compile.Direct
import FactIndex.Proofs.Compile.Contrary
import FactIndex.Proofs.Update.Findable
import FactIndex.Proofs.Queue.Delivery
import FactIndex.Proofs.Queue.Interchange
import FactIndex.Proofs.Compile.WellFormed
import FactIndex.Proofs.Generation.Course
import FactIndex.Proofs.Cache.Interchange
import FactIndex.Proofs.Compile.Unconstrained
import FactIndex.Proofs.Description.Stored
import FactIndex.Proofs.Fact.Stored
import FactIndex.Proofs.Json.Nesting
import FactIndex.Proofs.Store.Paging
import FactIndex.Proofs.Store.Repetition
import FactIndex.Proofs.Compile.Absence
import FactIndex.Proofs.Compile.Subproperties
import FactIndex.Proofs.Compile.Inverse
import FactIndex.Proofs.Compile.Hierarchy
import FactIndex.Proofs.Lookup.Identity
import FactIndex.Proofs.Update.Mapping
import FactIndex.Proofs.Calendar.Clock
import FactIndex.Proofs.Queue.Refusal
import FactIndex.Proofs.Store.Scored
import FactIndex.Proofs.Compile.Bounds
import FactIndex.Proofs.Queue.Looking
import FactIndex.Proofs.Lookup.Threshold
import FactIndex.Proofs.Text.Links
import FactIndex.Proofs.Store.Chosen
import FactIndex.Proofs.Compile.Categories
import FactIndex.Proofs.Index.Merge

import Requisite.Aliases
import Requisite.Analyzer
import Requisite.Catalog
import Requisite.Category
import Requisite.Code.Builder
import Requisite.Code.Event
import Requisite.Code.Expr
import Requisite.Code.Json
import Requisite.Code.Name
import Requisite.Code.Node
import Requisite.Command
import Requisite.Construct
import Requisite.Error
import Requisite.Filter
import Requisite.Grouped
import Requisite.Guard
import Requisite.Json.Printer
import Requisite.Json.Reader
import Requisite.Main
import Requisite.Metrics
import Requisite.Project
import Requisite.Proofs.Afresh
import Requisite.Proofs.ArgumentRules
import Requisite.Proofs.Attribution
import Requisite.Proofs.Batches
import Requisite.Proofs.ByteOrder
import Requisite.Proofs.Carried
import Requisite.Proofs.CatalogBounds
import Requisite.Proofs.CatalogInserts
import Requisite.Proofs.Conditions
import Requisite.Proofs.Counters
import Requisite.Proofs.Credited
import Requisite.Proofs.Entries
import Requisite.Proofs.Exact
import Requisite.Proofs.Extensions
import Requisite.Proofs.FilterText
import Requisite.Proofs.Flow
import Requisite.Proofs.Follow
import Requisite.Proofs.Growth
import Requisite.Proofs.Guarded
import Requisite.Proofs.JsonText
import Requisite.Proofs.Level
import Requisite.Proofs.Lookups
import Requisite.Proofs.Marks
import Requisite.Proofs.Merging
import Requisite.Proofs.Moves
import Requisite.Proofs.NameText
import Requisite.Proofs.Native
import Requisite.Proofs.Nesting
import Requisite.Proofs.Obscured
import Requisite.Proofs.Outline
import Requisite.Proofs.Overall
import Requisite.Proofs.Places
import Requisite.Proofs.RangeJson
import Requisite.Proofs.Records
import Requisite.Proofs.Reordered
import Requisite.Proofs.Reports
import Requisite.Proofs.Restored
import Requisite.Proofs.Sites
import Requisite.Proofs.Summaries
import Requisite.Proofs.Tables
import Requisite.Proofs.Text
import Requisite.Proofs.Traversal
import Requisite.Proofs.TreeJson
import Requisite.Proofs.Updates
import Requisite.Proofs.Upward
import Requisite.Proofs.VersionGrammar
import Requisite.Proofs.VersionOrder
import Requisite.Proofs.VersionText
import Requisite.Proofs.Walk
import Requisite.Range.Json
import Requisite.Report
import Requisite.Sample
import Requisite.Scopes
import Requisite.Settings
import Requisite.Version.Order

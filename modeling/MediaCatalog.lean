import MediaCatalog.Catalog.Basic
import MediaCatalog.Catalog.Codec
import MediaCatalog.Catalog.Record
import MediaCatalog.Catalog.Transaction
import MediaCatalog.Catalog.Write
import MediaCatalog.CommandLine.Arguments
import MediaCatalog.CommandLine.Command
import MediaCatalog.CommandLine.Execute
import MediaCatalog.CommandLine.Usage
import MediaCatalog.Database.Companion
import MediaCatalog.Database.Connection
import MediaCatalog.Database.Fault
import MediaCatalog.Database.Location
import MediaCatalog.Digest.Blake3
import MediaCatalog.Disk.Access
import MediaCatalog.Disk.Listing
import MediaCatalog.Disk.Path
import MediaCatalog.Disk.Tree
import MediaCatalog.Fault
import MediaCatalog.Identity.Maintenance
import MediaCatalog.Identity.Reconcile
import MediaCatalog.Identity.Resolution
import MediaCatalog.Identity.Supply
import MediaCatalog.Main
import MediaCatalog.Proofs.Catalog.Marks
import MediaCatalog.Proofs.Catalog.Tables
import MediaCatalog.Proofs.Catalog.TagRows
import MediaCatalog.Proofs.Catalog.TagRuns
import MediaCatalog.Proofs.CommandLine.Scan
import MediaCatalog.Proofs.Database.Elsewhere
import MediaCatalog.Proofs.Database.Untouched
import MediaCatalog.Proofs.Disk.Companions
import MediaCatalog.Proofs.Disk.Entries
import MediaCatalog.Proofs.Disk.Faces
import MediaCatalog.Proofs.Disk.Listing
import MediaCatalog.Proofs.Disk.Names
import MediaCatalog.Proofs.Identity.Discovery
import MediaCatalog.Proofs.Identity.Divergence
import MediaCatalog.Proofs.Identity.Exclusive
import MediaCatalog.Proofs.Identity.Frame
import MediaCatalog.Proofs.Identity.Holders
import MediaCatalog.Proofs.Identity.Interleaving
import MediaCatalog.Proofs.Identity.Issue
import MediaCatalog.Proofs.Identity.Placement
import MediaCatalog.Proofs.Identity.Relocation
import MediaCatalog.Proofs.Identity.Revisit
import MediaCatalog.Proofs.Identity.Settlement
import MediaCatalog.Proofs.Identity.Soundness
import MediaCatalog.Proofs.Identity.Steps
import MediaCatalog.Proofs.Identity.Undisturbed
import MediaCatalog.Proofs.Identity.Upkeep
import MediaCatalog.Proofs.Query.Bracketing
import MediaCatalog.Proofs.Query.Depth
import MediaCatalog.Proofs.Query.Expression
import MediaCatalog.Proofs.Query.Form
import MediaCatalog.Proofs.Query.Grammar
import MediaCatalog.Proofs.Query.Grouping
import MediaCatalog.Proofs.Query.Literal
import MediaCatalog.Proofs.Query.Operand
import MediaCatalog.Proofs.Query.Operators
import MediaCatalog.Proofs.Query.Quoting
import MediaCatalog.Proofs.Query.Reading
import MediaCatalog.Proofs.Query.Repair
import MediaCatalog.Proofs.Query.RoundTrip
import MediaCatalog.Proofs.Query.Segments
import MediaCatalog.Proofs.Query.Spelling
import MediaCatalog.Proofs.Query.Stripping
import MediaCatalog.Proofs.Search.Distinct
import MediaCatalog.Proofs.Search.Frequencies
import MediaCatalog.Proofs.Search.Join
import MediaCatalog.Proofs.Search.Ordering
import MediaCatalog.Proofs.Search.Paging
import MediaCatalog.Proofs.Search.Paths
import MediaCatalog.Proofs.Search.Plan
import MediaCatalog.Proofs.Search.TagTerms
import MediaCatalog.Proofs.Search.Tags
import MediaCatalog.Proofs.Text.Caseless
import MediaCatalog.Proofs.Text.Like
import MediaCatalog.Proofs.Text.Utf8
import MediaCatalog.Proofs.Workspace.Attempts
import MediaCatalog.Proofs.Workspace.Calls
import MediaCatalog.Proofs.Workspace.Deeds
import MediaCatalog.Proofs.Workspace.Elsewhere
import MediaCatalog.Proofs.Workspace.Failure
import MediaCatalog.Proofs.Workspace.Keeping
import MediaCatalog.Proofs.Workspace.Listing
import MediaCatalog.Proofs.Workspace.Marking
import MediaCatalog.Proofs.Workspace.Schedule
import MediaCatalog.Proofs.Workspace.Search
import MediaCatalog.Proofs.Workspace.Served
import MediaCatalog.Proofs.Workspace.Tagging
import MediaCatalog.Proofs.Workspace.Upkeep
import MediaCatalog.Query.Clause
import MediaCatalog.Query.Compiled
import MediaCatalog.Query.Condition
import MediaCatalog.Query.Depth
import MediaCatalog.Query.Pattern
import MediaCatalog.Query.Phrase
import MediaCatalog.Query.Quotes
import MediaCatalog.Query.Sort
import MediaCatalog.Query.Term
import MediaCatalog.Query.Token
import MediaCatalog.Query.Words
import MediaCatalog.Search.Execute
import MediaCatalog.Search.Meaning
import MediaCatalog.Search.Plan
import MediaCatalog.Search.Statement
import MediaCatalog.Settings
import MediaCatalog.Text.Blank
import MediaCatalog.Text.Caseless
import MediaCatalog.Text.Hex
import MediaCatalog.Text.Json
import MediaCatalog.Text.Like
import MediaCatalog.Text.Numeral
import MediaCatalog.Text.Utf8
import MediaCatalog.Toml.Document
import MediaCatalog.Toml.Quoted
import MediaCatalog.Toml.Scalar
import MediaCatalog.Toml.Value
import MediaCatalog.Workspace.Basic
import MediaCatalog.Workspace.Files
import MediaCatalog.Workspace.Schedule
import MediaCatalog.Workspace.Search

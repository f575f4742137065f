import Crosswalk.Catalog.Export
import Crosswalk.Catalog.Import
import Crosswalk.Catalog.Lookup
import Crosswalk.Catalog.ReadOnly
import Crosswalk.Catalog.Search
import Crosswalk.CommandLine.Program
import Crosswalk.Document.Json
import Crosswalk.Exchange.Outline
import Crosswalk.Exchange.SheetOf
import Crosswalk.Location.Opening
import Crosswalk.Main
import Crosswalk.Proofs.Graph.Reachability
import Crosswalk.Query
import Crosswalk.Settings
import Crosswalk.Store.Archive
import Crosswalk.Workspace
import Crosswalk.Proofs.Index.Mirror
import Crosswalk.Proofs.Entity.Enrich
import Crosswalk.Proofs.Text.Trim
import Crosswalk.Proofs.Keyed
import Crosswalk.Proofs.Store.Sound
import Crosswalk.Proofs.Store.LinkKey
import Crosswalk.Proofs.Store.Link
import Crosswalk.Proofs.Store.Put
import Crosswalk.Proofs.Catalog.Consistent
import Crosswalk.Proofs.Catalog.Run
import Crosswalk.Proofs.Store.Copy
import Crosswalk.Proofs.Catalog.Copy
import Crosswalk.Proofs.Exchange.Header
import Crosswalk.Proofs.Exchange.Layout
import Crosswalk.Proofs.Entity.Bare
import Crosswalk.Proofs.Exchange.Merge
import Crosswalk.Proofs.Exchange.Row
import Crosswalk.Proofs.Exchange.Written
import Crosswalk.Proofs.Exchange.RoundTrip
import Crosswalk.Proofs.Exchange.MergeKey
import Crosswalk.Proofs.Exchange.View
import Crosswalk.Proofs.Catalog.Sheet
import Crosswalk.Proofs.Table.RoundTrip
import Crosswalk.Proofs.Entity.Growth
import Crosswalk.Proofs.Catalog.Again
import Crosswalk.Proofs.Catalog.Growth
import Crosswalk.Proofs.Entity.Gather
import Crosswalk.Proofs.Store.Gather
import Crosswalk.Proofs.Store.Assertion
import Crosswalk.Proofs.Catalog.AnyOrder
import Crosswalk.Proofs.Graph.Walk
import Crosswalk.Proofs.Graph.Leaving
import Crosswalk.Proofs.Graph.Strong
import Crosswalk.Proofs.Index.Evolution
import Crosswalk.Proofs.Index.Cycle
import Crosswalk.Proofs.Index.Closing
import Crosswalk.Proofs.Store.Rows
import Crosswalk.Proofs.Catalog.Attempt
import Crosswalk.Proofs.Catalog.Traced
import Crosswalk.Proofs.Catalog.Opened
import Crosswalk.Proofs.Store.Entries
import Crosswalk.Proofs.Catalog.Linking
import Crosswalk.Proofs.Catalog.Reimport
import Crosswalk.Proofs.Index.History
import Crosswalk.Proofs.Entity.Cover
import Crosswalk.Proofs.Catalog.Putting
import Crosswalk.Proofs.Catalog.Tally
import Crosswalk.Proofs.Exchange.Kept
import Crosswalk.Proofs.Entity.Pool
import Crosswalk.Proofs.Exchange.Told
import Crosswalk.Proofs.Exchange.Unite
import Crosswalk.Proofs.Exchange.Reading
import Crosswalk.Proofs.Exchange.PeerColumn
import Crosswalk.Proofs.Exchange.AnyRowOrder
import Crosswalk.Proofs.Outline.Parent
import Crosswalk.Proofs.Outline.Levels
import Crosswalk.Proofs.Outline.Forest
import Crosswalk.Proofs.Outline.ForestRows
import Crosswalk.Proofs.Outline.ForestMerge
import Crosswalk.Proofs.Outline.ForestImport
import Crosswalk.Proofs.Graph.Component
import Crosswalk.Proofs.Index.Connected
import Crosswalk.Proofs.Index.Depth
import Crosswalk.Proofs.Catalog.Gap
import Crosswalk.Proofs.Outline.Standards
import Crosswalk.Proofs.Graph.Source
import Crosswalk.Proofs.Index.Layers
import Crosswalk.Proofs.Index.Frame
import Crosswalk.Proofs.Catalog.Roots
import Crosswalk.Proofs.Catalog.NodeLinks
import Crosswalk.Proofs.Text.Escaped
import Crosswalk.Proofs.Store.TagText
import Crosswalk.Proofs.Catalog.Found
import Crosswalk.Proofs.Index.Edges
import Crosswalk.Proofs.Catalog.Check
import Crosswalk.Proofs.Catalog.Pages
import Crosswalk.Proofs.Orderings
import Crosswalk.Proofs.Query
import Crosswalk.Proofs.Catalog.TextSearch
import Crosswalk.Proofs.Exchange.Accepted
import Crosswalk.Proofs.Exchange.Separation
import Crosswalk.Proofs.Index.Undone
import Crosswalk.Proofs.Entity.Absorb
import Crosswalk.Proofs.Json
import Crosswalk.Proofs.Document.Texts
import Crosswalk.Proofs.Document.ReadBack

import Compendium.Main
import Compendium.Embedding.Client
import Compendium.Embedding.Scripted
import Compendium.Registry
import Compendium.Template
import Compendium.Proofs.Runs
import Compendium.Proofs.Store.Holdings
import Compendium.Proofs.Index.Reindex
import Compendium.Proofs.Index.Batch
import Compendium.Proofs.Catalog.Scan
import Compendium.Proofs.Service.Bootstrap
import Compendium.Proofs.Files.Path
import Compendium.Proofs.Files.Tree
import Compendium.Proofs.Service.Incremental
import Compendium.Proofs.Catalog.Items
import Compendium.Proofs.Catalog.Ownership
import Compendium.Proofs.Json.RoundTrip
import Compendium.Proofs.Time.Iso
import Compendium.Proofs.Store.Mirror
import Compendium.Proofs.Store.Agreement
import Compendium.Proofs.Number.Exact
import Compendium.Proofs.Text.Blank
import Compendium.Proofs.Segment.Lossless
import Compendium.Proofs.Segment.Sizes
import Compendium.Proofs.Search.Neighbours
import Compendium.Proofs.Search.Policy
import Compendium.Proofs.Store.Replacement
import Compendium.Proofs.Store.Upkeep
import Compendium.Proofs.Index.Job
import Compendium.Proofs.Catalog.Upkeep
import Compendium.Proofs.Service.Upkeep
import Compendium.Proofs.Index.Failure
import Compendium.Proofs.Store.Persistence
import Compendium.Proofs.Files.Reading
import Compendium.Proofs.Catalog.Mirroring
import Compendium.Proofs.Settings.Wiring
import Compendium.Proofs.Registry.Lifecycle
import Compendium.Proofs.Embedding.Outcome
import Compendium.Proofs.Index.Survivors
import Compendium.Proofs.Search.Expansion
import Compendium.Proofs.Catalog.Rescan
import Compendium.Proofs.Segment.Overlap
import Compendium.Proofs.Segment.Sections
import Compendium.Proofs.Segment.Fences
import Compendium.Proofs.Store.Category
import Compendium.Proofs.Search.Category
import Compendium.Proofs.Search.Threshold
import Compendium.Proofs.Search.Reordering
import Compendium.Proofs.Search.Lexical
import Compendium.Proofs.Report.Trailer
import Compendium.Proofs.Report.Blocks
import Compendium.Proofs.Record
import Compendium.Proofs.Probe
import Compendium.Proofs.Service.Search
import Compendium.Proofs.Index.Stopping
import Compendium.Proofs.Index.Outage
import Compendium.Proofs.Index.Rebuild
import Compendium.Proofs.Catalog.Naming
import Compendium.Proofs.Store.Newest
import Compendium.Proofs.Files.Moving
import Compendium.Proofs.Catalog.Adoption
import Compendium.Proofs.Catalog.InPlace
import Compendium.Proofs.Catalog.Completeness

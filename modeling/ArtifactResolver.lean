import ArtifactResolver.Artifact
import ArtifactResolver.Ascending
import ArtifactResolver.Cache.Directory
import ArtifactResolver.Cache.Error
import ArtifactResolver.Cache.Key
import ArtifactResolver.Cache.Memory
import ArtifactResolver.Cache.Store
import ArtifactResolver.Chain
import ArtifactResolver.CommandLine.Arguments
import ArtifactResolver.CommandLine.Help
import ArtifactResolver.CommandLine.Run
import ArtifactResolver.Coordinate
import ArtifactResolver.Duration
import ArtifactResolver.Environment
import ArtifactResolver.Failure
import ArtifactResolver.Files.Change
import ArtifactResolver.Files.Error
import ArtifactResolver.Files.Lock
import ArtifactResolver.Files.Path
import ArtifactResolver.Files.Tree
import ArtifactResolver.Format
import ArtifactResolver.Format.Descriptor
import ArtifactResolver.Format.Registry
import ArtifactResolver.Layout
import ArtifactResolver.Lens
import ArtifactResolver.Main
import ArtifactResolver.Metadata
import ArtifactResolver.Outcome
import ArtifactResolver.Panic
import ArtifactResolver.ParseError
import ArtifactResolver.Policy
import ArtifactResolver.Pool
import ArtifactResolver.ProbeRecord
import ArtifactResolver.Project
import ArtifactResolver.Report
import ArtifactResolver.Repository
import ArtifactResolver.RepositoryList
import ArtifactResolver.Selector
import ArtifactResolver.Settings
import ArtifactResolver.Site
import ArtifactResolver.Text.Blank
import ArtifactResolver.Text.Case
import ArtifactResolver.Text.Decimal
import ArtifactResolver.Text.Hex
import ArtifactResolver.Text.Utf8
import ArtifactResolver.Toml.Datetime
import ArtifactResolver.Toml.Document
import ArtifactResolver.Toml.Error
import ArtifactResolver.Toml.Number
import ArtifactResolver.Toml.Printer
import ArtifactResolver.Toml.Quoted
import ArtifactResolver.Toml.Reader
import ArtifactResolver.Toml.Record
import ArtifactResolver.Toml.Scan
import ArtifactResolver.Toml.Table
import ArtifactResolver.Toml.Value
import ArtifactResolver.Transport
import ArtifactResolver.Variable.Node
import ArtifactResolver.Variable.Path
import ArtifactResolver.Version
import ArtifactResolver.Word
import ArtifactResolver.World
import ArtifactResolver.Proofs.Action
import ArtifactResolver.Proofs.Chain.Query
import ArtifactResolver.Proofs.Chain.Order
import ArtifactResolver.Proofs.Chain.Session
import ArtifactResolver.Proofs.Offline
import ArtifactResolver.Proofs.Text.Decimal
import ArtifactResolver.Proofs.Text.Encoding
import ArtifactResolver.Proofs.Text.Order
import ArtifactResolver.Proofs.Cache.Key
import ArtifactResolver.Proofs.Toml.Strings
import ArtifactResolver.Proofs.ProbeRecord
import ArtifactResolver.Proofs.Cache.Map
import ArtifactResolver.Proofs.Repository.Remote
import ArtifactResolver.Proofs.Repository.Usable
import ArtifactResolver.Proofs.Chain.Settle
import ArtifactResolver.Proofs.Chain.Online
import ArtifactResolver.Proofs.Installation
import ArtifactResolver.Proofs.Chain.Cached
import ArtifactResolver.Proofs.Transparency
import ArtifactResolver.Proofs.Replay
import ArtifactResolver.Proofs.Companions
import ArtifactResolver.Proofs.Precedence
import ArtifactResolver.Proofs.Provenance
import ArtifactResolver.Proofs.ProbeHistory
import ArtifactResolver.Proofs.Availability
import ArtifactResolver.Proofs.Effects
import ArtifactResolver.Proofs.Accesses
import ArtifactResolver.Proofs.Traffic
import ArtifactResolver.Proofs.SingleFlight
import ArtifactResolver.Proofs.Version.Runs
import ArtifactResolver.Proofs.Version.Order
import ArtifactResolver.Proofs.Version.Extension
import ArtifactResolver.Proofs.Format.Descriptor
import ArtifactResolver.Proofs.Selection
import ArtifactResolver.Proofs.Listing
import ArtifactResolver.Proofs.Files.Path
import ArtifactResolver.Proofs.Files.Tree
import ArtifactResolver.Proofs.Files.Making
import ArtifactResolver.Proofs.Cache.Segments
import ArtifactResolver.Proofs.Cache.Directory
import ArtifactResolver.Proofs.Cache.Refinement
import ArtifactResolver.Proofs.Cache.Identity
import ArtifactResolver.Proofs.Cache.Locks
import ArtifactResolver.Proofs.Cache.Leftovers
import ArtifactResolver.Proofs.Declared
import ArtifactResolver.Proofs.Files.Below
import ArtifactResolver.Proofs.Confinement
import ArtifactResolver.Proofs.Ascending
import ArtifactResolver.Proofs.Inheritance
import ArtifactResolver.Proofs.Format.Acceptance
import ArtifactResolver.Proofs.Text.Blank
import ArtifactResolver.Proofs.Fields
import ArtifactResolver.Proofs.WrittenSelectors
import ArtifactResolver.Proofs.Layout.Reading
import ArtifactResolver.Proofs.Layout.ModuleDirectory
import ArtifactResolver.Proofs.Files.Growing
import ArtifactResolver.Proofs.Cache.Places
import ArtifactResolver.Proofs.Cache.Atomic
import ArtifactResolver.Proofs.Trust
import ArtifactResolver.Proofs.Report.Talk
import ArtifactResolver.Proofs.Report.Coverage
import ArtifactResolver.Proofs.Pool.Work
import ArtifactResolver.Proofs.Pool.Steps
import ArtifactResolver.Proofs.Pool.Order
import ArtifactResolver.Proofs.Report.Diagnostics
import ArtifactResolver.Proofs.RepositoryList
import ArtifactResolver.Proofs.Report.Lines
import ArtifactResolver.Proofs.WriteOnce

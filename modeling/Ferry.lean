import Ferry.Binary64
import Ferry.Calendar
import Ferry.Cleanup
import Ferry.Cli.Arguments
import Ferry.Cli.Error
import Ferry.Cli.Report
import Ferry.Cli.Run
import Ferry.Config.Basic
import Ferry.Config.File
import Ferry.Datum
import Ferry.Decoding
import Ferry.Disk
import Ferry.Family
import Ferry.Host
import Ferry.Json
import Ferry.Json.Text
import Ferry.Main
import Ferry.Manifest
import Ferry.ObjectKey
import Ferry.Policy
import Ferry.Projection
import Ferry.Promotion
import Ferry.Proofs.Lookup
import Ferry.Proofs.Run
import Ferry.Proofs.Store.Growth
import Ferry.Resource.Channel
import Ferry.Resource.Decode
import Ferry.Resource.Deployable
import Ferry.Resource.Encode
import Ferry.Resource.Metadata
import Ferry.SortedMap
import Ferry.Store.Basic
import Ferry.Store.Chance
import Ferry.Store.Error
import Ferry.Store.ManifestFile
import Ferry.Store.Memory
import Ferry.Text
import Ferry.Timestamp
import Ferry.Toml.Complaint
import Ferry.Toml.DateTime
import Ferry.Toml.Node
import Ferry.Toml.Number
import Ferry.Toml.Quoted
import Ferry.Toml.Reader
import Ferry.Toml.Text
import Ferry.Toml.Writer
import Ferry.Unicode
import Ferry.Proofs.Promotion.Course
import Ferry.Proofs.Store.Memory
import Ferry.Proofs.Store.Refusal
import Ferry.Proofs.Projection
import Ferry.Proofs.Promotion.Made
import Ferry.Proofs.Promotion.Proliferation
import Ferry.Proofs.Promotion.Repetition
import Ferry.Proofs.Disk
import Ferry.Proofs.Store.ManifestFile
import Ferry.Proofs.Promotion.Written
import Ferry.Proofs.Promotion.Presence
import Ferry.Proofs.Promotion.Idempotence
import Ferry.Proofs.Promotion.Gained
import Ferry.Proofs.Promotion.Recovery
import Ferry.Proofs.Cleanup
import Ferry.Proofs.Promotion.Retirement
import Ferry.Proofs.History
import Ferry.Proofs.Provenance
import Ferry.Proofs.Promotion.Batches
import Ferry.Proofs.Toml.Quoted
import Ferry.Proofs.Binary64
import Ferry.Proofs.Datum
import Ferry.Proofs.Decoding
import Ferry.Proofs.Every
import Ferry.Proofs.Loaded
import Ferry.Proofs.Store.Calls
import Ferry.Proofs.Store.Creating
import Ferry.Proofs.Store.Refinement
import Ferry.Proofs.Generations
import Ferry.Proofs.RoundTrip
import Ferry.Proofs.Json
import Ferry.Proofs.Identities
import Ferry.Proofs.Cli.Run
import Ferry.Proofs.Cli.Report
import Ferry.Proofs.Resolver
import Ferry.Proofs.Chains
import Ferry.Proofs.Leftovers
import Ferry.Proofs.SnapshotOrder
import Ferry.Proofs.Kinship
import Ferry.Proofs.GatePolicy
import Ferry.Proofs.Promotion.Residency
import Ferry.Proofs.Promotion.Belonging
import Ferry.Proofs.Store.Laws
import Ferry.Proofs.References
import Ferry.Proofs.Toml.Complaint
import Ferry.Proofs.Cli.Preview

import ResponseCache.Engine.Basic
import ResponseCache.Inspection
import ResponseCache.KeyValue.Backend
import ResponseCache.KeyValue.Server
import ResponseCache.Memcached.Backend
import ResponseCache.Memory.Sweep
import ResponseCache.Message.Head
import ResponseCache.Settings
import ResponseCache.Proofs.Slots
import ResponseCache.Proofs.Freshness
import ResponseCache.Proofs.Percent
import ResponseCache.Proofs.Keys
import ResponseCache.Proofs.Session
import ResponseCache.Proofs.Writes
import ResponseCache.Proofs.Provenance
import ResponseCache.Proofs.Base64
import ResponseCache.Proofs.Numerals
import ResponseCache.Proofs.Documents
import ResponseCache.Proofs.Rounding
import ResponseCache.Proofs.Decimals
import ResponseCache.Proofs.Records
import ResponseCache.Proofs.Wildcards
import ResponseCache.Proofs.Contract
import ResponseCache.Proofs.Server
import ResponseCache.Proofs.Coupling
import ResponseCache.Proofs.Simulation
import ResponseCache.Proofs.Interchange
import ResponseCache.Proofs.Utf8
import ResponseCache.Proofs.Heads
import ResponseCache.Proofs.Fields
import ResponseCache.Proofs.Holdings
import ResponseCache.Proofs.Conditional
import ResponseCache.Proofs.Handles
import ResponseCache.Proofs.Indices
import ResponseCache.Proofs.Isolation
import ResponseCache.Proofs.Lookups
import ResponseCache.Proofs.Stamped
import ResponseCache.Proofs.Calls
import ResponseCache.Proofs.Operations
import ResponseCache.Proofs.PathRemovals
import ResponseCache.Proofs.Clearing
import ResponseCache.Proofs.BulkRemovals
import ResponseCache.Proofs.PathSpellings
import ResponseCache.Proofs.PatternRemovals
import ResponseCache.Proofs.Listings
import ResponseCache.Proofs.Retries
import ResponseCache.Proofs.SlotLifetimes
import ResponseCache.Proofs.Sweeping
import ResponseCache.Proofs.WireKeys
import ResponseCache.Proofs.MemcachedInterchange
import ResponseCache.Proofs.Directives
import ResponseCache.Proofs.Merging
import ResponseCache.Proofs.Declarations
import ResponseCache.Proofs.UnknownDirectives
import ResponseCache.Proofs.Replays
import ResponseCache.Proofs.TagLists
import ResponseCache.Proofs.Validators
import ResponseCache.Proofs.Expiries
import ResponseCache.Proofs.AcceptedKeys
import ResponseCache.Proofs.QuerySpellings
import ResponseCache.Proofs.Reports
import ResponseCache.Proofs.Dialect
import ResponseCache.Proofs.FieldLists
import ResponseCache.Proofs.IndexBounds
import ResponseCache.Proofs.Lifetimes

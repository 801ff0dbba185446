import Outpost.Api.Filter
import Outpost.Api.ObjectList
import Outpost.Api.Request
import Outpost.Api.Resource
import Outpost.Api.Status
import Outpost.Bytes
import Outpost.Cache.Error
import Outpost.Cache.Key
import Outpost.Cache.Population
import Outpost.Cache.Tiers
import Outpost.Coding.Checksum
import Outpost.Coding.ContentCoding
import Outpost.Coding.Inflate
import Outpost.Coding.Member
import Outpost.Config.CommandLine
import Outpost.Config.Report
import Outpost.Config.Settings
import Outpost.Config.Telemetry
import Outpost.Config.Upstream
import Outpost.Http.Headers
import Outpost.Http.Message
import Outpost.Http.StatusCode
import Outpost.Http.Target
import Outpost.Http.Wire
import Outpost.Json.Quoted
import Outpost.Json.Raw
import Outpost.Json.Record
import Outpost.Json.Value
import Outpost.Main
import Outpost.Number.Binary64
import Outpost.Number.Shortest
import Outpost.Percent
import Outpost.Proofs.Api.Filter
import Outpost.Proofs.Api.ObjectList
import Outpost.Proofs.Api.Paths
import Outpost.Proofs.Api.Queries
import Outpost.Proofs.Api.Request
import Outpost.Proofs.Api.Status
import Outpost.Proofs.Cache.Caching
import Outpost.Proofs.Cache.Confinement
import Outpost.Proofs.Cache.Key
import Outpost.Proofs.Cache.Marks
import Outpost.Proofs.Cache.Mirror
import Outpost.Proofs.Cache.Population
import Outpost.Proofs.Cache.Race
import Outpost.Proofs.Cache.Sharing
import Outpost.Proofs.Cache.Snapshots
import Outpost.Proofs.Cache.Tiers
import Outpost.Proofs.Coding.Codings
import Outpost.Proofs.Coding.Inflate
import Outpost.Proofs.Coding.Member
import Outpost.Proofs.Coding.Outcomes
import Outpost.Proofs.Config.Joining
import Outpost.Proofs.Config.Upstream
import Outpost.Proofs.Json.Documents
import Outpost.Proofs.Json.Fields
import Outpost.Proofs.Json.Integers
import Outpost.Proofs.Json.Quoted
import Outpost.Proofs.Json.Records
import Outpost.Proofs.Json.Rows
import Outpost.Proofs.Json.Tokens
import Outpost.Proofs.Json.Values
import Outpost.Proofs.Proxy.Accounts
import Outpost.Proofs.Proxy.Collections
import Outpost.Proofs.Proxy.Commissions
import Outpost.Proofs.Proxy.Counters
import Outpost.Proofs.Proxy.Courses
import Outpost.Proofs.Proxy.Degraded
import Outpost.Proofs.Proxy.Deletions
import Outpost.Proofs.Proxy.Eligibility
import Outpost.Proofs.Proxy.Fidelity
import Outpost.Proofs.Proxy.Filtering
import Outpost.Proofs.Proxy.Forwarding
import Outpost.Proofs.Proxy.Framing
import Outpost.Proofs.Proxy.Gates
import Outpost.Proofs.Proxy.Hearings
import Outpost.Proofs.Proxy.Histories
import Outpost.Proofs.Proxy.InFlight
import Outpost.Proofs.Proxy.Leftovers
import Outpost.Proofs.Proxy.Moves
import Outpost.Proofs.Proxy.Outage
import Outpost.Proofs.Proxy.Payloads
import Outpost.Proofs.Proxy.Probes
import Outpost.Proofs.Proxy.Provenance
import Outpost.Proofs.Proxy.Readability
import Outpost.Proofs.Proxy.Readings
import Outpost.Proofs.Proxy.Refusals
import Outpost.Proofs.Proxy.Replies
import Outpost.Proofs.Proxy.Sightings
import Outpost.Proofs.Proxy.SingleFlight
import Outpost.Proofs.Proxy.Slots
import Outpost.Proofs.Proxy.Transparency
import Outpost.Proofs.Proxy.Views
import Outpost.Proofs.Store.Answers
import Outpost.Proofs.Store.Backend
import Outpost.Proofs.Store.Calls
import Outpost.Proofs.Store.Disk
import Outpost.Proofs.Store.Distinct
import Outpost.Proofs.Store.Entries
import Outpost.Proofs.Store.Interruption
import Outpost.Proofs.Store.Isolation
import Outpost.Proofs.Store.Keys
import Outpost.Proofs.Store.Links
import Outpost.Proofs.Store.Maps
import Outpost.Proofs.Store.Nodes
import Outpost.Proofs.Store.Overlap
import Outpost.Proofs.Store.Pending
import Outpost.Proofs.Store.Recovery
import Outpost.Proofs.Store.Subtrees
import Outpost.Proofs.Store.Sweeping
import Outpost.Proofs.Store.Walks
import Outpost.Proofs.Stream.Agreement
import Outpost.Proofs.Stream.Arrivals
import Outpost.Proofs.Stream.Deliveries
import Outpost.Proofs.Stream.Pressure
import Outpost.Proofs.Stream.Source
import Outpost.Proofs.Stream.Transcript
import Outpost.Proofs.Text
import Outpost.Proofs.Url.Authorities
import Outpost.Proofs.Url.Escapes
import Outpost.Proofs.Url.Paths
import Outpost.Proofs.Url.Queries
import Outpost.Proofs.Url.Rereading
import Outpost.Proofs.Url.Segments
import Outpost.Proofs.Url.Written
import Outpost.Proxy.Engine
import Outpost.Proxy.Error
import Outpost.Proxy.Exchange
import Outpost.Proxy.Fallback
import Outpost.Proxy.Forward
import Outpost.Proxy.Health
import Outpost.Proxy.Metrics
import Outpost.Proxy.Treatment
import Outpost.Simulation.Notation
import Outpost.Simulation.Script
import Outpost.Simulation.Splice
import Outpost.Simulation.World
import Outpost.Store.Counted
import Outpost.Store.Disk
import Outpost.Store.FileTree
import Outpost.Store.Key
import Outpost.Store.Memory
import Outpost.Store.Pending
import Outpost.Stream.Halves
import Outpost.Stream.Source
import Outpost.Stream.Tee
import Outpost.Text
import Outpost.Url
import Outpost.Url.Address
import Outpost.Url.Alphabets
import Outpost.Url.Domain

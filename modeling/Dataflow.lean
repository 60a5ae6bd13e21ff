import Dataflow.Main
import Dataflow.Program.Builder
import Dataflow.Proofs.Record
import Dataflow.Proofs.FrameQueue
import Dataflow.Proofs.Run
import Dataflow.Proofs.Similar
import Dataflow.Proofs.Wire
import Dataflow.Proofs.Delivery
import Dataflow.Proofs.Decimal.Rounding
import Dataflow.Proofs.Decimal.Text
import Dataflow.Proofs.Simulation
import Dataflow.Proofs.Json.Text
import Dataflow.Proofs.Fingerprint
import Dataflow.Proofs.MemoCache
import Dataflow.Proofs.Library
import Dataflow.Proofs.Memoization
import Dataflow.Proofs.Firing
import Dataflow.Proofs.History
import Dataflow.Proofs.Cycle
import Dataflow.Proofs.Validation
import Dataflow.Proofs.Steady
import Dataflow.Proofs.Meaning
import Dataflow.Proofs.FeedForward
import Dataflow.Proofs.Completion
import Dataflow.Proofs.Extraction
import Dataflow.Proofs.Safety
import Dataflow.Proofs.Depth
import Dataflow.Proofs.Slice
import Dataflow.Proofs.Termination
import Dataflow.Proofs.Slack
import Dataflow.Proofs.Scope
import Dataflow.Proofs.Wave
import Dataflow.Proofs.Toll
import Dataflow.Proofs.Budget
import Dataflow.Proofs.Asking
import Dataflow.Proofs.Enclosure
import Dataflow.Proofs.Confluence
import Dataflow.Proofs.Reordering
import Dataflow.Proofs.CacheKey
import Dataflow.Proofs.Habit
import Dataflow.Proofs.Eviction
import Dataflow.Proofs.Isolation
import Dataflow.Proofs.Counters
import Dataflow.Proofs.Starvation
import Dataflow.Proofs.Line
import Dataflow.Proofs.Attribution
import Dataflow.Proofs.Caller
import Dataflow.Proofs.Calling
import Dataflow.Proofs.Json.Parser
import Dataflow.Proofs.Json.Draft
import Dataflow.Proofs.RoundTrip
import Dataflow.Proofs.Shelf
import Dataflow.Proofs.Restriction
import Dataflow.Proofs.Cutting
import Dataflow.Proofs.BreadthFirst
import Dataflow.Proofs.Nesting
import Dataflow.Proofs.Wiring
import Dataflow.Proofs.Unwired
import Dataflow.Proofs.DataCycle
import Dataflow.Proofs.Diagnosis
import Dataflow.Proofs.Ending
import Dataflow.Proofs.Compatibility
import Dataflow.Proofs.Dialogue
import Dataflow.Proofs.Sorting
import Dataflow.Proofs.Determinism
import Dataflow.Proofs.HigherOrder
import Dataflow.Proofs.Seeding
import Dataflow.Proofs.Pieces
import Dataflow.Proofs.Splitting
import Dataflow.Proofs.Collisions
import Dataflow.Proofs.Building

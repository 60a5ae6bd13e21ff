/-
The memoization cache.

Results are kept under a key made of the function's name, its arguments and, for
functions with callbacks, the callback bodies. At most `max` results are kept;
when there is one too many, the oldest goes. A cache that is restricted to programs
serves only the functions that were allowed by name. Hits and misses are counted
without a limit; counters of 64 bits show the same as long as a run makes fewer than
`2 ^ 64` lookups, and it makes no more of them than it tells events.
-/
import Dataflow.Flow
namespace Dataflow

/-- The settings of a cache. -/
structure CacheConfig where
  max : UInt64
  restrictToPrograms : Bool
  deriving DecidableEq

/-- A bounded cache of results. -/
structure MemoCache where
  max : UInt64
  entries : Record Outputs
  /-- The keys, oldest first. -/
  order : List String
  /-- The functions that may be cached, when not all may. -/
  allowed : Option (List String)
  hits : Nat
  misses : Nat

namespace MemoCache

/-- An empty cache. -/
def ofConfig (config : CacheConfig) : MemoCache where
  max := config.max
  entries := .empty
  order := []
  allowed := if config.restrictToPrograms then some [] else none
  hits := 0
  misses := 0

/-- The key of a call. `callbacks` describes the body of each callback. -/
def key (function : String) (args callbacks : Record Json) : String :=
  let call := function ++ "::" ++ (Json.ofRecord args).text
  if callbacks.isEmpty then call else call ++ "::" ++ (Json.ofRecord callbacks).text

/-- Allow results of a function to be cached. -/
def allow (c : MemoCache) (function : String) : MemoCache :=
  { c with allowed := c.allowed.map fun names => names.insert function }

/-- Whether results of a function are cached. -/
def isCacheable (c : MemoCache) (function : String) : Bool :=
  0 < c.max &&
    match c.allowed with
    | none => true
    | some names => names.contains function

/-- Look a key up and count whether it was there. -/
def lookup (c : MemoCache) (key : String) : Option Outputs × MemoCache :=
  match c.entries.get? key with
  | some outputs => (some outputs, { c with hits := c.hits + 1 })
  | none => (none, { c with misses := c.misses + 1 })

/-- Drop the oldest entries until at most `max` are left. -/
def evict (max : UInt64) : List String → Record Outputs → List String × Record Outputs
  | [], entries => ([], entries)
  | oldest :: rest, entries =>
    if max.toNat < entries.size then evict max rest (entries.erase oldest)
    else (oldest :: rest, entries)

/-- Keep a result. -/
def insert (c : MemoCache) (key : String) (outputs : Outputs) : MemoCache :=
  let order := if c.entries.contains key then c.order else c.order ++ [key]
  let (order, entries) := evict c.max order (c.entries.insert key outputs)
  { c with order, entries }

/-- Forget all results and reset the counters. -/
def clear (c : MemoCache) : MemoCache :=
  { c with entries := .empty, order := [], hits := 0, misses := 0 }

/-- The number of results. -/
def size (c : MemoCache) : Nat := c.entries.size

/-- The kept results, oldest first. -/
def toList (c : MemoCache) : List (String × Outputs) :=
  c.order.filterMap fun key => (c.entries.get? key).map fun outputs => (key, outputs)

/-- The counters of a cache. -/
structure Stats where
  entries : Nat
  max : UInt64
  hits : Nat
  misses : Nat
  deriving DecidableEq

/-- The counters of a cache. -/
def stats (c : MemoCache) : Stats := ⟨c.size, c.max, c.hits, c.misses⟩

/-- The written form of the counters. -/
def Stats.toJson (s : Stats) : Json :=
  .object [("entries", .ofNat s.entries), ("max", .ofNat s.max.toNat), ("hits", .ofNat s.hits),
    ("misses", .ofNat s.misses)]

end MemoCache

end Dataflow

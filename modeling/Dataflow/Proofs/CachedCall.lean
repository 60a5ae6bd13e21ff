/-
Calls through the cache.

A call goes past the cache, finds its result there, or has it computed and kept. What happens is
decided by the cache alone, whatever runs the call.

* `Host.invokeCached_of_none`, `Host.invokeCached_of_hit`, `Host.invokeCached_of_miss` — the three
  ways of a call;
* `Host.invokeCached_of_found`, `Host.invokeCached_of_absent` — the last two, with all that is done
  to the cache;
* `Host.invokeCached_follows` — in all of them, it fails only as the call itself does.
-/
import Mathlib
import Dataflow.Proofs.Delivery
import Dataflow.Proofs.MemoCache
namespace Dataflow

namespace Host

variable {host : Host} {nested : Executor} {function : String} {entry : Entry}
  {args : Record Json} {closures : Record Closure} {caller : String} {s : Session}

/-- The key under which the cache knows a call. -/
def callKey (function : String) (args : Record Json) (closures : Record Closure) : String :=
  MemoCache.key function args (closures.map fun _ closure => closure.fingerprint)

theorem invokeCached_of_none (h : cacheKey? s.cache function args closures = none) :
    host.invokeCached nested function entry args closures caller s =
      invoke nested function entry args closures caller s := by
  have hcache : Run.cache? s = (.ok s.cache, s) := rfl
  rw [invokeCached, Run.bind_eq, Run.andThen_of_ok hcache, h]

private theorem cacheKey?_of_cacheable {cache : MemoCache}
    (hc : cache.isCacheable function = true) :
    cacheKey? (some cache) function args closures = some (callKey function args closures) :=
  if_pos hc

theorem fetch_of_cache {cache : MemoCache} (key : String) (hs : s.cache = some cache) :
    fetch key s = (.ok (cache.lookup key).1, { s with cache := some (cache.lookup key).2 }) := by
  have hcache : Run.cache? s = (.ok s.cache, s) := rfl
  rw [fetch, Run.bind_eq, Run.andThen_of_ok hcache, hs]
  rfl

/-- A call whose result is found: it is counted, noted and told. -/
theorem invokeCached_of_found {cache : MemoCache} {outputs : Outputs} (host : Host)
    (nested : Executor) (entry : Entry) (caller : String) (hs : s.cache = some cache)
    (hc : cache.isCacheable function = true)
    (h : cache.entries.get? (callKey function args closures) = some outputs) :
    host.invokeCached nested function entry args closures caller s =
      ((Run.note (.cacheHit (callKey function args closures))).andThen fun _ =>
        (Run.emit host.observer (.cacheHit (callKey function args closures))).andThen fun _ =>
          Run.result outputs) { s with cache := some { cache with hits := cache.hits + 1 } } := by
  have hcache : Run.cache? s = (.ok s.cache, s) := rfl
  have hfetch := fetch_of_cache (callKey function args closures) hs
  rw [MemoCache.lookup_of_some h] at hfetch
  rw [invokeCached, Run.bind_eq, Run.andThen_of_ok hcache, hs, cacheKey?_of_cacheable hc]
  simp only [Run.bind_eq, Run.pure_eq]
  exact Run.andThen_of_ok hfetch

/-- A call whose result is not found: it is counted and computed, and its result is kept. -/
theorem invokeCached_of_absent {cache : MemoCache} (host : Host) (nested : Executor) (entry : Entry)
    (caller : String) (hs : s.cache = some cache) (hc : cache.isCacheable function = true)
    (h : cache.entries.get? (callKey function args closures) = none) :
    host.invokeCached nested function entry args closures caller s =
      ((invoke nested function entry args closures caller).andThen fun outputs =>
        (remember (callKey function args closures) outputs).andThen fun _ => Run.result outputs)
      { s with cache := some { cache with misses := cache.misses + 1 } } := by
  have hcache : Run.cache? s = (.ok s.cache, s) := rfl
  have hfetch := fetch_of_cache (callKey function args closures) hs
  rw [MemoCache.lookup_of_none h] at hfetch
  rw [invokeCached, Run.bind_eq, Run.andThen_of_ok hcache, hs, cacheKey?_of_cacheable hc]
  simp only [Run.bind_eq, Run.pure_eq]
  exact Run.andThen_of_ok hfetch

/-- A call whose result is in the cache. -/
theorem invokeCached_of_hit {cache : MemoCache} {outputs : Outputs} (host : Host) (entry : Entry)
    (caller : String) (hs : s.cache = some cache) (hc : cache.isCacheable function = true)
    (h : cache.entries.get? (callKey function args closures) = some outputs) :
    ∃ cache' s', cache'.entries = cache.entries ∧ s'.cache = some cache' ∧ ∀ nested,
      host.invokeCached nested function entry args closures caller s = (.ok outputs, s') := by
  have hquiet := (Session.Quiet.note (.cacheHit (callKey function args closures))
    { s with cache := some { cache with hits := cache.hits + 1 } }).trans
      (.emit host.observer (.cacheHit (callKey function args closures)) _)
  refine ⟨{ cache with hits := cache.hits + 1 }, _, rfl, hquiet.cache, fun nested => ?_⟩
  rw [invokeCached_of_found host nested entry caller hs hc h, Run.andThen_of_ok (Run.note_eq ..),
    Run.andThen_of_ok (Run.emit_eq ..), Run.result]

/-- A call whose result has to be computed and is kept. -/
theorem invokeCached_of_miss {cache : MemoCache} (host : Host) (entry : Entry) (caller : String)
    (hs : s.cache = some cache) (hc : cache.isCacheable function = true)
    (h : cache.entries.get? (callKey function args closures) = none) :
    ∃ cache', cache'.entries = cache.entries ∧ ∀ nested,
      host.invokeCached nested function entry args closures caller s =
        ((invoke nested function entry args closures caller).andThen fun outputs =>
          (remember (callKey function args closures) outputs).andThen fun _ => Run.result outputs)
        { s with cache := some cache' } :=
  ⟨{ cache with misses := cache.misses + 1 }, rfl,
    fun nested => invokeCached_of_absent host nested entry caller hs hc h⟩

/-- A call is known by a key only when there is a cache that takes it. -/
theorem cacheKey?_eq_some {cache : Option MemoCache} {key : String}
    (h : cacheKey? cache function args closures = some key) :
    ∃ c, cache = some c ∧ c.isCacheable function = true := by
  cases cache with
  | none => cases h
  | some c =>
    rw [cacheKey?] at h
    split at h
    · exact ⟨c, rfl, by assumption⟩
    · cases h

private theorem remember_of_cache {cache : MemoCache} (key : String) (outputs : Outputs)
    (hs : s.cache = some cache) :
    remember key outputs s = (.ok (), { s with cache := some (cache.insert key outputs) }) := by
  have hcache : Run.cache? s = (.ok s.cache, s) := rfl
  rw [remember, Run.bind_eq, Run.andThen_of_ok hcache, hs]
  rfl

/-- The cache is looked up and changed in silence. -/
theorem fetch_events (key : String) (s : Session) : (fetch key s).2.events = s.events := by
  have hcache : Run.cache? s = (.ok s.cache, s) := rfl
  cases hs : s.cache with
  | none =>
    rw [fetch, Run.bind_eq, Run.andThen_of_ok hcache, hs]
    rfl
  | some cache => rw [fetch_of_cache key hs]

theorem remember_events (key : String) (outputs : Outputs) (s : Session) :
    (remember key outputs s).2.events = s.events := by
  have hcache : Run.cache? s = (.ok s.cache, s) := rfl
  cases hs : s.cache with
  | none =>
    rw [remember, Run.bind_eq, Run.andThen_of_ok hcache, hs]
    rfl
  | some cache => rw [remember_of_cache key outputs hs]

theorem remember_eq (key : String) (outputs : Outputs) (s : Session) :
    ∃ s', remember key outputs s = (.ok (), s') ∧
      s'.cache = s.cache.map fun cache => cache.insert key outputs := by
  have hcache : Run.cache? s = (.ok s.cache, s) := rfl
  cases hs : s.cache with
  | none =>
    rw [remember, Run.bind_eq, Run.andThen_of_ok hcache, hs]
    exact ⟨s, rfl, hs⟩
  | some cache => exact ⟨_, remember_of_cache key outputs hs, rfl⟩

/-- A call through the cache gives a result at once or ends as the call itself does. It does not
take a cache away or bring one in. -/
theorem invokeCached_follows (host : Host) (nested : Executor) (function : String) (entry : Entry)
    (args : Record Json) (closures : Record Closure) (caller : String) (s : Session) :
    (∃ outputs s', s'.cache.isSome = s.cache.isSome ∧
      host.invokeCached nested function entry args closures caller s = (.ok outputs, s')) ∨
    ∃ s₁ s₂, s₁.cache.isSome = s.cache.isSome ∧
      s₂.cache.isSome = (invoke nested function entry args closures caller s₁).2.cache.isSome ∧
      host.invokeCached nested function entry args closures caller s =
        ((invoke nested function entry args closures caller s₁).1, s₂) := by
  cases hkey : cacheKey? s.cache function args closures with
  | none => exact .inr ⟨s, _, rfl, rfl, invokeCached_of_none hkey⟩
  | some key =>
    obtain ⟨cache, hs, hcacheable⟩ := cacheKey?_eq_some hkey
    cases hget : cache.entries.get? (callKey function args closures) with
    | some outputs =>
      obtain ⟨cache', s', -, hs', hhit⟩ := invokeCached_of_hit host entry caller hs hcacheable hget
      exact .inl ⟨outputs, s', by rw [hs, hs']; rfl, hhit nested⟩
    | none =>
      obtain ⟨cache', -, hmiss⟩ := invokeCached_of_miss host entry caller hs hcacheable hget
      refine .inr ⟨{ s with cache := some cache' }, ?_⟩
      rw [hmiss, hs]
      rcases hcall : invoke nested function entry args closures caller
        { s with cache := some cache' } with ⟨halt | outputs, s₁⟩
      · exact ⟨s₁, rfl, rfl, Run.andThen_of_error hcall⟩
      · obtain ⟨s₂, hremember, hs₂⟩ := remember_eq (callKey function args closures) outputs s₁
        refine ⟨s₂, rfl, by rw [hs₂, Option.isSome_map], ?_⟩
        rw [Run.andThen_of_ok hcall, Run.andThen_of_ok hremember]
        rfl

end Host

end Dataflow

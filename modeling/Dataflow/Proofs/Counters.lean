/-
The events of a run and the counters of its cache tell the same story.

A call of a function whose results are cached is counted once, as a hit or as a miss, when its node
fires. A hit is told at once, so nothing stands between the two events; a miss leaves room for one
more result. How the events account for the changes of the cache is kept in a ledger, and ledgers of
parts that follow each other can be put together.

* `Event.HitsFollowFirings` — where hits stand among the events;
* `MemoCache.Ledger` — how events account for what has become of a cache;
* `Host.habit_accounts` — executions keep a ledger;
* `Environment.counters_lt` — a bound on the counters;
* `Environment.counters_of_events` — the events and the counters of a top-level run.
-/
import Mathlib
import Dataflow.Proofs.Eviction
import Dataflow.Proofs.Habit
import Dataflow.Proofs.Memoization
import Dataflow.Proofs.Slack
namespace Dataflow

/-! ### Kinds of events -/

namespace Event

/-- Whether the event opens or closes a top-level run. -/
def isBoundary : Event → Bool
  | .runStarted | .runCompleted _ | .runFailed _ => true
  | _ => false

/-- Whether a result was taken from the cache. -/
def isCacheHit : Event → Bool
  | .cacheHit _ => true
  | _ => false

/-- Whether a node with one of the functions has fired. -/
def fires (functions : String → Bool) : Event → Bool
  | .nodeFired _ _ function => functions function
  | _ => false

/-- The events that close a run: one, unless the run crashed or was not followed to its end. -/
def closing : Except Halt (Record Json) → List Event
  | .ok outputs => [.runCompleted outputs.names]
  | .error (.failed error) => [.runFailed error.message]
  | .error .crashed | .error .outOfDepth => []

/-- Every hit comes right after the firing of a node with one of the functions, and the key is one
of its function. -/
def HitsFollowFirings (functions : String → Bool) (events : List Event) : Prop :=
  ∀ before key after, events = before ++ .cacheHit key :: after →
    ∃ earlier caller id function args callbacks,
      before = earlier ++ [.nodeFired caller id function] ∧ functions function = true ∧
        key = MemoCache.key function args callbacks

variable {functions : String → Bool} {a b : List Event}

theorem HitsFollowFirings.of_no_hit (h : ∀ e ∈ a, e.isCacheHit = false) :
    HitsFollowFirings functions a := by
  rintro before key after rfl
  cases h (.cacheHit key) (List.mem_append_right _ (List.mem_cons_self ..))

theorem HitsFollowFirings.append (ha : HitsFollowFirings functions a)
    (hb : HitsFollowFirings functions b) : HitsFollowFirings functions (a ++ b) := by
  intro before key after h
  rcases List.append_eq_append_iff.1 h with ⟨middle, rfl, hb'⟩ | ⟨middle, rfl, ha'⟩
  · obtain ⟨earlier, caller, id, function, args, callbacks, rfl, hkey⟩ := hb _ _ _ hb'
    exact ⟨a ++ earlier, caller, id, function, args, callbacks, (List.append_assoc ..).symm, hkey⟩
  · cases middle with
    | nil =>
      -- A hit cannot come first.
      obtain ⟨earlier, caller, id, function, args, callbacks, hnil, -⟩ := hb [] key after ha'.symm
      exact absurd hnil.symm (by simp)
    | cons e middle =>
      cases ha'
      exact ha before key middle rfl

/-- What closes a run says nothing about calls. -/
theorem closing_apart {e : Event} {outcome : Except Halt (Record Json)}
    (he : e ∈ closing outcome) :
    e.isCacheHit = false ∧ ∀ functions, e.fires functions = false := by
  match outcome, he with
  | .ok outputs, he =>
    cases List.mem_singleton.1 he
    exact ⟨rfl, fun _ => rfl⟩
  | .error (.failed error), he =>
    cases List.mem_singleton.1 he
    exact ⟨rfl, fun _ => rfl⟩

/-- Events of which the first and the last ones do not count. -/
theorem countP_framed {events inner last : List Event} {first : Event} {counts : Event → Bool}
    (h : events = first :: (inner ++ last)) (hfirst : counts first = false)
    (hlast : ∀ e ∈ last, counts e = false) : events.countP counts = inner.countP counts := by
  have hzero : last.countP counts = 0 := List.countP_eq_zero.2 fun e he => by simp [hlast e he]
  rw [h, List.countP_cons, List.countP_append, hzero]
  simp [hfirst]

end Event

/-! ### Ledgers -/

namespace MemoCache

open Event

/-- How events account for what has become of a cache. Every new entry is paid for by a miss. -/
structure Ledger (c : MemoCache) (told : List Event) (c' : MemoCache) : Prop where
  max : c'.max = c.max
  allowed : c'.allowed = c.allowed
  sound : c.Sound → c'.Sound
  growth : c.Sound → c'.size + c.misses ≤ c.size + c'.misses
  hits : c'.hits = c.hits + told.countP isCacheHit
  lookups : c'.hits + c'.misses = c.hits + c.misses + told.countP (fires c.isCacheable)
  follow : HitsFollowFirings c.isCacheable told
  inner : ∀ e ∈ told, e.isBoundary = false

namespace Ledger

variable {c c' c'' : MemoCache} {told told' : List Event}

private theorem isCacheable_eq (h : c.Ledger told c') : c'.isCacheable = c.isCacheable := by
  funext function
  rw [isCacheable, isCacheable, h.max, h.allowed]

/-- An event that has nothing to do with the cache. -/
theorem apart {e : Event} (c : MemoCache) (hhit : e.isCacheHit = false)
    (hfires : e.fires c.isCacheable = false) (hinner : e.isBoundary = false) :
    c.Ledger [e] c where
  max := rfl
  allowed := rfl
  sound h := h
  growth _ := le_rfl
  hits := by simp [hhit]
  lookups := by simp [hfires]
  follow := .of_no_hit (by simpa using hhit)
  inner := by simpa using hinner

theorem refl (c : MemoCache) : c.Ledger [] c where
  max := rfl
  allowed := rfl
  sound h := h
  growth _ := le_rfl
  hits := rfl
  lookups := rfl
  follow := .of_no_hit (by simp)
  inner := by simp

theorem trans (h : c.Ledger told c') (h' : c'.Ledger told' c'') : c.Ledger (told ++ told') c'' where
  max := h'.max.trans h.max
  allowed := h'.allowed.trans h.allowed
  sound hc := h'.sound (h.sound hc)
  growth hc := by
    have hfirst := h.growth hc
    have hsecond := h'.growth (h.sound hc)
    omega
  hits := by
    rw [List.countP_append, h'.hits, h.hits]
    omega
  lookups := by
    have hsecond := h'.lookups
    rw [h.isCacheable_eq] at hsecond
    rw [List.countP_append, hsecond, h.lookups]
    omega
  follow := h.follow.append (h.isCacheable_eq ▸ h'.follow)
  inner e he := (List.mem_append.1 he).elim (h.inner e) (h'.inner e)

section Call

variable {caller id function : String} (hc : c.isCacheable function = true)
include hc

/-- A call whose result is in the cache. -/
theorem hit (args callbacks : Record Json) :
    c.Ledger [.nodeFired caller id function, .cacheHit (key function args callbacks)]
      { c with hits := c.hits + 1 } where
  max := rfl
  allowed := rfl
  sound h := ⟨h.lists, h.size_le⟩
  growth _ := le_rfl
  hits := rfl
  lookups := by
    have hcount : ([.nodeFired caller id function, .cacheHit (key function args callbacks)] :
        List Event).countP (fires c.isCacheable) = 1 := by
      simp [fires, hc]
    rw [hcount]
    show c.hits + 1 + c.misses = _
    omega
  follow := by
    intro before key' after h
    match before, h with
    | [], h => cases h
    | [e], h =>
      cases h
      exact ⟨[], caller, id, function, args, callbacks, rfl, hc, rfl⟩
    | _ :: _ :: before, h =>
      simp at h
  inner := by simp [isBoundary]

/-- A call whose result has to be computed. -/
theorem miss : c.Ledger [.nodeFired caller id function] { c with misses := c.misses + 1 } where
  max := rfl
  allowed := rfl
  sound h := ⟨h.lists, h.size_le⟩
  growth _ := by
    show c.size + c.misses ≤ c.size + (c.misses + 1)
    omega
  hits := rfl
  lookups := by simp [fires, hc, Nat.add_assoc]
  follow := .of_no_hit (by simp [isCacheHit])
  inner := by simp [isBoundary]

/-- The result of such a call may be kept: the miss has paid for it. -/
theorem miss_kept (h : Ledger { c with misses := c.misses + 1 } told c') (key : String)
    (outputs : Outputs) :
    c.Ledger (.nodeFired caller id function :: told) (c'.insert key outputs) :=
  let called := (miss hc).trans h
  { max := called.max
    allowed := called.allowed
    sound := fun hsound => (called.sound hsound).insert key outputs
    growth := fun hsound => by
      have hcalled : c'.size + (c.misses + 1) ≤ c.size + c'.misses :=
        h.growth ⟨hsound.lists, hsound.size_le⟩
      have hinsert := (called.sound hsound).size_insert_le key outputs
      show (c'.insert key outputs).size + c.misses ≤ c.size + c'.misses
      omega
    hits := called.hits
    lookups := called.lookups
    follow := called.follow
    inner := called.inner }

end Call

end Ledger

end MemoCache

/-! ### Executions -/

/-- What was told in between accounts for what has become of the cache. -/
def Session.Accounts (s s' : Session) : Prop :=
  ∀ c, s.cache = some c → ∃ told c', s'.cache = some c' ∧
    s'.events.toList = s.events.toList ++ told ∧ c.Ledger told c'

namespace Session.Accounts

theorem refl (s : Session) : s.Accounts s :=
  fun c hs => ⟨[], c, hs, (List.append_nil _).symm, .refl c⟩

theorem trans {s s' s'' : Session} (h : s.Accounts s') (h' : s'.Accounts s'') :
    s.Accounts s'' := by
  intro c hs
  obtain ⟨told, c', hs', hevents, hledger⟩ := h c hs
  obtain ⟨told', c'', hs'', hevents', hledger'⟩ := h' c' hs'
  refine ⟨told ++ told', c'', hs'', ?_, hledger.trans hledger'⟩
  rw [hevents', hevents, List.append_assoc]

theorem closed : Run.Closed fun _ r => ∀ s : Session, s.Accounts (r s).2 :=
  .of_trans refl trans fun _ _ c hs => ⟨[], c, hs, (List.append_nil _).symm, .refl c⟩

theorem emit {e : Event} (observer : Observer) (hhit : e.isCacheHit = false)
    (hfires : ∀ functions, e.fires functions = false) (hinner : e.isBoundary = false)
    (s : Session) : s.Accounts (Run.emit observer e s).2 := by
  intro c hs
  refine ⟨[e], c, ?_, ?_, .apart c hhit (hfires _) hinner⟩
  · rw [(Run.emit_outcome observer e s).2, hs]
  · rw [Run.emit_events, Array.toList_push]

end Session.Accounts

namespace Host

/-- What becomes of a session when a function is called through the cache `c`, which knows the call
by the key: the call goes past the cache, its result is found there, or it is computed, and kept
unless the call fails. -/
inductive Called (invoked : Run Outputs) (function key : String) (c : MemoCache) (s : Session) :
    Session → Prop where
  | past {s' : Session} : c.isCacheable function = false → (invoked s).2 = s' →
    Called invoked function key c s s'
  | found {outputs : Outputs} {s' : Session} : c.isCacheable function = true →
    c.entries.get? key = some outputs → s'.cache = some { c with hits := c.hits + 1 } →
    s'.events.toList = s.events.toList ++ [.cacheHit key] → Called invoked function key c s s'
  | failed {halt : Halt} {s' : Session} : c.isCacheable function = true →
    c.entries.get? key = none →
    invoked { s with cache := some { c with misses := c.misses + 1 } } = (.error halt, s') →
    Called invoked function key c s s'
  | kept {outputs : Outputs} {s₁ s' : Session} : c.isCacheable function = true →
    c.entries.get? key = none →
    invoked { s with cache := some { c with misses := c.misses + 1 } } = (.ok outputs, s₁) →
    s'.cache = s₁.cache.map (fun cache => cache.insert key outputs) → s'.events = s₁.events →
    Called invoked function key c s s'

private theorem invokeCached_called {host : Host} {nested : Executor} {caller function : String}
    {entry : Entry} {args : Record Json} {closures : Record Closure} {c : MemoCache} {s : Session}
    (hs : s.cache = some c) :
    Called (invoke nested function entry args closures caller) function
      (callKey function args closures) c s
      (host.invokeCached nested function entry args closures caller s).2 := by
  cases hc : c.isCacheable function with
  | false =>
    have hkey : cacheKey? s.cache function args closures = none := by
      rw [hs]
      exact if_neg (by simp [hc])
    rw [invokeCached_of_none hkey]
    exact .past hc rfl
  | true =>
    cases hfound : c.entries.get? (callKey function args closures) with
    | some outputs =>
      rw [invokeCached_of_found host nested entry caller hs hc hfound,
        Run.andThen_of_ok (Run.note_eq ..), Run.andThen_of_ok (Run.emit_eq ..)]
      refine .found hc hfound (Run.emit_outcome ..).2 ?_
      show (Run.emit ..).2.events.toList = _
      rw [Run.emit_events, Array.toList_push]
      rfl
    | none =>
      rw [invokeCached_of_absent host nested entry caller hs hc hfound]
      rcases hcall : invoke nested function entry args closures caller
        { s with cache := some { c with misses := c.misses + 1 } } with ⟨halt | outputs, s₁⟩
      · rw [Run.andThen_of_error hcall]
        exact .failed hc hfound hcall
      · obtain ⟨s₂, hremember, hcache⟩ := remember_eq (callKey function args closures) outputs s₁
        have hevents := remember_events (callKey function args closures) outputs s₁
        rw [hremember] at hevents
        rw [Run.andThen_of_ok hcall, Run.andThen_of_ok hremember]
        exact .kept hc hfound hcall hcache hevents

/-- The firing of a node is told before its function is called. -/
theorem call_called (host : Host) (nested : Executor) (caller id function : String) (entry : Entry)
    (args : Record Json) (closures : Record Closure) {c : MemoCache} {s : Session}
    (hs : s.cache = some c) :
    ∃ s₁ : Session, s₁.cache = some c ∧
      s₁.events.toList = s.events.toList ++ [.nodeFired caller id function] ∧
      Called (invoke nested function entry args closures caller) function
        (callKey function args closures) c s₁
        (((Run.emit host.observer (.nodeFired caller id function)).andThen fun _ =>
          host.invokeCached nested function entry args closures caller) s).2 := by
  have hcache : (Run.emit host.observer (.nodeFired caller id function) s).2.cache = some c := by
    rw [(Run.emit_outcome ..).2, hs]
  refine ⟨_, hcache, ?_, ?_⟩
  · rw [Run.emit_events, Array.toList_push]
  · rw [Run.andThen_of_ok (Run.emit_eq ..)]
    exact invokeCached_called hcache

/-- The firing of a node, with its call through the cache, accounts for what it does to it. -/
theorem call_accounts {host : Host} {nested : Executor} {caller function : String} {entry : Entry}
    {args : Record Json} {closures : Record Closure} (id : String)
    (hinvoke : ∀ s : Session, s.Accounts
      (invoke nested function entry args closures caller s).2) (s : Session) :
    s.Accounts (((Run.emit host.observer (.nodeFired caller id function)).andThen fun _ =>
      host.invokeCached nested function entry args closures caller) s).2 := by
  intro c hs
  obtain ⟨s₁, hcache, hevents, hcalled⟩ :=
    call_called host nested caller id function entry args closures hs
  have htold : ∀ told, s₁.events.toList ++ told =
      s.events.toList ++ .nodeFired caller id function :: told := by
    intro told
    rw [hevents, List.append_assoc]
    rfl
  cases hcalled with
  | past hc hcall =>
    obtain ⟨told, c', hcache', hevents', hledger⟩ := hinvoke s₁ c hcache
    rw [hcall] at hcache' hevents'
    refine ⟨_, c', hcache', hevents'.trans (htold told), ?_⟩
    exact (MemoCache.Ledger.apart (e := .nodeFired caller id function) c rfl hc rfl).trans hledger
  | found hc _ hcache' hevents' => exact ⟨_, _, hcache', hevents'.trans (htold _), .hit hc args _⟩
  | failed hc _ hcall =>
    obtain ⟨told, c', hcache', hevents', hledger⟩ :=
      hinvoke { s₁ with cache := some { c with misses := c.misses + 1 } } _ rfl
    rw [hcall] at hcache' hevents'
    exact ⟨_, c', hcache', hevents'.trans (htold told), (MemoCache.Ledger.miss hc).trans hledger⟩
  | kept hc _ hcall hkept hquiet =>
    obtain ⟨told, c', hcache', hevents', hledger⟩ :=
      hinvoke { s₁ with cache := some { c with misses := c.misses + 1 } } _ rfl
    rw [hcall] at hcache' hevents'
    rw [hcache'] at hkept
    rw [hquiet]
    exact ⟨_, _, hkept, hevents'.trans (htold told), .miss_kept hc hledger _ _⟩

/-- **Executions account for what they do to the cache.** -/
theorem habit_accounts (host : Host) :
    host.Habit (fun _ r => ∀ s : Session, s.Accounts (r s).2) fun _ _ _ => True where
  toClosed := Session.Accounts.closed
  native _ _ _ args callbacks answer hanswer := by
    refine Script.perform_closed Session.Accounts.closed (fun s c hs => ?_) hanswer _
    obtain ⟨x, source, hrandom⟩ := Run.random_eq s
    rw [hrandom]
    exact ⟨[], c, hs, (List.append_nil _).symm, .refl c⟩
  call turn _ _ hinvoke := call_accounts turn.id hinvoke
  stopped _ _ := Session.Accounts.emit _ rfl (fun _ => rfl) rfl
  exhausted _ _ := Session.Accounts.emit _ rfl (fun _ => rfl) rfl
  move _ _ := trivial
  callback _ _ _ _ _ _ _ _ := trivial
  program _ _ _ _ _ _ := trivial

end Host

/-! ### Top-level runs -/

namespace Environment

variable {env : Environment}

/-- The session in which the program of a top-level run begins: the run has been noted and told. -/
def started (env : Environment) (run : String) (p : Program) (s : Session) : Session :=
  (Run.emit env.observer .runStarted (Run.note (.runStarted run p.size) s).2).2

private theorem cache_started (env : Environment) (run : String) (p : Program) (s : Session) :
    (env.started run p s).cache = s.cache :=
  (Run.emit_outcome ..).2

private theorem events_started (env : Environment) (run : String) (p : Program) (s : Session) :
    (env.started run p s).events = s.events.push .runStarted :=
  Run.emit_events ..

/-- A top-level run is told to start, does what its program does, and is told to end. -/
theorem session_events (env : Environment) (depth : Nat) (run : String) (p : Program)
    (inputs : Record Json) (s : Session) :
    let done := Host.runProgram (env.host.execute depth) p inputs mainCaller (env.started run p s)
    (env.session depth run p inputs s).1 = done.1 ∧
      (env.session depth run p inputs s).2.cache = done.2.cache ∧
      (env.session depth run p inputs s).2.events.toList =
        done.2.events.toList ++ Event.closing done.1 := by
  intro done
  unfold session
  simp only [Run.bind_eq, Run.pure_eq]
  rw [Run.andThen_of_ok (Run.note_eq ..), Run.andThen_of_ok (Run.emit_eq ..)]
  rcases h : done with ⟨(error | _ | _) | outputs, s₂⟩
  · rw [Run.andThen_of_ok (Run.attempt_of_failed h)]
    simp only
    rw [Run.andThen_of_ok (Run.note_eq ..), Run.andThen_of_ok (Run.emit_eq ..)]
    refine ⟨rfl, (Run.emit_outcome ..).2, ?_⟩
    show (Run.emit ..).2.events.toList = _
    rw [Run.emit_events, Array.toList_push]
    rfl
  · rw [Run.andThen_of_error (Run.attempt_of_crashed h)]
    exact ⟨rfl, rfl, (List.append_nil _).symm⟩
  · rw [Run.andThen_of_error (Run.attempt_of_outOfDepth h)]
    exact ⟨rfl, rfl, (List.append_nil _).symm⟩
  · rw [Run.andThen_of_ok (Run.attempt_of_ok h)]
    simp only
    rw [Run.andThen_of_ok (Run.note_eq ..), Run.andThen_of_ok (Run.emit_eq ..)]
    refine ⟨rfl, (Run.emit_outcome ..).2, ?_⟩
    show (Run.emit ..).2.events.toList = _
    rw [Run.emit_events, Array.toList_push]
    rfl

/-- The inner events of a run account for what has become of its cache. -/
theorem exists_ledger {cache : MemoCache} (hcache : env.cache = some cache) (depth : Nat)
    (run : String) (random : RandomSource) (p : Program) (inputs : Record Json) :
    let report := env.runWithin depth run random p inputs
    ∃ inner after, report.environment.cache = some after ∧
      report.events.toList = .runStarted :: (inner ++ Event.closing report.outcome) ∧
      cache.clear.Ledger inner after := by
  intro report
  let start : Session := ⟨env.cache.map MemoCache.clear, #[], #[], random⟩
  obtain ⟨houtcome, hfinal, hevents⟩ := env.session_events depth run p inputs start
  have hclear : (env.started run p start).cache = some cache.clear := by
    rw [cache_started]
    exact congrArg (Option.map MemoCache.clear) hcache
  obtain ⟨inner, after, hafter, htold, hledger⟩ :=
    env.host.habit_accounts.runProgram depth mainCaller p inputs (fun _ _ => trivial) _ _ hclear
  rw [hafter] at hfinal
  rw [htold, events_started, ← houtcome] at hevents
  exact ⟨inner, after, hfinal, hevents, hledger⟩

/-- What a run looks up, it tells. So the counters stay below `2 ^ 64` as long as the events do. -/
theorem counters_lt {cache after : MemoCache} (hcache : env.cache = some cache) {depth : Nat}
    {run : String} {random : RandomSource} {p : Program} {inputs : Record Json}
    (hafter : (env.runWithin depth run random p inputs).environment.cache = some after)
    (hevents : (env.runWithin depth run random p inputs).events.size < 2 ^ 64) :
    after.hits + after.misses < 2 ^ 64 := by
  obtain ⟨inner, final, hfinal, htold, hledger⟩ := exists_ledger hcache depth run random p inputs
  cases hafter.symm.trans hfinal
  have hlookups : after.hits + after.misses =
      inner.countP (Event.fires cache.clear.isCacheable) :=
    hledger.lookups.trans (Nat.zero_add _)
  have hcount := inner.countP_le_length (p := Event.fires cache.clear.isCacheable)
  have hlength := congrArg List.length htold
  rw [List.length_cons, List.length_append, Array.length_toList] at hlength
  omega

/-- **Events and counters agree.** In an environment with a cache, whatever comes of a run, its
events are opened by the only `runStarted` and closed by the only event that tells what came of it,
with the names of the outputs in order or the text of the error (a crash tells nothing); the
counters of the cache are the numbers of the events; the entries are bounded by the limit and by the
misses; and every hit comes right after the firing that asked for it. -/
theorem counters_of_events {cache : MemoCache} (hcache : env.cache = some cache) (depth : Nat)
    (run : String) (random : RandomSource) (p : Program) (inputs : Record Json) :
    let report := env.runWithin depth run random p inputs
    let events := report.events.toList
    ∃ inner stats, events = .runStarted :: (inner ++ Event.closing report.outcome) ∧
      (∀ e ∈ inner, e.isBoundary = false) ∧
      (∀ outputs, report.outcome = .ok outputs → outputs.names.Pairwise (· < ·) ∧
        ∀ name, name ∈ outputs.names ↔ outputs.contains name = true) ∧
      report.environment.cacheStats = some stats ∧
      stats.hits = events.countP Event.isCacheHit ∧
      stats.hits + stats.misses = events.countP (Event.fires cache.isCacheable) ∧
      stats.max = cache.max ∧ stats.entries ≤ stats.max.toNat ∧ stats.entries ≤ stats.misses ∧
      Event.HitsFollowFirings cache.isCacheable events := by
  intro report events
  obtain ⟨inner, after, hafter, hevents, hledger⟩ :=
    exists_ledger hcache depth run random p inputs
  -- The counters start from zero, and the first and the last event do not count.
  have hhits : after.hits = inner.countP Event.isCacheHit :=
    hledger.hits.trans (Nat.zero_add _)
  have hlookups : after.hits + after.misses = inner.countP (Event.fires cache.isCacheable) :=
    hledger.lookups.trans (Nat.zero_add _)
  have hgrowth : after.size + 0 ≤ 0 + after.misses := hledger.growth (.clear cache)
  refine ⟨inner, after.stats, hevents, hledger.inner, fun outputs _ => ?_, ?_, ?_, ?_, hledger.max,
    (hledger.sound (.clear cache)).size_le, ?_, ?_⟩
  · exact ⟨outputs.sorted_names, fun name => Record.mem_names⟩
  · exact congrArg (Option.map MemoCache.stats) hafter
  · exact hhits.trans (Event.countP_framed hevents rfl fun e he => (Event.closing_apart he).1).symm
  · refine hlookups.trans (Event.countP_framed hevents rfl fun e he => ?_).symm
    exact (Event.closing_apart he).2 _
  · show after.size ≤ after.misses
    omega
  · have hclosing : Event.HitsFollowFirings cache.isCacheable (Event.closing report.outcome) :=
      .of_no_hit fun e he => (Event.closing_apart he).1
    have hopening : Event.HitsFollowFirings cache.isCacheable [.runStarted] :=
      .of_no_hit (by simp [Event.isCacheHit])
    show Event.HitsFollowFirings cache.isCacheable report.events.toList
    rw [hevents]
    exact hopening.append (hledger.follow.append hclosing)

/-- Of three flags the last repeats the first: `word` is called three times and computed twice. -/
theorem counters_of_events_words :
    let flags := Record.ofList [("flags", Json.array [.bool true, .bool false, .bool true])]
    let report := (withWord (some ⟨2, true⟩)).runWithin 3 "" default .wordsOf flags
    let cache := (MemoCache.ofConfig ⟨2, true⟩).allow "word"
    (withWord (some ⟨2, true⟩)).cache = some cache ∧
      report.events.toList.countP Event.isCacheHit = 1 ∧
      report.events.toList.countP (Event.fires cache.isCacheable) = 1 + 2 ∧
      Event.HitsFollowFirings cache.isCacheable report.events.toList := by
  intro flags report cache
  have hcache : (withWord (some ⟨2, true⟩)).cache = some cache := rfl
  obtain ⟨inner, stats, -, -, -, hstats, hhits, hlookups, -, -, -, hfollow⟩ :=
    counters_of_events hcache 3 "" default .wordsOf flags
  have hcounted : report.environment.cacheStats = some ⟨2, 2, 1, 2⟩ := by decide +kernel
  have heq : stats = ⟨2, 2, 1, 2⟩ := Option.some.inj (hstats.symm.trans hcounted)
  rw [heq] at hhits hlookups
  -- The events are not computed here, only the counters are.
  with_reducible exact ⟨hcache, hhits.symm, hlookups.symm, hfollow⟩

end Environment

end Dataflow

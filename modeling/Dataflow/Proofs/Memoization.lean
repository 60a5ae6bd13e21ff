/-
Memoization is transparent.

A cache is faithful when everything it holds is the result of a call that runs without one. A
faithful cache stays faithful, since its keys tell calls apart up to the order of nodes in callback
bodies, and that order plays no part. So a run without a cache leads every run with one, and the
other way round; the depths to which calls are followed may differ, because a hit skips a whole
nested run.

* `Host.execute_leads` — executions lead each other when their cached calls do;
* `Host.callsLead_cached`, `Host.callsLead_uncached` — from no cache to a faithful one, and back;
* `Environment.returns_iff_returns_cached` — the results with and without a cache are the same.
-/
import Mathlib
import Dataflow.Environment
import Dataflow.Proofs.CachedCall
import Dataflow.Proofs.Fingerprint
import Dataflow.Proofs.Library
import Dataflow.Proofs.MemoCache
namespace Dataflow

/-- A catalog in which no name looks like the beginning of a cache key. -/
def Catalog.Unmarked (c : Catalog) : Prop :=
  ∀ name entry, c.get? name = some entry → MemoCache.Unmarked name

namespace Host

/-! ### Runs without a cache -/

section Executions

variable {C : Option MemoCache → Option MemoCache → Prop} {host host' : Host}

/-- Executions lead each other when calls through the cache do, at every depth. -/
theorem execute_leads (hcatalog : host.catalog = host'.catalog) (hslack : host.slack = host'.slack)
    (hcalls : ∀ depth, Executor.Leads C (host.execute depth) host'.execute →
      CallsLead C host host' (host.execute depth) host'.execute) (depth : Nat) :
    Executor.Leads C (host.execute depth) host'.execute := by
  induction depth with
  | zero =>
    -- At depth zero nothing is run, so there is nothing to follow.
    intro caller caller' p q frames _ _ s s' _ hne
    exact absurd rfl hne
  | succ depth ih =>
    intro caller caller' p q frames hpq hframes
    refine Run.Leads.of_succ ?_
    simp only [execute, Program.steps, ← hslack, ← hpq.size_eq]
    exact drain_leads hcatalog (hcalls depth ih) hpq caller caller' _ hframes .empty

/-- Neither side has a cache. -/
def Uncached (a b : Option MemoCache) : Prop := a = none ∧ b = none

/-- Without a cache, calls are plain calls. -/
theorem execute_leads_uncached (hcatalog : host.catalog = host'.catalog)
    (hslack : host.slack = host'.slack) (hdet : host.catalog.Deterministic) (depth : Nat) :
    Executor.Leads Uncached (host.execute depth) host'.execute := by
  refine execute_leads hcatalog hslack (fun depth hn => ?_) depth
  intro function entry hentry args closures hsound caller caller' s s' hC hne
  have hkey : cacheKey? s.cache function args closures = none := by rw [hC.1]; rfl
  have hkey' : cacheKey? s'.cache function args closures = none := by rw [hC.2]; rfl
  rw [invokeCached_of_none hkey] at hne ⊢
  simp only [invokeCached_of_none hkey']
  exact invoke_leads hn hdet hentry args hsound (.refl closures) caller caller' s s' hC hne

/-- The call gives the outputs when it is run without a cache. -/
def Computes (host : Host) (function : String) (entry : Entry) (args : Record Json)
    (closures : Record Closure) (outputs : Outputs) : Prop :=
  ∃ depth caller s, s.cache = none ∧
    (invoke (host.execute depth) function entry args closures caller s).1 = .ok outputs

/-- What a call computes it computes for all similar closures and callers, from some depth on. -/
theorem Computes.settles {function : String} {entry : Entry} {args : Record Json}
    {closures closures' : Record Closure} {outputs : Outputs}
    (h : host.Computes function entry args closures outputs) (hdet : host.catalog.Deterministic)
    (hentry : host.catalog.get? function = some entry) (hsound : Closure.AllSound closures)
    (hsimilar : Closure.AllSimilar closures closures') (caller : String) {s : Session}
    (hs : s.cache = none) :
    ∃ s', s'.cache = none ∧ ∃ n, ∀ m, n ≤ m →
      invoke (host.execute m) function entry args closures' caller s = (.ok outputs, s') := by
  obtain ⟨depth, caller₀, s₀, hs₀, hout⟩ := h
  have hleads := invoke_leads (execute_leads_uncached rfl rfl hdet depth) hdet hentry args hsound
    hsimilar caller₀ caller s₀ s ⟨hs₀, hs⟩ (by rw [hout]; exact fun h => nomatch h)
  obtain ⟨s', hC, n, hn⟩ := hleads
  rw [hout] at hn
  exact ⟨s', hC.2, n, hn⟩

/-- Only one outcome can be computed, and computing it leaves no cache behind. -/
theorem Computes.outcome_eq {function : String} {entry : Entry} {args : Record Json}
    {closures : Record Closure} {outputs : Outputs}
    (h : host.Computes function entry args closures outputs) (hdet : host.catalog.Deterministic)
    (hentry : host.catalog.get? function = some entry) (hsound : Closure.AllSound closures)
    {depth : Nat} {caller : String} {s : Session} (hs : s.cache = none)
    (hne : (invoke (host.execute depth) function entry args closures caller s).1 ≠
      .error .outOfDepth) :
    (invoke (host.execute depth) function entry args closures caller s).1 = .ok outputs ∧
      (invoke (host.execute depth) function entry args closures caller s).2.cache = none := by
  obtain ⟨s', -, n, hn⟩ := h.settles hdet hentry hsound (.refl closures) caller hs
  obtain ⟨s₂, hC, n', hn'⟩ := invoke_leads (execute_leads_uncached rfl rfl hdet depth) hdet hentry
    args hsound (.refl closures) caller caller s s ⟨hs, hs⟩ hne
  -- Deep enough, both runs are the same run.
  have hsame := (hn' (max n n') (le_max_right ..)).symm.trans (hn (max n n') (le_max_left ..))
  exact ⟨congrArg Prod.fst hsame, hC.1⟩

/-! ### Faithful caches -/

/-- Everything in the cache is what its call computes. -/
structure Faithful (host : Host) (cache : MemoCache) : Prop where
  computes : ∀ {function : String} {entry : Entry} {args : Record Json} {closures : Record Closure}
    {outputs : Outputs}, host.catalog.get? function = some entry → Closure.AllSound closures →
    cache.entries.get? (callKey function args closures) = some outputs →
    host.Computes function entry args closures outputs

/-- The cache, if there is one, is faithful. -/
def FaithfulIfAny (host : Host) (cache : Option MemoCache) : Prop :=
  ∀ c, cache = some c → host.Faithful c

private theorem Faithful.of_entries {cache cache' : MemoCache} (h : host.Faithful cache)
    (heq : cache'.entries = cache.entries) : host.Faithful cache' := by
  refine ⟨fun hentry hsound hget => ?_⟩
  rw [heq] at hget
  exact h.computes hentry hsound hget

private theorem faithful_clear (cache : MemoCache) : host.Faithful cache.clear := by
  refine ⟨fun hentry hsound hget => ?_⟩
  cases hget

/-- A computed result may be kept. -/
theorem Faithful.insert {cache : MemoCache} (h : host.Faithful cache)
    (hdet : host.catalog.Deterministic) (hnames : host.catalog.Unmarked) {function : String}
    {entry : Entry} {args : Record Json} {closures : Record Closure} {outputs : Outputs}
    (hentry : host.catalog.get? function = some entry) (hsound : Closure.AllSound closures)
    (hcomputes : host.Computes function entry args closures outputs) :
    host.Faithful (cache.insert (callKey function args closures) outputs) := by
  constructor
  intro function' entry' args' closures' outputs' hentry' hsound' hget
  rcases MemoCache.get?_insert hget with ⟨hkey, rfl⟩ | hold
  · obtain ⟨rfl, rfl, hfingerprints⟩ :=
      MemoCache.key_injective (hnames _ _ hentry') (hnames _ _ hentry) hkey
    cases hentry.symm.trans hentry'
    have hsimilar := Closure.allSimilar_of_fingerprints hsound hsound' hfingerprints.symm
    -- The other closures may list their nodes in another order.
    have hs : (⟨none, #[], #[], default⟩ : Session).cache = none := rfl
    obtain ⟨s', -, n, hn⟩ := hcomputes.settles hdet hentry hsound hsimilar "" hs
    exact ⟨n, "", _, rfl, congrArg Prod.fst (hn n le_rfl)⟩
  · exact h.computes hentry' hsound' hold

theorem FaithfulIfAny.insert {cache : Option MemoCache} (h : host.FaithfulIfAny cache)
    (hdet : host.catalog.Deterministic) (hnames : host.catalog.Unmarked) {function : String}
    {entry : Entry} {args : Record Json} {closures : Record Closure} {outputs : Outputs}
    (hentry : host.catalog.get? function = some entry) (hsound : Closure.AllSound closures)
    (hcomputes : host.Computes function entry args closures outputs) :
    host.FaithfulIfAny
      (cache.map fun cache => cache.insert (callKey function args closures) outputs) := by
  intro c hc
  obtain ⟨c₀, hc₀, rfl⟩ := Option.map_eq_some_iff.1 hc
  exact (h c₀ hc₀).insert hdet hnames hentry hsound hcomputes

/-! ### With and without a cache -/

/-- The first side has no cache, that of the second is faithful. -/
def CachedAfter (host : Host) (a b : Option MemoCache) : Prop := a = none ∧ host.FaithfulIfAny b

/-- The cache of the first side is faithful, the second has none. -/
def CachedBefore (host : Host) (a b : Option MemoCache) : Prop := host.FaithfulIfAny a ∧ b = none

/-- A call without a cache leads calls with a faithful one. -/
theorem callsLead_cached
    (hdet : host.catalog.Deterministic) (hnames : host.catalog.Unmarked) {depth : Nat}
    (hn : Executor.Leads host.CachedAfter (host.execute depth) host'.execute) :
    CallsLead host.CachedAfter host host' (host.execute depth) host'.execute := by
  intro function entry hentry args closures hsound caller caller' s s' hC hne
  have hnone : cacheKey? s.cache function args closures = none := by rw [hC.1]; rfl
  rw [invokeCached_of_none hnone] at hne ⊢
  have hinvoke := invoke_leads hn hdet hentry args hsound (.refl closures) caller caller'
  cases hkey : cacheKey? s'.cache function args closures with
  | none =>
    simp only [invokeCached_of_none hkey]
    exact hinvoke s s' hC hne
  | some key =>
    obtain ⟨cache, hs', hcacheable⟩ := cacheKey?_eq_some hkey
    have hfaithful := hC.2 cache hs'
    cases hget : cache.entries.get? (callKey function args closures) with
    | some outputs =>
      -- The whole nested run is skipped, but it would have come to the same result.
      obtain ⟨cache', s₂, hentries, hs₂, hhit⟩ :=
        invokeCached_of_hit host' entry caller' hs' hcacheable hget
      obtain ⟨hout, hs⟩ :=
        (hfaithful.computes hentry hsound hget).outcome_eq hdet hentry hsound hC.1 hne
      refine ⟨s₂, ⟨hs, fun c hc => ?_⟩, 0, fun m _ => ?_⟩
      · cases hs₂.symm.trans hc
        exact hfaithful.of_entries hentries
      · rw [hout]
        exact hhit _
    | none =>
      obtain ⟨cache', hentries, hmiss⟩ :=
        invokeCached_of_miss host' entry caller' hs' hcacheable hget
      have hC' : host.CachedAfter s.cache (some cache') := by
        refine ⟨hC.1, fun c hc => ?_⟩
        cases hc
        exact hfaithful.of_entries hentries
      obtain ⟨s₂, hC₂, n, hn₂⟩ := hinvoke s { s' with cache := some cache' } hC' hne
      cases hout : (invoke (host.execute depth) function entry args closures caller s).1 with
      | error halt =>
        rw [hout] at hn₂
        exact ⟨s₂, hC₂, n, fun m hm => (hmiss _).trans (Run.andThen_of_error (hn₂ m hm))⟩
      | ok outputs =>
        rw [hout] at hn₂
        obtain ⟨s₃, hremember, hs₃⟩ := remember_eq (callKey function args closures) outputs s₂
        have hcomputes : host.Computes function entry args closures outputs :=
          ⟨depth, caller, s, hC.1, hout⟩
        refine ⟨s₃, ⟨hC₂.1, ?_⟩, n, fun m hm => ?_⟩
        · rw [hs₃]
          exact hC₂.2.insert hdet hnames hentry hsound hcomputes
        · show host'.invokeCached _ _ _ _ _ _ _ = _
          rw [hmiss, Run.andThen_of_ok (hn₂ m hm), Run.andThen_of_ok hremember]
          rfl

/-- A call with a faithful cache leads calls without one. -/
theorem callsLead_uncached (hcatalog : host.catalog = host'.catalog)
    (hdet : host.catalog.Deterministic) (hnames : host.catalog.Unmarked) {depth : Nat}
    (hn : Executor.Leads host.CachedBefore (host'.execute depth) host.execute) :
    CallsLead host.CachedBefore host' host (host'.execute depth) host.execute := by
  intro function entry hentry' args closures hsound caller caller' s s' hC hne
  have hentry : host.catalog.get? function = some entry := by rw [hcatalog]; exact hentry'
  have hnone : cacheKey? s'.cache function args closures = none := by rw [hC.2]; rfl
  simp only [invokeCached_of_none hnone]
  have hinvoke := invoke_leads hn hdet hentry args hsound (.refl closures) caller caller'
  cases hkey : cacheKey? s.cache function args closures with
  | none =>
    rw [invokeCached_of_none hkey] at hne ⊢
    exact hinvoke s s' hC hne
  | some key =>
    obtain ⟨cache, hs, hcacheable⟩ := cacheKey?_eq_some hkey
    have hfaithful := hC.1 cache hs
    cases hget : cache.entries.get? (callKey function args closures) with
    | some outputs =>
      obtain ⟨cache', s₁, hentries, hs₁, hhit⟩ :=
        invokeCached_of_hit host' entry caller hs hcacheable hget
      obtain ⟨s₂, hs₂, n, hn₂⟩ := (hfaithful.computes hentry hsound hget).settles hdet hentry hsound
        (.refl closures) caller' hC.2
      rw [hhit]
      refine ⟨s₂, ⟨fun c hc => ?_, hs₂⟩, n, hn₂⟩
      cases hs₁.symm.trans hc
      exact hfaithful.of_entries hentries
    | none =>
      obtain ⟨cache', hentries, hmiss⟩ :=
        invokeCached_of_miss host' entry caller hs hcacheable hget
      have hC' : host.CachedBefore (some cache') s'.cache := by
        refine ⟨fun c hc => ?_, hC.2⟩
        cases hc
        exact hfaithful.of_entries hentries
      rw [hmiss] at hne ⊢
      rcases hout : invoke (host'.execute depth) function entry args closures caller
        { s with cache := some cache' } with ⟨halt | outputs, s₁⟩
      · rw [Run.andThen_of_error hout] at hne ⊢
        have hlead := hinvoke { s with cache := some cache' } s' hC'
        rw [hout] at hlead
        exact hlead hne
      · obtain ⟨s₃, hremember, hs₃⟩ := remember_eq (callKey function args closures) outputs s₁
        rw [Run.andThen_of_ok hout, Run.andThen_of_ok hremember]
        have hlead := hinvoke { s with cache := some cache' } s' hC'
        rw [hout] at hlead
        obtain ⟨s₂, hC₂, n, hn₂⟩ := hlead fun h => nomatch h
        have hcomputes : host.Computes function entry args closures outputs :=
          ⟨n, caller', s', hC.2, congrArg Prod.fst (hn₂ n le_rfl)⟩
        refine ⟨s₂, ⟨?_, hC₂.2⟩, n, hn₂⟩
        show host.FaithfulIfAny s₃.cache
        rw [hs₃]
        exact hC₂.1.insert hdet hnames hentry hsound hcomputes

end Executions

end Host

/-! ### Environments -/

namespace Environment

variable {C : Option MemoCache → Option MemoCache → Prop} {env env' : Environment}

/-- The run ends with the answer, a record of outputs or an error, when calls are followed deeply
enough. -/
def Returns (env : Environment) (run : String) (random : RandomSource) (p : Program)
    (inputs : Record Json) (answer : Except RunError (Record Json)) : Prop :=
  ∃ depth, (env.runWithin depth run random p inputs).outcome = answer.mapError .failed

private theorem session_leads {depth : Nat}
    (hn : Executor.Leads C (env.host.execute depth) env'.host.execute) (run run' : String)
    (p : Program) (inputs : Record Json) :
    Run.Leads C (env.session depth run p inputs) fun m => env'.session m run' p inputs := by
  unfold session
  simp only [Run.bind_eq, Run.pure_eq]
  refine (Run.leads_note _ _).andThen fun _ _ => ?_
  refine (Run.leads_emit _ _ _ _).andThen fun _ _ => ?_
  refine (Host.runProgram_leads hn p inputs mainCaller mainCaller).attempt.andThen
    fun answer _ => ?_
  cases answer with
  | ok outputs =>
    refine (Run.leads_note _ _).andThen fun _ _ => ?_
    exact (Run.leads_emit _ _ _ _).andThen fun _ _ => Run.leads_result outputs
  | error error =>
    refine (Run.leads_note _ _).andThen fun _ _ => ?_
    exact (Run.leads_emit _ _ _ _).andThen fun _ _ => Run.leads_halt (.failed error)

/-- An environment returns what the executions that it follows return. -/
theorem Returns.of_leads (hn : ∀ depth, Executor.Leads C (env.host.execute depth) env'.host.execute)
    (hC : C (env.cache.map MemoCache.clear) (env'.cache.map MemoCache.clear))
    {run run' : String} {random random' : RandomSource} {p : Program} {inputs : Record Json}
    {answer : Except RunError (Record Json)} (h : env.Returns run random p inputs answer) :
    env'.Returns run' random' p inputs answer := by
  obtain ⟨depth, h⟩ := h
  have hout : (env.session depth run p inputs
      ⟨env.cache.map MemoCache.clear, #[], #[], random⟩).1 = answer.mapError .failed := h
  have hne : answer.mapError Halt.failed ≠ .error .outOfDepth := by
    cases answer <;> exact fun h => nomatch h
  have hleads := session_leads (hn depth) run run' p inputs
    ⟨env.cache.map MemoCache.clear, #[], #[], random⟩
    ⟨env'.cache.map MemoCache.clear, #[], #[], random'⟩ hC
  rw [hout] at hleads
  obtain ⟨s₂, -, n, hn₂⟩ := hleads hne
  exact ⟨n, congrArg Prod.fst (hn₂ n le_rfl)⟩

private theorem faithful_start (host : Host) (env : Environment) :
    host.FaithfulIfAny (env.cache.map MemoCache.clear) := by
  intro c hc
  obtain ⟨cache, -, rfl⟩ := Option.map_eq_some_iff.1 hc
  exact Host.faithful_clear cache

/-- **Memoization is transparent**: two environments with the same functions and the same slack, of
which one has no cache and the other any, return the same records and the same errors. -/
theorem returns_iff_returns_cached {off on : Environment} (hcatalog : off.catalog = on.catalog)
    (hslack : off.config.budgetSlack = on.config.budgetSlack) (hoff : off.cache = none)
    (hdet : off.catalog.Deterministic) (hnames : off.catalog.Unmarked) (run run' : String)
    (random random' : RandomSource) (p : Program) (inputs : Record Json)
    (answer : Except RunError (Record Json)) :
    off.Returns run random p inputs answer ↔ on.Returns run' random' p inputs answer := by
  have hstart : off.cache.map MemoCache.clear = none := by rw [hoff]; rfl
  have hfaithful : off.host.FaithfulIfAny (on.cache.map MemoCache.clear) :=
    faithful_start off.host on
  constructor
  · refine Returns.of_leads (C := off.host.CachedAfter) (fun depth => ?_) ⟨hstart, hfaithful⟩
    exact Host.execute_leads hcatalog hslack
      (fun _ hn => Host.callsLead_cached hdet hnames hn) depth
  · refine Returns.of_leads (C := off.host.CachedBefore) (fun depth => ?_) ⟨hfaithful, hstart⟩
    exact Host.execute_leads hcatalog.symm hslack.symm
      (fun _ hn => Host.callsLead_uncached hcatalog hdet hnames hn) depth

end Environment

/-- Without `math.random`, the library draws no random numbers. -/
theorem Library.settled_deterministic : Library.settled.Deterministic := by
  intro name signature runner h args callbacks
  obtain ⟨f, hf, -, hne, hentry⟩ := Library.get?_settled h
  cases hentry
  exact Library.function_deterministic hf hne args callbacks

/-! ### The library with one more function -/

/-- The word for a flag. -/
def Program.wordOf : Program where
  input := [⟨"flag", ⟨"pick", "condition"⟩, .bool⟩]
  output := [⟨"word", ⟨"pick", "data"⟩, .string⟩]
  nodes := .ofList [
    ("pick", ⟨"ctrl.if", [], .ofList [("true", .string "yes"), ("false", .string "no")]⟩)]

/-- The words for all flags of an array: the body of the callback calls `word`. -/
def Program.wordsOf : Program where
  input := [⟨"flags", ⟨"map", "arr"⟩, .arrayOf .bool⟩]
  output := [⟨"words", ⟨"map", "arr"⟩, .arrayOf .string⟩]
  nodes := .ofList [
    ("map", ⟨"array.map", [⟨"body", "item", "flag"⟩], .empty⟩),
    ("body", ⟨"word", [⟨"map", "word", "callback"⟩], .empty⟩)]

namespace Environment

/-- An environment in which `Program.wordOf` is known as `word`. -/
def withWord (cache : Option CacheConfig) : Environment :=
  (do
    let env ← ofConfig Library.settled ⟨cache, 10, false⟩
    env.addFunction "word" .wordOf : Noted Environment).run' #[]

private theorem withWord_get? {cache : Option CacheConfig} {name : String} {entry : Entry}
    (h : (withWord cache).catalog.get? name = some entry) :
    (name = "word" ∧ entry = .ofProgram .wordOf) ∨ Library.settled.get? name = some entry := by
  have hregister : ((Library.settled.register "word" (.ofProgram .wordOf)).get? name) =
    some entry := h
  rw [Catalog.get?_register] at hregister
  split at hregister
  · exact .inl ⟨by assumption, (Option.some.inj hregister).symm⟩
  · exact .inr hregister

theorem withWord_deterministic (cache : Option CacheConfig) :
    (withWord cache).catalog.Deterministic := by
  intro name signature runner h args callbacks
  rcases withWord_get? h with ⟨-, hprogram⟩ | hlibrary
  · cases hprogram
  · exact Library.settled_deterministic name signature runner hlibrary args callbacks

private theorem withWord_unmarked (cache : Option CacheConfig) :
    (withWord cache).catalog.Unmarked := by
  intro name entry h
  have hlibrary : ∀ f ∈ Library.functions, MemoCache.Unmarked f.name := by decide +kernel
  rcases withWord_get? h with ⟨rfl, -⟩ | hsettled
  · decide
  · obtain ⟨f, hf, rfl, -⟩ := Library.get?_settled hsettled
    exact hlibrary f hf

/-- With room for one result, so that the results of the words push each other out, the words are
still the ones that come out without a cache. -/
theorem returns_iff_returns_cached_words :
    (withWord (some ⟨1, false⟩)).Returns "" default .wordsOf
      (.ofList [("flags", .array [.bool true, .bool false, .bool true])])
      (.ok (.ofList [("words", .array [.string "yes", .string "no", .string "yes"])])) := by
  have hoff : (withWord none).Returns "" default .wordsOf
      (.ofList [("flags", .array [.bool true, .bool false, .bool true])])
      (.ok (.ofList [("words", .array [.string "yes", .string "no", .string "yes"])])) :=
    ⟨3, by decide +kernel⟩
  have hcatalog : (withWord none).catalog = (withWord (some ⟨1, false⟩)).catalog := rfl
  exact (returns_iff_returns_cached hcatalog rfl rfl (withWord_deterministic none)
    (withWord_unmarked none) "" "" default default _ _ _).1 hoff

end Environment

end Dataflow

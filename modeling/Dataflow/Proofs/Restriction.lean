/-
Which functions a cache serves that is restricted to programs.

Adding a program allows its name, and nothing ever takes the permission back. So the names that are
served are those under which a program was added at some time, and a library function that is put in
the place of a program is served as the program was.

* `Host.Source` — where a stored result comes from;
* `Host.habit_traces` — executions store and serve results of allowed functions only;
* `Environment.Overridden` — a library function has taken the place of a program;
* `Environment.cacheable_iff_added` — after any history, which functions are served, and what is
  stored and served in a run;
* `Environment.served_library_function` — a library function among them.
-/
import Mathlib
import Dataflow.Proofs.Counters
import Dataflow.Proofs.Isolation
namespace Dataflow

/-! ### Where results come from -/

namespace Host

variable {host : Host} {p : Program} {frames : FrameQueue} {functions : String → Bool}
  {events events' : List Event} {key : String} {outputs : Outputs}

/-- The events tell of the firing, its function is one of those given, and the key is that of its
call, with its arguments and its callbacks. -/
def Turn.Asks (turn : host.Turn p frames) (caller : String) (functions : String → Bool)
    (events : List Event) (key : String) : Prop :=
  .nodeFired caller turn.id turn.node.function ∈ events ∧ functions turn.node.function = true ∧
    key = callKey turn.node.function turn.args turn.extraction.closures

/-- The key is that of a firing with one of the functions. -/
def Asked (host : Host) (functions : String → Bool) (events : List Event) (key : String) : Prop :=
  ∃ caller p frames, ∃ turn : host.Turn p frames, turn.Asks caller functions events key

/-- The key is that of a firing with one of the functions, and the result is one that its call has
returned. -/
def Source (host : Host) (functions : String → Bool) (events : List Event) (key : String)
    (outputs : Outputs) : Prop :=
  ∃ caller p frames, ∃ turn : host.Turn p frames, turn.Asks caller functions events key ∧
    ∃ depth s s', invoke (host.execute depth) turn.node.function turn.entry turn.args
      turn.extraction.closures caller s = (.ok outputs, s')

theorem Asked.mono (h : host.Asked functions events key) (hsubset : events ⊆ events') :
    host.Asked functions events' key := by
  obtain ⟨caller, p, frames, turn, hfired, hkey⟩ := h
  exact ⟨caller, p, frames, turn, hsubset hfired, hkey⟩

theorem Source.mono (h : host.Source functions events key outputs) (hsubset : events ⊆ events') :
    host.Source functions events' key outputs := by
  obtain ⟨caller, p, frames, turn, ⟨hfired, hkey⟩, hcall⟩ := h
  exact ⟨caller, p, frames, turn, ⟨hsubset hfired, hkey⟩, hcall⟩

/-- What was told accounts for the results that were served and stored. -/
structure Trail (host : Host) (c : MemoCache) (told : List Event) (c' : MemoCache) : Prop where
  isCacheable : c'.isCacheable = c.isCacheable
  served : ∀ key, .cacheHit key ∈ told → host.Asked c.isCacheable told key
  stored : ∀ key outputs, c'.entries.get? key = some outputs →
    c.entries.get? key = some outputs ∨ host.Source c.isCacheable told key outputs

namespace Trail

variable {c c' c'' : MemoCache} {told told' : List Event}

/-- Events that have nothing to do with the cache. -/
theorem of_no_hit (h : ∀ e ∈ told, e.isCacheHit = false) : host.Trail c told c where
  isCacheable := rfl
  served key hkey := absurd (h _ hkey) (by simp [Event.isCacheHit])
  stored _ _ h := .inl h

theorem trans (h : host.Trail c told c') (h' : host.Trail c' told' c'') :
    host.Trail c (told ++ told') c'' where
  isCacheable := h'.isCacheable.trans h.isCacheable
  served key hkey := by
    rcases List.mem_append.1 hkey with hkey | hkey
    · exact (h.served key hkey).mono (List.subset_append_left ..)
    · have hasked := h'.served key hkey
      rw [h.isCacheable] at hasked
      exact hasked.mono (List.subset_append_right ..)
  stored key outputs hget := by
    rcases h'.stored key outputs hget with hget | hsource
    · exact (h.stored key outputs hget).imp id fun hsource =>
        hsource.mono (List.subset_append_left ..)
    · rw [h.isCacheable] at hsource
      exact .inr (hsource.mono (List.subset_append_right ..))

/-- Counting changes nothing. -/
theorem of_eq {d : MemoCache} (h : host.Trail d told c')
    (hcacheable : d.isCacheable = c.isCacheable) (hentries : d.entries = c.entries) :
    host.Trail c told c' where
  isCacheable := h.isCacheable.trans hcacheable
  served key hkey := hcacheable ▸ h.served key hkey
  stored key outputs hget := by
    have hstored := h.stored key outputs hget
    rw [hcacheable, hentries] at hstored
    exact hstored

theorem insert (h : host.Trail c told c')
    (hsource : host.Source c.isCacheable told key outputs) :
    host.Trail c told (c'.insert key outputs) where
  isCacheable := h.isCacheable
  served := h.served
  stored key' outputs' hget := by
    rcases MemoCache.get?_insert hget with ⟨rfl, rfl⟩ | hget
    · exact .inr hsource
    · exact h.stored key' outputs' hget

end Trail

/-- Whatever was stored and served between two sessions was told in between. -/
def Traces (host : Host) (s s' : Session) : Prop :=
  ∀ c, s.cache = some c → ∃ told c', s'.cache = some c' ∧
    s'.events.toList = s.events.toList ++ told ∧ host.Trail c told c'

private theorem traces_of_eq {s s' : Session} (hcache : s'.cache = s.cache)
    (hevents : s'.events = s.events) : host.Traces s s' := by
  intro c hs
  refine ⟨[], c, hcache.trans hs, ?_, .of_no_hit (by simp)⟩
  rw [hevents, List.append_nil]

theorem Traces.trans {s s' s'' : Session} (h : host.Traces s s') (h' : host.Traces s' s'') :
    host.Traces s s'' := by
  intro c hs
  obtain ⟨told, c', hs', hevents, htrail⟩ := h c hs
  obtain ⟨told', c'', hs'', hevents', htrail'⟩ := h' c' hs'
  refine ⟨told ++ told', c'', hs'', ?_, htrail.trans htrail'⟩
  rw [hevents', hevents, List.append_assoc]

private theorem traces_closed (host : Host) :
    Run.Closed fun _ r => ∀ s : Session, host.Traces s (r s).2 :=
  .of_trans (fun _ => traces_of_eq rfl rfl) Traces.trans fun _ _ => traces_of_eq rfl rfl

private theorem traces_emit (observer : Observer) {e : Event} (hhit : e.isCacheHit = false)
    (s : Session) :
    host.Traces s (Run.emit observer e s).2 := by
  intro c hs
  refine ⟨[e], c, ?_, ?_, .of_no_hit (by simpa using hhit)⟩
  · rw [(Run.emit_outcome observer e s).2, hs]
  · rw [Run.emit_events, Array.toList_push]

/-- A firing and its call through the cache: what is served belongs to the call, and so does what is
stored afterwards. -/
theorem call_traces (turn : host.Turn p frames) (depth : Nat) {caller : String}
    (hinvoke : ∀ s, host.Traces s (invoke (host.execute depth) turn.node.function turn.entry
      turn.args turn.extraction.closures caller s).2) (s : Session) :
    host.Traces s
      (((Run.emit host.observer (.nodeFired caller turn.id turn.node.function)).andThen fun _ =>
        host.invokeCached (host.execute depth) turn.node.function turn.entry turn.args
          turn.extraction.closures caller) s).2 := by
  intro c hs
  obtain ⟨s₁, hcache, hevents, hcalled⟩ :=
    call_called host (host.execute depth) caller turn.id turn.node.function turn.entry turn.args
      turn.extraction.closures hs
  let fired : Event := .nodeFired caller turn.id turn.node.function
  have htold : ∀ told, s₁.events.toList ++ told = s.events.toList ++ ([fired] ++ told) := by
    intro told
    rw [hevents, List.append_assoc]
  have hfired : host.Trail c [fired] c := .of_no_hit (by simp [fired, Event.isCacheHit])
  cases hcalled with
  | past _ hcall =>
    obtain ⟨told, c', hcache', hevents', htrail⟩ := hinvoke s₁ c hcache
    rw [hcall] at hcache' hevents'
    exact ⟨_, c', hcache', hevents'.trans (htold told), hfired.trans htrail⟩
  | found hc _ hcache' hevents' =>
    refine ⟨_, _, hcache', hevents'.trans (htold _), rfl, ?_, fun _ _ hget => .inl hget⟩
    intro key hkey
    have hcall : key = callKey turn.node.function turn.args turn.extraction.closures := by
      simpa [fired] using hkey
    exact ⟨caller, p, frames, turn, by simp [fired], hc, hcall⟩
  | failed _ _ hcall =>
    obtain ⟨told, c', hcache', hevents', htrail⟩ :=
      hinvoke { s₁ with cache := some { c with misses := c.misses + 1 } } _ rfl
    rw [hcall] at hcache' hevents'
    exact ⟨_, c', hcache', hevents'.trans (htold told), hfired.trans (htrail.of_eq rfl rfl)⟩
  | kept hc _ hcall hkept hquiet =>
    obtain ⟨told, c', hcache', hevents', htrail⟩ :=
      hinvoke { s₁ with cache := some { c with misses := c.misses + 1 } } _ rfl
    rw [hcall] at hcache' hevents'
    rw [hcache'] at hkept
    rw [hquiet]
    refine ⟨_, _, hkept, hevents'.trans (htold told), ?_⟩
    refine (hfired.trans (htrail.of_eq rfl rfl)).insert ?_
    exact ⟨caller, p, frames, turn, ⟨by simp [fired], hc, rfl⟩, depth, _, _, hcall⟩

/-- **Executions store and serve results of the allowed functions only.** -/
theorem habit_traces (host : Host) :
    host.Habit (fun _ r => ∀ s, host.Traces s (r s).2) fun _ _ _ => True where
  toClosed := host.traces_closed
  native _ _ _ args callbacks answer hanswer := by
    refine Script.perform_closed host.traces_closed (fun s => ?_) hanswer _
    obtain ⟨x, source, hrandom⟩ := Run.random_eq s
    rw [hrandom]
    exact traces_of_eq rfl rfl
  call turn depth _ hinvoke := call_traces turn depth hinvoke
  stopped _ _ := traces_emit _ rfl
  exhausted _ _ := traces_emit _ rfl
  move _ _ := trivial
  callback _ _ _ _ _ _ _ _ := trivial
  program _ _ _ _ _ _ := trivial

end Host

namespace Environment

/-- What was told in a run accounts for what is in its cache. -/
theorem exists_trail {env : Environment} {cache : MemoCache} (hcache : env.cache = some cache)
    (depth : Nat) (run : String) (random : RandomSource) (p : Program) (inputs : Record Json) :
    let report := env.runWithin depth run random p inputs
    ∃ after, report.environment.cache = some after ∧
      env.host.Trail cache.clear report.events.toList after := by
  have hemit : ∀ {e : Event}, e.isCacheHit = false → ∀ s, env.host.Traces s _ :=
    Host.traces_emit env.observer
  have htraces := env.session_closed env.host.traces_closed
    (env.host.habit_traces.runProgram depth mainCaller p inputs fun _ _ => trivial)
    (hemit rfl) (fun _ => hemit rfl) (fun _ => hemit rfl) run
  obtain ⟨told, after, hafter, hevents, htrail⟩ :=
    htraces ⟨env.cache.map MemoCache.clear, #[], #[], random⟩ cache.clear (by rw [hcache]; rfl)
  refine ⟨after, hafter, ?_⟩
  have htold : (env.runWithin depth run random p inputs).events.toList = told := hevents
  rw [htold]
  exact htrail

/-! ### What is served after a history -/

/-- A program was added under the name. -/
def Added (history : List Operation) (name : String) : Prop :=
  ∃ p, .addFunction name p ∈ history

/-- After a program was added under the name, a library function was, and no program again. -/
def Overridden (history : List Operation) (name : String) : Prop :=
  ∃ before f after, history = before ++ .addNative f :: after ∧ f.name = name ∧
    Added before name ∧ ¬Added after name

private theorem added_concat {history : List Operation} {op : Operation} {name : String} :
    Added (history ++ [op]) name ↔ Added history name ∨ ∃ p, op = .addFunction name p := by
  simp only [Added, List.mem_append, List.mem_singleton, exists_or, eq_comm]

private theorem overridden_concat {history : List Operation} {op : Operation} {name : String} :
    Overridden (history ++ [op]) name ↔
      (∃ f, op = .addNative f ∧ f.name = name ∧ Added history name) ∨
        Overridden history name ∧ ∀ p, op ≠ .addFunction name p := by
  constructor
  · rintro ⟨before, f, after, hsplit, hname, hadded, hafter⟩
    rcases List.eq_nil_or_concat after with rfl | ⟨after, last, rfl⟩
    · obtain ⟨rfl, hlast⟩ := List.append_inj' hsplit rfl
      cases hlast
      exact .inl ⟨f, rfl, hname, hadded⟩
    · rw [List.concat_eq_append] at hsplit hafter
      have hsplit' : history ++ [op] = (before ++ .addNative f :: after) ++ [last] := by
        rw [hsplit, List.append_assoc, List.cons_append]
      obtain ⟨rfl, hlast⟩ := List.append_inj' hsplit' rfl
      cases hlast
      rw [added_concat, not_or] at hafter
      refine .inr ⟨⟨before, f, after, rfl, hname, hadded, hafter.1⟩, ?_⟩
      intro p hop
      exact hafter.2 ⟨p, hop⟩
  · rintro (⟨f, rfl, hname, hadded⟩ | ⟨⟨before, f, after, rfl, hname, hadded, hafter⟩, hop⟩)
    · exact ⟨history, f, [], rfl, hname, hadded, by simp [Added]⟩
    · refine ⟨before, f, after ++ [op], by simp, hname, hadded, ?_⟩
      rw [added_concat, not_or]
      exact ⟨hafter, fun ⟨p, h⟩ => hop p h⟩

theorem afterAll_concat (env : Environment) (history : List Operation) (op : Operation) :
    env.afterAll (history ++ [op]) = (env.afterAll history).after op := by
  rw [afterAll, List.foldl_append]
  rfl

private theorem get?_after_addFunction (env : Environment) (name other : String) (p : Program) :
    (env.after (.addFunction name p)).catalog.get? other =
      if other = name then some (.ofProgram p) else env.catalog.get? other :=
  Catalog.get?_register ..

private theorem get?_after_addNative (env : Environment) (f : Library.NativeFunction)
    (other : String) :
    (env.after (.addNative f)).catalog.get? other =
      if other = f.name then some (.native f.signature f.runner) else env.catalog.get? other :=
  Catalog.get?_register ..

/-- Where a program was added there is a function, and it is a program unless it was overridden. -/
theorem get?_afterAll_of_added (env : Environment) (history : List Operation) {name : String}
    (h : Added history name) :
    ∃ entry, (env.afterAll history).catalog.get? name = some entry ∧
      (entry.isProgram = false ↔ Overridden history name) := by
  -- The last operation decides if it registers the name, and otherwise those before do.
  induction history using List.reverseRecOn with
  | nil =>
    obtain ⟨p, hp⟩ := h
    cases hp
  | append_singleton history op ih =>
    rw [afterAll_concat]
    rw [added_concat] at h
    rw [overridden_concat]
    cases op with
    | addFunction other p =>
      rw [get?_after_addFunction]
      by_cases hname : name = other
      · subst hname
        exact ⟨_, if_pos rfl, by simp [Entry.ofProgram, Entry.isProgram]⟩
      · have hadded : Added history name := by simpa [Ne.symm hname] using h
        obtain ⟨entry, hget, hiff⟩ := ih hadded
        exact ⟨entry, by rw [if_neg hname, hget], by simp [hiff, Ne.symm hname]⟩
    | addNative f =>
      have hadded : Added history name := by simpa using h
      rw [get?_after_addNative]
      by_cases hname : name = f.name
      · exact ⟨_, if_pos hname, iff_of_true rfl (.inl ⟨f, rfl, hname.symm, hadded⟩)⟩
      · obtain ⟨entry, hget, hiff⟩ := ih hadded
        exact ⟨entry, by rw [if_neg hname, hget], by simp [hiff, Ne.symm hname]⟩
    | run depth run random q inputs =>
      have hadded : Added history name := by simpa using h
      obtain ⟨entry, hget, hiff⟩ := ih hadded
      exact ⟨entry, hget, by simp [hiff]⟩

/-- The names that are allowed after a history are those under which a program was added. -/
theorem exists_allowed {env : Environment} {cache : MemoCache} (hcache : env.cache = some cache)
    (hallowed : cache.allowed = some []) (history : List Operation) :
    ∃ after names, (env.afterAll history).cache = some after ∧ after.max = cache.max ∧
      after.allowed = some names ∧ ∀ name, name ∈ names ↔ Added history name := by
  induction history using List.reverseRecOn with
  | nil => exact ⟨cache, [], hcache, rfl, hallowed, by simp [Added]⟩
  | append_singleton history op ih =>
    obtain ⟨before, names, hbefore, hmax, hnames, hadded⟩ := ih
    simp only [afterAll_concat, added_concat]
    generalize env.afterAll history = env at hbefore
    cases op with
    | addFunction name p =>
      refine ⟨before.allow name, names.insert name, ?_, hmax, ?_, fun other => ?_⟩
      · exact congrArg (Option.map fun cache => cache.allow name) hbefore
      · exact congrArg (Option.map fun names => names.insert name) hnames
      · rw [List.mem_insert_iff, hadded, or_comm]
        simp [eq_comm]
    | addNative f => exact ⟨before, names, hbefore, hmax, hnames, by simp [hadded]⟩
    | run depth run random p inputs =>
      -- A run leaves the settings of its cache.
      have hfresh : (env.runWithin depth run random p inputs).environment.cache.map _ =
          env.cache.map MemoCache.clear :=
        congrArg Environment.cache (env.fresh_runWithin depth run random p inputs)
      rw [hbefore] at hfresh
      obtain ⟨after, hafter, hclear⟩ := Option.map_eq_some_iff.1 hfresh
      have hmax' : after.clear.max = before.clear.max := by rw [hclear]
      have hnames' : after.clear.allowed = before.clear.allowed := by rw [hclear]
      exact ⟨after, names, hafter, hmax'.trans hmax, hnames'.trans hnames, by simp [hadded]⟩

/-- **What a cache serves that is restricted to programs.** After any history of registrations and
runs, the functions that are served are those under whose name a program was added. Each of them is
a program unless a library function has taken its place since, and then the library function is
served. In every run, what is served was asked for by a node with one of these functions, and what
is stored was returned by the call of such a node. -/
theorem cacheable_iff_added (catalog : Catalog) (max slack : UInt64) (checkCatalog : Bool)
    (observer : Observer) (history : List Operation) :
    let env := (opened catalog ⟨some ⟨max, true⟩, slack, checkCatalog⟩ observer).afterAll history
    ∃ cache, env.cache = some cache ∧
      (∀ name, cache.isCacheable name = true ↔ 0 < max ∧ Added history name) ∧
      (∀ name, cache.isCacheable name = true → ∃ entry, env.catalog.get? name = some entry ∧
        (entry.isProgram = false ↔ Overridden history name)) ∧
      ∀ depth run random p inputs,
        let report := env.runWithin depth run random p inputs
        ∃ after, report.environment.cache = some after ∧
          (∀ key, .cacheHit key ∈ report.events.toList →
            env.host.Asked cache.isCacheable report.events.toList key) ∧
          ∀ key outputs, after.entries.get? key = some outputs →
            env.host.Source cache.isCacheable report.events.toList key outputs := by
  intro env
  obtain ⟨cache, names, hcache, hmax, hnames, hadded⟩ :=
    exists_allowed (cache_opened catalog ⟨some ⟨max, true⟩, slack, checkCatalog⟩ observer) rfl
      history
  have hcacheable : ∀ name, cache.isCacheable name = true ↔ 0 < max ∧ Added history name := by
    intro name
    rw [MemoCache.isCacheable, hnames, hmax]
    simp [hadded, MemoCache.ofConfig]
  refine ⟨cache, hcache, hcacheable, ?_, ?_⟩
  · intro name hname
    exact get?_afterAll_of_added _ history ((hcacheable name).1 hname).2
  · intro depth run random p inputs report
    obtain ⟨after, hafter, htrail⟩ := exists_trail hcache depth run random p inputs
    refine ⟨after, hafter, htrail.served, ?_⟩
    intro key outputs hget
    -- The cache was empty when the run began.
    rcases htrail.stored key outputs hget with hempty | hsource
    · cases hempty
    · exact hsource

end Environment

/-- The words for one flag, asked for twice. -/
def Program.wordTwice : Program where
  input := [⟨"flag", ⟨"first", "condition"⟩, .bool⟩, ⟨"flag", ⟨"second", "condition"⟩, .bool⟩]
  output := [⟨"first", ⟨"first", "data"⟩, .string⟩, ⟨"second", ⟨"second", "data"⟩, .string⟩]
  nodes := .ofList [
    ("first", ⟨"word", [], .ofList [("true", .string "yes"), ("false", .string "no")]⟩),
    ("second", ⟨"word", [], .ofList [("true", .string "yes"), ("false", .string "no")]⟩)]

namespace Environment

/-- `word` is added as a program, and then the library's choice between two values is put in its
place. The second of two equal calls is served what the library function has returned for the
first. -/
theorem served_library_function :
    let env := (opened Library.settled ⟨some ⟨10, true⟩, 10, false⟩ fun _ => none).afterAll
      [.addFunction "word" .wordOf, .addNative { Library.ctrlIf with name := "word" }]
    let report := env.runWithin 1 "" default .wordTwice (.ofList [("flag", .bool true)])
    (∃ cache, env.cache = some cache ∧ cache.isCacheable "word" = true) ∧
      env.catalog.get? "word" = some (.native Library.ctrlIf.signature Library.ctrlIf.runner) ∧
      report.outcome = .ok (.ofList [("first", .string "yes"), ("second", .string "yes")]) ∧
      report.environment.cacheStats = some ⟨1, 10, 1, 1⟩ := by
  intro env report
  refine ⟨⟨_, rfl, by decide⟩, Record.get?_insert_self .., ?_⟩
  decide +kernel

end Environment

end Dataflow

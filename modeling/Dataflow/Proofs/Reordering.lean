/-
The order in which nodes are written.

The order of the nodes of a program decides in which order its heads stand in line, and with that
the order in which nodes fire. It does not decide about the values. Two runs that both succeed have
the same outputs, if every input has one source, the nodes of callback bodies do not run on their
own, and there are steps for a round of the line for each node.

It can decide whether a run succeeds: a run ends when all outputs are there, be it before a call
that fails or after it, and a callback may be called before or after a value arrives in its body.

* `Host.execute_similar` — once the first frames are there, the order plays no part;
* `Program.Similar.firstFrames` — in any order the first frames are the same, up to their order;
* `Host.execute_of_incomplete` — without callbacks, a run that waits for a missing output tries
  everything that any run tries;
* `Environment.run_reordered` — top-level runs.
-/
import Mathlib
import Dataflow.Proofs.Confluence
import Dataflow.Proofs.Crash
import Dataflow.Proofs.Memoization
namespace Dataflow

/-! ### Programs in another order -/

namespace Program

variable {p q : Program} {c : Catalog} {inputs : Record Json} {ids : List String}

/-- The program with its nodes written in the given order. -/
def inOrder (p : Program) (ids : List String) : Program where
  input := p.input
  output := p.output
  nodes := .ofList (ids.filterMap fun id => (p.node? id).map fun node => (id, node))

private theorem similar_inOrder (h : ids.Perm p.ids) : p.Similar (p.inOrder ids) := by
  refine ⟨rfl, rfl, fun id => ?_⟩
  rw [show (p.inOrder ids).node? id = if id ∈ ids then p.node? id else none from
    Table.get?_ofList_filterMap p.node? ids id]
  by_cases hid : id ∈ ids
  · rw [if_pos hid]
  · rw [if_neg hid]
    by_contra hsome
    obtain ⟨node, hnode⟩ := Option.ne_none_iff_exists'.1 hsome
    exact hid (h.mem_iff.2 (Table.mem_names.2 ⟨node, hnode⟩))

theorem Similar.mem_heads (h : p.Similar q) {id : String} : id ∈ p.heads ↔ id ∈ q.heads := by
  have hids : id ∈ p.ids ↔ id ∈ q.ids := (h.perm.map _).mem_iff
  have htarget : p.isTarget id = q.isTarget id := by
    rw [isTarget, isTarget, h.perm.any_eq]
  rw [heads, heads, List.mem_filter, List.mem_filter, hids, htarget]

/-- Programs that differ in the order of their nodes have the same first frames, in some order. -/
theorem Similar.firstFrames (h : p.Similar q) {frames : FrameQueue}
    (hframes : p.firstFrames inputs = .ok frames) :
    ∃ frames', q.firstFrames inputs = .ok frames' ∧ ∀ id, frames.get? id = frames'.get? id := by
  obtain ⟨hinputs, rfl⟩ := firstFrames_eq_ok hframes
  obtain ⟨frames', hframes'⟩ := exists_firstFrames (h.input ▸ hinputs)
  refine ⟨frames', hframes', fun id => ?_⟩
  obtain ⟨-, rfl⟩ := firstFrames_eq_ok hframes'
  rw [FrameQueue.get?_ensureAll, FrameQueue.get?_ensureAll, h.input]
  simp only [h.mem_heads]

/-- Without an input, no program starts, in whichever order its nodes are written. -/
theorem Similar.firstFrames_error (h : p.Similar q) {error : RunError}
    (herror : p.firstFrames inputs = .error error) : q.firstFrames inputs = .error error := by
  rw [Program.firstFrames] at herror ⊢
  rw [← h.input]
  rcases Except.bind_eq_error herror with hfold | ⟨frames, -, hdone⟩
  · rw [hfold]
    rfl
  · cases hdone

/-- Frames in another order can be followed as well. -/
theorem Wired.of_get? {start start' : FrameQueue} (h : p.Wired c start) (hsound : start'.Sound)
    (hsame : ∀ id, start.get? id = start'.get? id) : p.Wired c start' := by
  have hgathered : ∀ id key, start'.gathered id key = start.gathered id key := by
    intro id key
    rw [FrameQueue.gathered, FrameQueue.gathered, hsame]
  refine ⟨h.known, h.separate, h.edges, h.alone, ?_, ?_, hsound, h.nested⟩
  · intro id node entry hcalls key hkey e he
    rw [hgathered]
    exact h.fed hcalls hkey he
  · intro id node entry hcalls key hkey hsome
    rw [hgathered] at hsome
    exact h.given hcalls hkey hsome

/-- A clean program without data cycles and with distinct outputs, in which every declared input of
every node has exactly one source. Functions may take callbacks. -/
structure Orderly (p : Program) (c : Catalog) : Prop where
  clean : p.validate c = []
  acyclic : p.cycles c = []
  distinct : p.outputNames.Nodup
  single : ∀ {id node entry}, p.Calls c id node entry → ∀ key ∈ entry.signature.inputNames,
    p.sourceCount id node key = 1

private theorem orderly_iff : p.Orderly c ↔
    p.validate c = [] ∧ p.cycles c = [] ∧ p.outputNames.Nodup ∧
      ∀ x ∈ p.nodes.entries, ∀ entry ∈ c.get? x.2.function,
        ∀ key ∈ entry.signature.inputNames, p.sourceCount x.1 x.2 key = 1 := by
  constructor
  · intro h
    exact ⟨h.clean, h.acyclic, h.distinct,
      fun x hx entry hentry => h.single ⟨Table.mem_entries.1 hx, hentry⟩⟩
  · rintro ⟨hclean, hacyclic, hdistinct, hsingle⟩
    exact ⟨hclean, hacyclic, hdistinct, fun hcalls =>
      hsingle _ (Table.mem_entries.2 hcalls.node_eq) _ hcalls.entry_eq⟩

instance (p : Program) (c : Catalog) : Decidable (p.Orderly c) := decidable_of_iff' _ orderly_iff

end Program

/-! ### Executions -/

namespace Host

variable {host : Host} {nested : Executor} {p q : Program} {start start' : FrameQueue}
  {s s' : Session}

private theorem process_similar (h : p.Similar q) (caller id : String) (frame : Frame)
    (frames : FrameQueue) (outputs : Record Json) :
    host.process nested caller p id frame frames outputs =
      host.process nested caller q id frame frames outputs := by
  have hrecord : ∀ given outputs, p.recordOutputs id given outputs =
      q.recordOutputs id given outputs := by
    intro given outputs
    rw [Program.recordOutputs, Program.recordOutputs, Program.outputsOf, Program.outputsOf,
      h.output]
  have hcomplete : ∀ outputs, p.isComplete outputs = q.isComplete outputs := by
    intro outputs
    rw [Program.isComplete, Program.isComplete, Program.outputNames, Program.outputNames, h.output]
  simp only [process, fire, h.node?, Callback.extract_similar h, hrecord, hcomplete]

private theorem drain_similar (h : p.Similar q) (caller : String) (steps : Nat)
    (frames : FrameQueue) (outputs : Record Json) :
    host.drain nested caller p steps frames outputs =
      host.drain nested caller q steps frames outputs := by
  induction steps generalizing frames outputs with
  | zero => rfl
  | succ steps ih => simp only [drain, process_similar h, ih]

/-- Once the first frames are there, the order of the nodes plays no part. -/
theorem execute_similar (h : p.Similar q) (depth : Nat) (caller : String) (frames : FrameQueue) :
    host.execute depth caller p frames = host.execute depth caller q frames := by
  cases depth with
  | zero => rfl
  | succ depth =>
    have hsteps : p.steps host.slack = q.steps host.slack := by
      rw [Program.steps, Program.steps, h.size_eq]
    show host.drain _ caller p (p.steps host.slack) frames .empty = _
    rw [hsteps, drain_similar h]
    rfl

/-- A call without callbacks that has succeeded once succeeds whenever it has an answer. -/
theorem Gives.outcome_eq (hdet : host.catalog.Deterministic) {depth : Nat} {id caller : String}
    {node : Node} {entry : Entry} {frame frame' : Frame} {rest rest' : FrameQueue}
    {given : Outputs} (hgives : host.Gives (host.execute depth) p id node entry frame rest given)
    (hcalls : p.Calls host.catalog id node entry) (hplain : entry.signature.callbacks = .empty)
    (hargs : node.arguments entry.signature frame' = node.arguments entry.signature frame)
    {extraction : Extraction}
    (hextract : Callback.extract p id entry.signature rest' = .ok extraction) (hs : s.cache = none)
    (hanswer : (host.invokeCached (host.execute depth) node.function entry
      (node.arguments entry.signature frame') extraction.closures caller s).1 ≠
        .error .outOfDepth) :
    (host.invokeCached (host.execute depth) node.function entry
      (node.arguments entry.signature frame') extraction.closures caller s).1 = .ok given := by
  obtain ⟨extraction₀, caller₀, s₀, s₁, hextract₀, hs₀, hcall⟩ := hgives
  cases (Callback.extract_of_plain hplain p id rest).symm.trans hextract₀
  cases (Callback.extract_of_plain hplain p id rest').symm.trans hextract
  rw [invokeCached_of_none (by rw [hs₀]; rfl)] at hcall
  rw [invokeCached_of_none (by rw [hs]; rfl)] at hanswer ⊢
  have hcomputes : host.Computes node.function entry (node.arguments entry.signature frame') .empty
      given := ⟨depth, caller₀, s₀, hs₀, by rw [hargs, hcall]⟩
  have hsound : Closure.AllSound .empty := fun name closure hclosure => nomatch hclosure
  exact (hcomputes.outcome_eq hdet hcalls.entry_eq hsound hs hanswer).1

/-- What is ready in one run has fired in any other in which nothing is ready any more. -/
theorem Account.fired_of_ready {results results' : String → Option Outputs}
    {frames frames' : FrameQueue} {outputs outputs' : Record Json}
    (ha' : host.Account nested p start' results' frames' outputs')
    (ha : host.Account nested p start results frames outputs) (h' : p.Wired host.catalog start')
    (h : p.Wired host.catalog start) (hsame : ∀ id, start'.get? id = start.get? id)
    (hc : Program.Concur results' results)
    (hdone : ∀ id, results id = none → ¬ p.Ready host.catalog frames id) {id : String}
    (hready : p.Ready host.catalog frames' id) : ∃ given, results id = some given := by
  refine Option.ne_none_iff_exists'.1 fun hunfired => hdone id hunfired ?_
  have hincluded := ha'.schedule.included h' h hsame hc ha.toWave hdone
  have hunfired' : results' id = none := Option.not_isSome_iff_eq_none.1 fun hsome => by
    have hfired := hincluded id hsome
    rw [hunfired] at hfired
    cases hfired
  exact hc.ready h' h hsame hincluded ha'.toWave ha.toWave hunfired' hunfired hready

/-- **Without callbacks, a run that waits for a missing output tries everything that any run
tries.** So if it succeeds, all runs do. -/
theorem execute_of_incomplete (hasks : host.catalog.Asks) (hdet : host.catalog.Deterministic)
    (hplain : ∀ {id node entry}, p.Calls host.catalog id node entry →
      entry.signature.callbacks = .empty) {depth : Nat} {caller caller' : String}
    (h : p.Wired host.catalog start) (h' : p.Wired host.catalog start')
    (hsame : ∀ id, start'.get? id = start.get? id)
    (hstarted : ∀ id ∈ start.order, (p.node? id).isSome) (hd : p.outputNames.Nodup)
    (hsteps : p.size * p.size ≤ p.steps host.slack)
    (hs : s.cache = none) (hs' : s'.cache = none) {record : Record Json}
    (hrecord : (host.execute depth caller p start s).1 = .ok record)
    (hincomplete : p.isComplete record = false)
    (hanswer : (host.execute depth caller' p start' s').1 ≠ .error .outOfDepth) :
    ∃ record', (host.execute depth caller' p start' s').1 = .ok record' := by
  cases depth with
  | zero => cases hrecord
  | succ depth =>
    rcases hfinal : (host.execute (depth + 1) caller' p start' s').1 with halt | record'
    swap
    · exact ⟨record', rfl⟩
    exfalso
    have hn : (host.execute depth).Agrees host.catalog := execute_agrees hasks depth
    have hscoped : p.Scoped host.catalog := Program.scoped_of_plain hplain
    obtain ⟨results, frames, ha, hend⟩ := execute_account hasks hn hscoped h hd hs hrecord
    have hdone := (hend hstarted hsteps).resolve_left
      (by rw [hincomplete]; exact Bool.false_ne_true)
    obtain ⟨results', frames', outputs', ha', id, frame, rest, s₁, firing, s₂, hpop, hs₁,
      hprocessed⟩ := execute_failure hasks hn hscoped h' hd hs' hfinal
    have hstart : p.Compatible host.catalog start' start := Program.compatible_of_get? hsame
    have hc := ha'.schedule.concur hasks (execute_steady host depth) hn hscoped h' h hstart
      ha.schedule
    generalize hresult : (Except.error halt, s₂) = result at hprocessed
    cases hprocessed with
    | dropped | deferred | fired => cases hresult
    | unknown hnode hentry =>
      obtain ⟨entry, hcalls⟩ := h.known hnode
      cases hentry.symm.trans hcalls.entry_eq
    | @unwired node entry error hnode hentry _ hextract =>
      have hempty : entry.signature.callbacks = .empty := hplain ⟨hnode, hentry⟩
      cases (Callback.extract_of_plain hempty p id rest).symm.trans hextract
    | @failed node entry extraction _ s₃ s₄ hnode hentry hready hextract hquiet hcall =>
      cases hresult
      obtain ⟨-, hframe, -⟩ := FrameQueue.pop?_eq_some ha'.sound hpop
      have hf := ha'.toWave.firable h' hframe ⟨hnode, hentry⟩ hready
      -- Nothing is ready any more in the run that has succeeded, so the node has fired there.
      obtain ⟨given, hgiven⟩ := ha'.fired_of_ready ha h' h hsame hc hdone
        ⟨node, entry, frame, hf.calls, hframe, hready⟩
      -- It had the same arguments there, so the call that fails here has succeeded.
      obtain ⟨node', entry', frame₀, rest₀, hl, hgives⟩ := ha.schedule.launch h hgiven
      obtain ⟨rfl, rfl⟩ := hf.calls.unique hl.calls
      have hargs := (ha'.toWave.launch h' hpop hf hready).arguments_eq hl h' h hstart hc
      have hok := hgives.outcome_eq hdet hf.calls (hplain hf.calls) hargs hextract
        (hquiet.cache.trans hs₁) (by rw [hcall]; rintro ⟨⟩; exact hanswer hfinal)
      rw [hcall] at hok
      cases hok

end Host

/-! ### The library -/

namespace Library

/-- No function of the library hands an output to a callback. -/
theorem function_separate {f : NativeFunction} (hf : f ∈ functions) : f.signature.Separate := by
  have hall : ∀ f ∈ functions,
      (∀ key ∈ f.signature.outputNames, f.signature.hasCallbackInput key = false) ∧
        ∀ callback ∈ f.signature.bodies, (Param.names callback.output).Nodup := by decide +kernel
  exact ⟨(hall f hf).1, (hall f hf).2⟩

private theorem settled_separate {p : Program} {id : String} {node : Node} {entry : Entry}
    (h : p.Calls settled id node entry) : entry.signature.Separate := by
  obtain ⟨f, hf, -, -, rfl⟩ := get?_settled h.entry_eq
  exact function_separate hf

private theorem settled_asks : settled.Asks := by
  intro name entry h
  obtain ⟨f, hf, -, hne, rfl⟩ := get?_settled h
  exact ⟨f.signature, f.runner, rfl, function_asking hf hne⟩

/-- The functions of the library are no programs, so only callbacks need depth. -/
theorem settlesBy {host : Host} (h : host.catalog = settled) (p : Program) :
    host.SettlesBy (0 + p.size + 1) p := by
  refine Host.settlesBy_of_programs fun q hq => ?_
  obtain ⟨id, node, entry, -, hentry, hq⟩ := Catalog.mem_programsIn.1 hq
  rw [h] at hentry
  obtain ⟨f, -, -, -, rfl⟩ := get?_settled hentry
  cases hq

end Library

/-! ### Top-level runs -/

/-- An answer is not the lack of one. -/
theorem Environment.answer_ne_outOfDepth {α : Type} (answer : Except RunError α) :
    answer.mapError Halt.failed ≠ .error .outOfDepth := by
  cases answer <;> exact fun h => nomatch h

/-- The run has an answer, or it crashes where a text is repeated that becomes too long. -/
def RunReport.Ends (host : Host) (report : RunReport) : Prop :=
  (∃ answer : Except RunError (Record Json), report.outcome = answer.mapError .failed) ∨
    report.outcome = .error .crashed ∧ ∃ caller p frames, ∃ turn : host.Turn p frames,
      .nodeFired caller turn.id "str.repeat" ∈ report.events.toList ∧
      turn.node.function = "str.repeat" ∧ Library.Overlong turn.args

private theorem RunReport.Ends.ne_outOfDepth {host : Host} {report : RunReport}
    (h : report.Ends host) : report.outcome ≠ .error .outOfDepth := by
  rcases h with ⟨answer, hanswer⟩ | ⟨hcrash, -⟩
  · rw [hanswer]
    exact Environment.answer_ne_outOfDepth answer
  · rw [hcrash]
    exact fun h => nomatch h

namespace Environment

/-- A top-level run ends as its program does. -/
theorem session_outcome (env : Environment) (depth : Nat) (run : String) (p : Program)
    (inputs : Record Json) (s : Session) : ∃ s', s.Quiet s' ∧
      (env.session depth run p inputs s).1 =
        (Host.runProgram (env.host.execute depth) p inputs mainCaller s').1 := by
  have hquiet := (Session.Quiet.note (.runStarted run p.size) s).trans
    (.emit env.observer .runStarted _)
  refine ⟨_, hquiet, ?_⟩
  rw [session, Run.bind_eq, Run.andThen_of_ok (Run.note_eq ..), Run.bind_eq,
    Run.andThen_of_ok (Run.emit_eq ..), Run.bind_eq]
  rcases hrun : Host.runProgram (env.host.execute depth) p inputs mainCaller
    (Run.emit env.observer .runStarted (Run.note (.runStarted run p.size) s).2).2 with
    ⟨(error | _ | _) | outputs, s₁⟩
  · rw [Run.andThen_of_ok (Run.attempt_of_failed hrun)]
    simp only [Run.bind_eq]
    rw [Run.andThen_of_ok (Run.note_eq ..), Run.andThen_of_ok (Run.emit_eq ..)]
    rfl
  · rw [Run.andThen_of_error (Run.attempt_of_crashed hrun)]
  · rw [Run.andThen_of_error (Run.attempt_of_outOfDepth hrun)]
  · rw [Run.andThen_of_ok (Run.attempt_of_ok hrun)]
    simp only [Run.bind_eq]
    rw [Run.andThen_of_ok (Run.note_eq ..), Run.andThen_of_ok (Run.emit_eq ..)]
    rfl

/-- The outcome of a top-level run is that of its program. -/
theorem run_outcome {env : Environment} (huncached : env.cache = none) (run : String)
    (random : RandomSource) (p : Program) (inputs : Record Json) :
    ∃ s : Session, s.cache = none ∧ (env.run run random p inputs).outcome =
      (Host.runProgram (env.host.execute depthLimit) p inputs mainCaller s).1 := by
  obtain ⟨s, hs, hprogram⟩ := session_outcome env depthLimit run p inputs
    ⟨env.cache.map MemoCache.clear, #[], #[], random⟩
  refine ⟨s, hs.cache.trans ?_, hprogram⟩
  show env.cache.map MemoCache.clear = none
  rw [huncached]
  rfl

/-- A top-level run over the library ends. -/
theorem run_ends {env : Environment} {p : Program} (hlibrary : env.catalog = Library.settled)
    (hsize : p.size < depthLimit) (run : String) (random : RandomSource) (inputs : Record Json) :
    (env.run run random p inputs).Ends env.host := by
  have hsettles : env.host.SettlesBy depthLimit p :=
    (Library.settlesBy hlibrary p).mono (by omega)
  refine ((session_settles hsettles run inputs).ended _).imp_right fun hcrash => ⟨hcrash, ?_⟩
  obtain ⟨caller, q, frames, turn, hfired, hcan⟩ := runWithin_crashed hcrash
  obtain ⟨hfunction, hlong⟩ := hcan.overlong hlibrary
  exact ⟨caller, q, frames, turn, hfunction ▸ hfired, hfunction, hlong⟩

/-- The same program in two orders, over the library without `math.random` and without a cache. The
slack is at least the square of the number of nodes. -/
structure Reorders (env : Environment) (p q : Program) : Prop where
  library : env.catalog = Library.settled
  uncached : env.cache = none
  orderly : p.Orderly env.catalog
  similar : p.Similar q
  slack : p.size * p.size ≤ env.config.budgetSlack.toNat

/-- The slack bounds the number of nodes, and with it the depth that callbacks need. -/
theorem Reorders.size_lt {env : Environment} {p q : Program} (h : env.Reorders p q) :
    p.size < depthLimit := by
  by_contra hlarge
  have hle : 2 ^ 32 ≤ p.size := Nat.not_lt.1 hlarge
  have hsquare : 2 ^ 32 * 2 ^ 32 ≤ p.size * p.size := Nat.mul_le_mul hle hle
  have hslack := h.slack
  have hbound := env.config.budgetSlack.toNat_lt
  omega

/-- There are steps for a round of the line for each node. -/
theorem Reorders.le_steps {env : Environment} {p q : Program} (h : env.Reorders p q)
    (hroom : p.size + env.config.budgetSlack.toNat < 2 ^ 64) :
    p.size * p.size ≤ p.steps env.host.slack := by
  have hbound : p.steps env.host.slack = p.size + env.config.budgetSlack.toNat - 1 :=
    Host.steps_of_lt hroom
  have hslack := h.slack
  rcases Nat.eq_zero_or_pos p.size with hzero | hpos
  · rw [hzero]
    exact Nat.zero_le _
  · omega

/-- **The order in which nodes are written does not decide about the outputs.** A clean program has
no data cycle and distinct output names, every declared input of its nodes has exactly one source,
and the nodes of its callback bodies do not run on their own. It is run over the library without
`math.random`, without a cache and with a slack of at least the square of its number of nodes, with
which the step budget does not overflow. Then the program and any program with the same nodes in
another order both end, with a record or an error, or where a text becomes too long. If both end
with records, they are the same. If an input is missing, both end with the same error. If no
function takes callbacks and one ends with a record that lacks an output, so does the other. -/
theorem run_reordered {env : Environment} {p q : Program} (h : env.Reorders p q)
    (hscoped : p.Scoped env.catalog) (hroom : p.size + env.config.budgetSlack.toNat < 2 ^ 64)
    (inputs : Record Json) (run run' : String) (random random' : RandomSource) :
    let report := env.run run random p inputs
    let report' := env.run run' random' q inputs
    (report.Ends env.host ∧ report'.Ends env.host) ∧
      (∀ x y, report.outcome = .ok x → report'.outcome = .ok y → x = y) ∧
      ((∃ binding ∈ p.input, inputs.contains binding.name = false) →
        ∃ error, report.outcome = .error (.failed error) ∧
          report'.outcome = .error (.failed error)) ∧
      ((∀ id node entry, p.Calls env.catalog id node entry → entry.signature.callbacks = .empty) →
        ∀ x, report.outcome = .ok x ∨ report'.outcome = .ok x → p.isComplete x = false →
          report.outcome = .ok x ∧ report'.outcome = .ok x) := by
  intro report report'
  have hcatalog := h.library
  have hpq := h.similar
  have hends : report.Ends env.host := run_ends hcatalog h.size_lt run random inputs
  have hends' : report'.Ends env.host :=
    run_ends hcatalog (hpq.size_eq ▸ h.size_lt) run' random' inputs
  obtain ⟨s, hs, ha⟩ := run_outcome h.uncached run random p inputs
  obtain ⟨s', hs', hb⟩ := run_outcome h.uncached run' random' q inputs
  refine ⟨⟨hends, hends'⟩, ?_⟩
  -- An input that is missing is missed by both programs before anything fires.
  cases hframes : p.firstFrames inputs with
  | error error =>
    rw [Host.runProgram_of_error hframes] at ha
    rw [Host.runProgram_of_error (hpq.firstFrames_error hframes)] at hb
    refine ⟨fun x y hx => ?_, fun _ => ⟨error, ha, hb⟩, fun _ x hx => ?_⟩
    · cases ha.symm.trans hx
    · rcases hx with hx | hx
      · cases ha.symm.trans hx
      · cases hb.symm.trans hx
  | ok frames =>
    obtain ⟨frames', hframes', hsame⟩ := hpq.firstFrames hframes
    rw [Host.runProgram_of_ok hframes] at ha
    rw [Host.runProgram_of_ok hframes', ← Host.execute_similar hpq] at hb
    have hvalid := Program.valid_of_validate h.orderly.clean
    have hwired : p.Wired env.catalog frames :=
      hvalid.wired (fun hcalls => Library.settled_separate (hcatalog ▸ hcalls)) h.orderly.single
        hscoped.nested hframes
    -- The two runs are now runs of one program, from frames that differ only in their order.
    have hwired' := hwired.of_get? (Program.firstFrames_sound hframes') hsame
    have hasks : env.catalog.Asks := hcatalog ▸ Library.settled_asks
    have hdet : env.catalog.Deterministic := hcatalog ▸ Library.settled_deterministic
    have hstarted : ∀ id ∈ frames.order, (p.node? id).isSome := fun id => hvalid.started hframes
    have hstarted' : ∀ id ∈ frames'.order, (p.node? id).isSome := fun id hid => by
      rw [hwired'.sound.mem_order, ← hsame, ← hwired.sound.mem_order] at hid
      exact hstarted id hid
    have hsteps : p.size * p.size ≤ p.steps env.host.slack := h.le_steps hroom
    have hequal : ∀ x y, report.outcome = .ok x → report'.outcome = .ok y → x = y :=
      fun x y hx hy => Host.execute_confluent hasks hwired hwired' hsame hstarted hscoped
        h.orderly.distinct hsteps hs hs' (ha.symm.trans hx) (hb.symm.trans hy)
    refine ⟨hequal, ?_, fun hplain x hx hincomplete => ?_⟩
    · rintro ⟨binding, hbinding, hmissing⟩
      rw [(Program.firstFrames_eq_ok hframes).1 binding hbinding] at hmissing
      cases hmissing
    rcases hx with hx | hx
    · obtain ⟨y, hy⟩ := Host.execute_of_incomplete hasks hdet (hplain _ _ _) hwired hwired'
        (fun id => (hsame id).symm) hstarted h.orderly.distinct hsteps hs hs' (ha.symm.trans hx)
        hincomplete (hb ▸ hends'.ne_outOfDepth)
      have hby : report'.outcome = .ok y := hb.trans hy
      exact ⟨hx, hequal x y hx hby ▸ hby⟩
    · obtain ⟨y, hy⟩ := Host.execute_of_incomplete hasks hdet (hplain _ _ _) hwired' hwired
        hsame hstarted' h.orderly.distinct hsteps hs' hs (hb.symm.trans hx) hincomplete
        (ha ▸ hends.ne_outOfDepth)
      have hay : report.outcome = .ok y := ha.trans hy
      exact ⟨hequal y x hay hx ▸ hay, hx⟩

end Environment

/-! ### Examples -/

namespace Program

/-- A node that chooses between two values. -/
def choice (next : List Edge) (defaults : List (String × Json)) : Node :=
  ⟨"ctrl.if", next, .ofList defaults⟩

/-- A choice that needs no inputs. -/
def free : Node :=
  choice [] [("condition", .bool true), ("true", .bool true), ("false", .bool false)]

/-- A choice beside two calls that fail. -/
def rivals : Program where
  input := []
  output := [⟨"out", ⟨"pick", "data"⟩, .bool⟩]
  nodes := .ofList [
    ("pick", free),
    ("glue", ⟨"str.join", [], .ofList [("sep", .bool true), ("arr", .array [])]⟩),
    ("join", ⟨"str.join", [], .ofList [("sep", .string ""), ("arr", .bool true)]⟩)]

/-- Three choices with an output for each. -/
def trio : Program where
  input := []
  output := ["a", "b", "c"].map fun id => ⟨id, ⟨id, "data"⟩, .bool⟩
  nodes := .ofList [("a", free), ("b", free), ("c", free)]

/-- An array is mapped by a choice whose value for `true` comes from outside of the body, at the end
of the given nodes. -/
def capturing (captured : List (String × Node)) : Program where
  input := []
  output := [⟨"out", ⟨"map", "arr"⟩, .arrayOf .bool⟩, ⟨"inner", ⟨"body", "data"⟩, .bool⟩]
  nodes := .ofList ([
    ("items", choice [⟨"map", "data", "arr"⟩]
      [("condition", .bool true), ("true", .array [.bool true]), ("false", .array [])])] ++
    captured ++ [
    ("map", ⟨"array.map", [⟨"body", "item", "condition"⟩], .empty⟩),
    ("body", choice [⟨"map", "data", "callback"⟩] [("false", .bool false)])])

/-- The body gets its value from a head. -/
def soon : List (String × Node) := [
  ("late", choice [⟨"body", "data", "true"⟩]
    [("condition", .bool true), ("true", .bool true), ("false", .bool false)])]

/-- The body gets its value one step later. -/
def later : List (String × Node) := [
  ("early", choice [⟨"late", "data", "condition"⟩]
    [("condition", .bool true), ("true", .bool true), ("false", .bool false)]),
  ("late", choice [⟨"body", "data", "true"⟩] [("true", .bool true), ("false", .bool false)])]

/-- Two arrays are mapped by the same body, so that each call site lies in the body of the other. -/
def sharing : Program where
  input := []
  output := [
    ⟨"first", ⟨"first", "arr"⟩, .arrayOf .bool⟩,
    ⟨"second", ⟨"second", "arr"⟩, .arrayOf .bool⟩]
  nodes := .ofList [
    ("left", choice [⟨"first", "data", "arr"⟩]
      [("condition", .bool true), ("true", .array []), ("false", .array [])]),
    ("right", choice [⟨"second", "data", "arr"⟩]
      [("condition", .bool true), ("true", .array []), ("false", .array [])]),
    ("first", ⟨"array.map", [⟨"body", "item", "condition"⟩], .empty⟩),
    ("second", ⟨"array.map", [⟨"body", "item", "true"⟩], .empty⟩),
    ("body", choice [⟨"first", "data", "callback"⟩, ⟨"second", "data", "callback"⟩]
      [("false", .bool false)])]

end Program

namespace Environment

/-- The library without `math.random`, without a cache and with the given slack. -/
def bare (slack : UInt64) : Environment :=
  ⟨Library.settled, ⟨none, slack, false⟩, none, fun _ => none⟩

private theorem bare_reorders {slack : UInt64} {p : Program} {ids : List String}
    (hp : p.Orderly Library.settled) (hslack : p.size * p.size ≤ slack.toNat)
    (hids : ids.Perm p.ids) : (bare slack).Reorders p (p.inOrder ids) where
  library := rfl
  uncached := rfl
  orderly := hp
  similar := Program.similar_inOrder hids
  slack := hslack

/-- A body in the example programs calls nothing that takes callbacks, so three levels are enough.
-/
theorem bare_run {slack : UInt64} {p : Program} (answer : Except RunError (Record Json))
    (h : ((bare slack).runWithin 3 "" default p .empty).outcome = answer.mapError .failed) :
    ((bare slack).run "" default p .empty).outcome = answer.mapError .failed := by
  have hdepth : 3 ≤ depthLimit := by
    show 3 ≤ 2 ^ 32
    norm_num
  have hanswer := answer_ne_outOfDepth answer
  rw [← h] at hanswer
  rw [Environment.run, runWithin_persists hdepth hanswer, h]

/-- The value for the body is there in time, whichever head comes first. -/
theorem run_reordered_capturing :
    ∃ record, ((bare 25).run "" default (.capturing Program.soon) .empty).outcome = .ok record ∧
      ((bare 25).run "" default ((Program.capturing Program.soon).inOrder
        ["late", "items", "body", "map"]) .empty).outcome = .ok record := by
  have hclean : (Program.capturing Program.soon).Orderly Library.settled ∧
      (Program.capturing Program.soon).Flat Library.settled := by decide +kernel
  have hruns : ((bare 25).runWithin 3 "" default (.capturing Program.soon) .empty).outcome =
        .ok (.ofList [("out", .array [.bool true])]) ∧
      ((bare 25).runWithin 3 "" default ((Program.capturing Program.soon).inOrder
        ["late", "items", "body", "map"]) .empty).outcome =
        .ok (.ofList [("out", .array [.bool true])]) := by decide +kernel
  have hreorders : (bare 25).Reorders (.capturing Program.soon)
      ((Program.capturing Program.soon).inOrder ["late", "items", "body", "map"]) :=
    bare_reorders hclean.1 (by decide +kernel) (by decide +kernel)
  obtain ⟨-, hequal, -⟩ := run_reordered hreorders hclean.2.scoped (by decide +kernel)
    .empty "" "" default default
  have hx := bare_run (.ok _) hruns.1
  have hy := bare_run (.ok _) hruns.2
  exact ⟨_, hx, hequal _ _ hx hy ▸ hy⟩

/-- The order of the nodes decides whether a run succeeds and how it fails: a call that fails comes
before or after the last output and before or after another that fails, and a value arrives in a
body before or after the callback is called. Where bodies overlap, or where the step budget
overflows, it decides about the outputs as well. -/
theorem run_order_matters :
    (((bare 25).Reorders .rivals (Program.rivals.inOrder ["glue", "join", "pick"]) ∧
        (bare 25).Reorders .rivals (Program.rivals.inOrder ["join", "glue", "pick"]) ∧
        Program.rivals.Scoped (bare 25).catalog) ∧
      ((bare 25).run "" default .rivals .empty).outcome = .ok (.ofList [("out", .bool true)]) ∧
      ((bare 25).run "" default (Program.rivals.inOrder ["glue", "join", "pick"]) .empty).outcome =
        .error (.failed (.invalidArgument "sep" "string")) ∧
      ((bare 25).run "" default (Program.rivals.inOrder ["join", "glue", "pick"]) .empty).outcome =
        .error (.failed (.invalidArgument "arr" "array"))) ∧
    (((bare 25).Reorders (.capturing Program.later)
          ((Program.capturing Program.later).inOrder ["early", "items", "late", "map", "body"]) ∧
        (Program.capturing Program.later).Scoped (bare 25).catalog) ∧
      ((bare 25).run "" default (.capturing Program.later) .empty).outcome =
        .error (.failed (.executionFailed "callback 'cb' produced no 'callback'")) ∧
      ((bare 25).run "" default ((Program.capturing Program.later).inOrder
          ["early", "items", "late", "map", "body"]) .empty).outcome =
        .ok (.ofList [("out", .array [.bool true])])) ∧
    ((bare 25).Reorders .sharing
        (Program.sharing.inOrder ["right", "left", "first", "second", "body"]) ∧
      ((bare 25).run "" default .sharing .empty).outcome = .ok (.ofList [("first", .array [])]) ∧
      ((bare 25).run "" default (Program.sharing.inOrder
          ["right", "left", "first", "second", "body"]) .empty).outcome =
        .ok (.ofList [("second", .array [])])) ∧
    ((bare (2 ^ 64 - 1)).Reorders .trio (Program.trio.inOrder ["b", "a", "c"]) ∧
        Program.trio.Scoped (bare (2 ^ 64 - 1)).catalog) ∧
      ((bare (2 ^ 64 - 1)).run "" default .trio .empty).outcome =
        .ok (.ofList [("a", .bool true)]) ∧
      ((bare (2 ^ 64 - 1)).run "" default (Program.trio.inOrder ["b", "a", "c"]) .empty).outcome =
        .ok (.ofList [("b", .bool true)]) := by
  refine ⟨?_, ?_, ?_, ?_⟩
  · have hclean : Program.rivals.Orderly Library.settled ∧
        Program.rivals.Flat Library.settled := by decide +kernel
    have hruns : ((bare 25).runWithin 3 "" default .rivals .empty).outcome =
          .ok (.ofList [("out", .bool true)]) ∧
        ((bare 25).runWithin 3 "" default (Program.rivals.inOrder ["glue", "join", "pick"])
          .empty).outcome = .error (.failed (.invalidArgument "sep" "string")) ∧
        ((bare 25).runWithin 3 "" default (Program.rivals.inOrder ["join", "glue", "pick"])
          .empty).outcome = .error (.failed (.invalidArgument "arr" "array")) := by decide +kernel
    exact ⟨⟨bare_reorders hclean.1 (by decide +kernel) (by decide +kernel),
        bare_reorders hclean.1 (by decide +kernel) (by decide +kernel), hclean.2.scoped⟩,
      bare_run (.ok _) hruns.1, bare_run (.error _) hruns.2.1, bare_run (.error _) hruns.2.2⟩
  · have hclean : (Program.capturing Program.later).Orderly Library.settled ∧
        (Program.capturing Program.later).Flat Library.settled := by decide +kernel
    have hruns : ((bare 25).runWithin 3 "" default (.capturing Program.later) .empty).outcome =
          .error (.failed (.executionFailed "callback 'cb' produced no 'callback'")) ∧
        ((bare 25).runWithin 3 "" default ((Program.capturing Program.later).inOrder
          ["early", "items", "late", "map", "body"]) .empty).outcome =
          .ok (.ofList [("out", .array [.bool true])]) := by decide +kernel
    exact ⟨⟨bare_reorders hclean.1 (by decide +kernel) (by decide +kernel), hclean.2.scoped⟩,
      bare_run (.error _) hruns.1, bare_run (.ok _) hruns.2⟩
  · have hruns : ((bare 25).runWithin 3 "" default .sharing .empty).outcome =
          .ok (.ofList [("first", .array [])]) ∧
        ((bare 25).runWithin 3 "" default (Program.sharing.inOrder
          ["right", "left", "first", "second", "body"]) .empty).outcome =
          .ok (.ofList [("second", .array [])]) := by decide +kernel
    exact ⟨bare_reorders (by decide +kernel) (by decide +kernel) (by decide +kernel),
      bare_run (.ok _) hruns.1, bare_run (.ok _) hruns.2⟩
  · have hclean : Program.trio.Orderly Library.settled ∧
        Program.trio.Flat Library.settled := by decide +kernel
    have hruns : ((bare (2 ^ 64 - 1)).runWithin 3 "" default .trio .empty).outcome =
          .ok (.ofList [("a", .bool true)]) ∧
        ((bare (2 ^ 64 - 1)).runWithin 3 "" default (Program.trio.inOrder ["b", "a", "c"])
          .empty).outcome = .ok (.ofList [("b", .bool true)]) := by decide +kernel
    exact ⟨⟨bare_reorders hclean.1 (by decide +kernel) (by decide +kernel), hclean.2.scoped⟩,
      bare_run (.ok _) hruns.1, bare_run (.ok _) hruns.2⟩

end Environment

end Dataflow

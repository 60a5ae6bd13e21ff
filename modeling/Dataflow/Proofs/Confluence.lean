/-
Two runs of one program agree.

A program is run twice, from frames that hold no different values. The two runs may take the frames
in different orders and may fire different nodes, but a node that fires in both of them does so with
the same arguments, and with closures of the same programs that start from frames without different
values. As library functions ask their callbacks for single values, the two calls give the same, if
both of them succeed. So the outputs of both runs hold no different values, and where neither run is
cut short they are the same.

* `Program.Launch.arguments_eq`, `Program.Launch.compatible` — two firings of one node;
* `Host.Schedule`, `Host.Account` — what is known of a run from the firings that it has made;
* `Host.Schedule.concur` — two runs get the same from each node that fires in both;
* `Host.Schedule.included` — a run that is not cut short fires all nodes that any run fires;
* `Host.execute_agrees`, `Host.execute_confluent` — the outputs of two runs.
-/
import Mathlib
import Dataflow.Proofs.Asking
import Dataflow.Proofs.Enclosure
import Dataflow.Proofs.Toll
namespace Dataflow

/-- All functions are native and take one output from each call of a callback. -/
def Catalog.Asks (c : Catalog) : Prop :=
  ∀ name entry, c.get? name = some entry → ∃ signature runner, entry = .native signature runner ∧
    ∀ args callbacks, (runner args callbacks).Asking

namespace Program

variable {p : Program} {c : Catalog} {start start' rest rest' frames frames' : FrameQueue}
  {results results' : String → Option Outputs} {id key : String} {node : Node} {entry : Entry}
  {frame frame' : Frame}

/-! ### Two firings of one node -/

/-- Frames that hold no different values for a declared input. -/
def Compatible (p : Program) (c : Catalog) (start start' : FrameQueue) : Prop :=
  ∀ id node entry, p.Calls c id node entry → ∀ key ∈ entry.signature.inputNames, ∀ x y,
    start.gathered id key = some x → start'.gathered id key = some y → x = y

theorem compatible_of_get? (h : ∀ id, start.get? id = start'.get? id) :
    p.Compatible c start start' := by
  intro id node entry _ key _ x y hx hy
  rw [FrameQueue.gathered, h] at hx
  exact Option.some.inj (hx.symm.trans hy)

/-- Nodes that have given results in two runs have given the same. -/
def Concur (results results' : String → Option Outputs) : Prop :=
  ∀ id a b, results id = some a → results' id = some b → a = b

/-- Both runs send the same along an edge whose source has fired in both. -/
theorem Concur.sent_eq (hc : Concur results results') {e : String × Edge}
    (hsome : (results e.1).isSome) (hsome' : (results' e.1).isSome) :
    p.sent c results e = p.sent c results' e := by
  obtain ⟨a, ha⟩ := Option.isSome_iff_exists.1 hsome
  obtain ⟨b, hb⟩ := Option.isSome_iff_exists.1 hsome'
  have hsame : results e.1 = results' e.1 := by rw [ha, hb, hc e.1 a b ha hb]
  rw [sent, sent, hsame]

/-- What both runs supply for a declared input is the same. -/
theorem Concur.supplied_eq (hc : Concur results results') (h : p.Wired c start)
    (h' : p.Wired c start') (hstart : p.Compatible c start start')
    (hcalls : p.Calls c id node entry) (hkey : key ∈ entry.signature.inputNames) {x y : Json}
    (hx : p.supplied c start results id key = some x)
    (hy : p.supplied c start' results' id key = some y) : x = y := by
  by_cases hedge : ∃ e, e ∈ p.edgesTo id key
  · obtain ⟨e, he⟩ := hedge
    rw [h.supplied_of_edge hcalls hkey he] at hx
    rw [h'.supplied_of_edge hcalls hkey he] at hy
    have hsent : p.sent c results e = p.sent c results' e :=
      hc.sent_eq (isSome_of_sent (by rw [hx]; rfl)) (isSome_of_sent (by rw [hy]; rfl))
    rw [hx, hy] at hsent
    exact Option.some.inj hsent
  · push Not at hedge
    rw [supplied_of_no_edge hedge] at hx hy
    exact hstart id node entry hcalls key hkey x y hx hy

private theorem concur_refl (results : String → Option Outputs) : Concur results results :=
  fun _ _ _ ha hb => Option.some.inj (ha.symm.trans hb)

/-- A node that is ready in one run is ready in a run that has fired more, unless it has fired
there. -/
theorem Concur.ready (hc : Concur results results') (h : p.Wired c start) (h' : p.Wired c start')
    (hsame : ∀ id, start.get? id = start'.get? id)
    (hincluded : ∀ id, (results id).isSome → (results' id).isSome)
    (hw : p.Wave c start results frames) (hw' : p.Wave c start' results' frames')
    (hfresh : results id = none) (hfresh' : results' id = none) (hready : p.Ready c frames id) :
    p.Ready c frames' id := by
  obtain ⟨node, entry, frame, hcalls, hframe, hready⟩ := hready
  have hf := hw.firable h hframe hcalls hready
  have hsent : ∀ e, (p.sent c results e).isSome → p.sent c results' e = p.sent c results e := by
    intro e he
    have hsource := isSome_of_sent he
    exact (hc.sent_eq hsource (hincluded e.1 hsource)).symm
  -- The node has been reached in the other run as well,
  have hline : id ∈ frames'.order := by
    refine (hw'.reached hf.toSite hfresh').2 ?_
    rcases (hw.reached hf.toSite hfresh).1 ((hw.sound.mem_order id).2 ⟨frame, hframe⟩) with
      hbefore | ⟨e, he, hsome⟩
    · left
      rw [h'.sound.mem_order, ← hsame]
      exact (h.sound.mem_order id).1 hbefore
    · exact .inr ⟨e, he, by rwa [hsent e hsome]⟩
  -- and has all its inputs there.
  obtain ⟨frame', hframe'⟩ := (hw'.sound.mem_order id).1 hline
  refine ⟨node, entry, frame', hf.calls, hframe', List.all_eq_true.2 fun key hkey => ?_⟩
  have hhas := List.all_eq_true.1 hready key hkey
  rw [Bool.or_eq_true] at hhas ⊢
  refine hhas.imp_left fun hhas => ?_
  rw [Record.contains, hw.get?_frame hframe hf.toSite hfresh hkey] at hhas
  rw [Record.contains, hw'.get?_frame hframe' hf.toSite hfresh' hkey]
  by_cases hedge : ∃ e, e ∈ p.edgesTo id key
  · obtain ⟨e, he⟩ := hedge
    rw [h.supplied_of_edge hf.calls hkey he] at hhas
    rwa [h'.supplied_of_edge hf.calls hkey he, hsent e hhas]
  · push Not at hedge
    rw [supplied_of_no_edge hedge, FrameQueue.gathered] at hhas ⊢
    rwa [← hsame]

namespace Launch

/-- An input that no edge feeds was there at the start just when it has no default. -/
theorem isSome_start (hl : p.Launch c start results id node entry frame rest)
    (h : p.Wired c start) (hkey : key ∈ entry.signature.inputNames)
    (hedge : ∀ e, e ∉ p.edgesTo id key) :
    (start.gathered id key).isSome ↔ node.defaults.contains key = false := by
  constructor
  · exact h.given hl.calls hkey
  · intro hdefault
    have hhas := List.all_eq_true.1 hl.ready key hkey
    rw [hdefault, Bool.or_false, Record.contains, hl.taken hkey, supplied_of_no_edge hedge] at hhas
    exact hhas

/-- **A node fires with the same arguments in both runs.** -/
theorem arguments_eq (hl : p.Launch c start results id node entry frame rest)
    (hl' : p.Launch c start' results' id node entry frame' rest') (h : p.Wired c start)
    (h' : p.Wired c start') (hstart : p.Compatible c start start')
    (hc : Concur results results') :
    node.arguments entry.signature frame = node.arguments entry.signature frame' := by
  refine Record.ext_get? fun key => ?_
  rw [Node.get?_arguments, Node.get?_arguments]
  by_cases hkey : key ∈ entry.signature.inputNames
  · have hframe : frame.get? key = frame'.get? key := by
      rw [hl.taken hkey, hl'.taken hkey]
      by_cases hedge : ∃ e, e ∈ p.edgesTo id key
      · -- All sources have fired before the node, in both runs.
        obtain ⟨e, he⟩ := hedge
        obtain ⟨hincoming, rfl⟩ := mem_edgesTo.1 he
        have hinput := Signature.mem_inputNames.1 hkey
        rw [h.supplied_of_edge hl.calls hkey he, h'.supplied_of_edge hl.calls hkey he]
        exact hc.sent_eq (hl.sources e hincoming hinput) (hl'.sources e hincoming hinput)
      · push Not at hedge
        rw [supplied_of_no_edge hedge, supplied_of_no_edge hedge]
        have hsome : (start.gathered id key).isSome ↔ (start'.gathered id key).isSome := by
          rw [hl.isSome_start h hkey hedge, hl'.isSome_start h' hkey hedge]
        cases hx : start.gathered id key with
        | none =>
          rw [hx] at hsome
          exact (Option.not_isSome_iff_eq_none.1 fun hy => nomatch hsome.2 hy).symm
        | some x =>
          rw [hx] at hsome
          obtain ⟨y, hy⟩ := Option.isSome_iff_exists.1 (hsome.1 rfl)
          rw [hy, hstart id node entry hl.calls key hkey x y hx hy]
    rw [hframe]
  · rw [if_neg hkey, if_neg hkey]

variable {extraction extraction' : Extraction} {closure closure' : Closure} {name : String}
  {args : Record Json}

/-- **The closures of a node start from frames without different values**, when they are called with
the same arguments. -/
theorem compatible (hl : p.Launch c start results id node entry frame rest)
    (hl' : p.Launch c start' results' id node entry frame' rest') (h : p.Wired c start)
    (h' : p.Wired c start') (hstart : p.Compatible c start start')
    (hc : Concur results results')
    (hextract : Callback.extract p id entry.signature rest = .ok extraction)
    (hextract' : Callback.extract p id entry.signature rest' = .ok extraction')
    (hclosure : extraction.closures.get? name = some closure)
    (hclosure' : extraction'.closures.get? name = some closure')
    (hframes : closure.frames args = .ok frames) (hframes' : closure'.frames args = .ok frames') :
    closure.program.Compatible c frames frames' := by
  intro other inner called hcalls key hkey x y hx hy
  have hprogram := Callback.program_eq_of_extract hextract hextract' hclosure hclosure'
  obtain ⟨-, -, hnodes, hseed, -, -⟩ := Callback.closure_of_extract hextract hclosure
  obtain ⟨-, -, -, hseed', -, -⟩ := Callback.closure_of_extract hextract' hclosure'
  obtain ⟨hother, outer, houter, -⟩ := calls_of_body hnodes hcalls
  rw [(Closure.frames_eq_ok hframes).2, FrameQueue.gathered_receiveAll, hseed] at hx
  rw [(Closure.frames_eq_ok hframes').2, hprogram, FrameQueue.gathered_receiveAll, hseed'] at hy
  -- Both calls hand over the same values, and otherwise there is what waited in the body.
  cases hlast : ((Delivery.ofBindings args closure.program.input).filter
    fun d => d.id = other ∧ d.key = key).getLast? with
  | some d =>
    rw [hlast] at hx hy
    exact Option.some.inj (hx.symm.trans hy)
  | none =>
    have hwaited : ∀ {queue : FrameQueue} {value : Json},
        (queue.restrict (p.bodyOf id entry.signature)).gathered other key = some value →
        queue.gathered other key = some value := by
      intro queue value hvalue
      rwa [FrameQueue.gathered, FrameQueue.get?_restrict, if_pos hother] at hvalue
    rw [hlast] at hx hy
    exact hc.supplied_eq h h' hstart houter hkey (hl.held houter hkey (hwaited hx))
      (hl'.held houter hkey (hwaited hy))

end Launch

end Program

/-! ### Two calls of one node -/

/-- Runs of one program from frames without different values have outputs without different
values. -/
def Executor.Agrees (nested : Executor) (c : Catalog) : Prop :=
  ∀ p start start', p.Wired c start → p.Wired c start' → p.Scoped c → p.outputNames.Nodup →
    p.Compatible c start start' → ∀ caller caller',
      Run.Agree Record.Compatible (nested caller p start) (nested caller' p start')

namespace Host

variable {host : Host} {nested : Executor} {p : Program}
  {start start' rest rest' frames frames' : FrameQueue}
  {results results' : String → Option Outputs} {id : String} {node : Node} {entry : Entry}
  {frame frame' : Frame} {outputs outputs' : Record Json} {s s' : Session} {steps : Nat}

/-- The call of a firing gives the results. -/
def Gives (host : Host) (nested : Executor) (p : Program) (id : String) (node : Node)
    (entry : Entry) (frame : Frame) (rest : FrameQueue) (given : Outputs) : Prop :=
  ∃ extraction caller s s', Callback.extract p id entry.signature rest = .ok extraction ∧
    s.cache = none ∧ host.invokeCached nested node.function entry
      (node.arguments entry.signature frame) extraction.closures caller s = (.ok given, s')

section Calls

variable (hn : nested.Agrees host.catalog) (hscoped : p.Scoped host.catalog)
  (h : p.Wired host.catalog start) (h' : p.Wired host.catalog start')
  (hstart : p.Compatible host.catalog start start')

include hn hscoped h h' hstart

/-- Calls of the closures of two firings have outputs without different values. -/
theorem callClosure_agree (hc : Program.Concur results results')
    (hl : p.Launch host.catalog start results id node entry frame rest)
    (hl' : p.Launch host.catalog start' results' id node entry frame' rest')
    {extraction extraction' : Extraction}
    (hextract : Callback.extract p id entry.signature rest = .ok extraction)
    (hextract' : Callback.extract p id entry.signature rest' = .ok extraction')
    (caller caller' name : String) (args : Record Json) :
    Run.Agree Record.Compatible (callClosure nested extraction.closures caller name args)
      (callClosure nested extraction'.closures caller' name args) := by
  unfold callClosure
  cases hclosure : extraction.closures.get? name with
  | none => exact Run.agree_halt_left _ _
  | some closure =>
    cases hclosure' : extraction'.closures.get? name with
    | none => exact Run.agree_halt_right _ _
    | some closure' =>
      simp only [Run.bind_eq]
      cases hframes : closure.frames args with
      | error error => exact Run.agree_halt_left (.failed error) _
      | ok frames =>
        cases hframes' : closure'.frames args with
        | error error => exact Run.agree_halt_right _ (.failed error)
        | ok frames' =>
          obtain ⟨-, -, hnodes, -⟩ := Callback.closure_of_extract hextract hclosure
          have hbody : closure.program.Scoped host.catalog := hscoped.body hl.toSite hnodes
          have hprogram :=
            Callback.program_eq_of_extract hextract hextract' hclosure hclosure'
          have hwired := hl.wired h hextract hclosure hframes hbody.nested
          have hwired' := hl'.wired h' hextract' hclosure' hframes' (hprogram ▸ hbody.nested)
          rw [hprogram] at hwired' ⊢
          exact hn closure.program frames frames' hwired hwired' hbody
            (hl.distinct h hextract hclosure)
            (hl.compatible hl' h h' hstart hc hextract hextract' hclosure hclosure' hframes
              hframes') caller caller'

/-- **A node gives the same in both runs.** -/
theorem Gives.eq (hasks : host.catalog.Asks) (hsteady : nested.Steady)
    (hc : Program.Concur results results')
    (hl : p.Launch host.catalog start results id node entry frame rest)
    (hl' : p.Launch host.catalog start' results' id node entry frame' rest')
    {given given' : Outputs} (hgives : host.Gives nested p id node entry frame rest given)
    (hgives' : host.Gives nested p id node entry frame' rest' given') : given = given' := by
  obtain ⟨extraction, caller, s, s₁, hextract, hs, hcall⟩ := hgives
  obtain ⟨extraction', caller', s', s₁', hextract', hs', hcall'⟩ := hgives'
  rw [invokeCached_of_none (by rw [hs]; rfl)] at hcall
  rw [invokeCached_of_none (by rw [hs']; rfl)] at hcall'
  obtain ⟨signature, runner, rfl, hrunner⟩ := hasks _ _ hl.calls.entry_eq
  have hnames : extraction.closures.names = extraction'.closures.names :=
    (Callback.names_of_extract hl.calls.node_eq hextract).trans
      (Callback.names_of_extract hl.calls.node_eq hextract').symm
  rw [← hl.arguments_eq hl' h h' hstart hc, invoke, ← hnames] at hcall'
  have hagree := Script.Asking.agree
    (callClosure_steady hsteady extraction.closures caller)
    (callClosure_steady hsteady extraction'.closures caller')
    (callClosure_agree hn hscoped h h' hstart hc hl hl' hextract hextract' caller caller')
    (hrunner (node.arguments signature frame) extraction.closures.names)
  exact hagree s s' hs hs' given given' (congrArg Prod.fst hcall) (congrArg Prod.fst hcall')

end Calls

/-! ### The firings of a run -/

/-- The results after some firings of a run, each of a node that has not fired before. -/
inductive Schedule (host : Host) (nested : Executor) (p : Program) (start : FrameQueue) :
    (String → Option Outputs) → Prop where
  | start : Schedule host nested p start fun _ => none
  | fire {results : String → Option Outputs} {frames rest : FrameQueue} {id : String} {node : Node}
    {entry : Entry} {frame : Frame} {given : Outputs} :
    Schedule host nested p start results → p.Wave host.catalog start results frames →
    frames.pop? = some ((id, frame), rest) → p.Firable host.catalog results id node entry →
    results id = none → node.isReady entry.signature frame = true →
    host.Gives nested p id node entry frame rest given →
    Schedule host nested p start (Function.update results id (some given))

namespace Schedule

/-- What a node has given it has given in a firing that nothing has changed since. -/
theorem launch (hs : host.Schedule nested p start results) (h : p.Wired host.catalog start)
    {given : Outputs} (hid : results id = some given) :
    ∃ node entry frame rest, p.Launch host.catalog start results id node entry frame rest ∧
      host.Gives nested p id node entry frame rest given := by
  induction hs with
  | start => cases hid
  | @fire results frames rest fired node entry frame fresh _ hw hpop hf hunfired hready hgives ih =>
    by_cases hfired : id = fired
    · subst hfired
      rw [Function.update_self] at hid
      cases hid
      exact ⟨node, entry, frame, rest, (hw.launch h hpop hf hready).update hw h hf
        (.inl hunfired) (by rw [Function.update_self]; rfl), hgives⟩
    · have hbefore : results id = some given := by rwa [Function.update_of_ne hfired] at hid
      obtain ⟨node', entry', frame', rest', hl, hgives'⟩ := ih hbefore
      exact ⟨node', entry', frame', rest', hl.update hw h hf (.inl hunfired) (by rw [hid]; rfl),
        hgives'⟩

/-- **Two runs get the same from each node that fires in both.** -/
theorem concur (hasks : host.catalog.Asks) (hsteady : nested.Steady)
    (hn : nested.Agrees host.catalog) (hscoped : p.Scoped host.catalog)
    (h : p.Wired host.catalog start) (h' : p.Wired host.catalog start')
    (hstart : p.Compatible host.catalog start start')
    (hs : host.Schedule nested p start results) (hs' : host.Schedule nested p start' results') :
    Program.Concur results results' := by
  -- Induction on the firings of one run; the other is taken as a whole.
  induction hs with
  | start => exact fun id a b ha _ => nomatch ha
  | @fire results frames rest fired node entry frame given _ hw hpop hf _ hready hgives ih =>
    intro id a b ha hb
    by_cases hfired : id = fired
    · subst hfired
      rw [Function.update_self] at ha
      cases ha
      obtain ⟨node', entry', frame', rest', hl', hgives'⟩ := hs'.launch h' hb
      obtain ⟨rfl, rfl⟩ := hf.calls.unique hl'.calls
      exact hgives.eq hn hscoped h h' hstart hasks hsteady ih (hw.launch h hpop hf hready) hl'
        hgives'
    · rw [Function.update_of_ne hfired] at ha
      exact ih id a b ha hb

/-- **A run in which nothing is ready for the first time has fired whatever any run fires.** -/
theorem included (hs : host.Schedule nested p start results) (h : p.Wired host.catalog start)
    (h' : p.Wired host.catalog start') (hsame : ∀ id, start.get? id = start'.get? id)
    (hc : Program.Concur results results') (hw' : p.Wave host.catalog start' results' frames')
    (hready' : ∀ id, results' id = none → ¬ p.Ready host.catalog frames' id) (id : String)
    (hid : (results id).isSome) : (results' id).isSome := by
  induction hs generalizing id with
  | start => cases hid
  | @fire results frames rest fired node entry frame given _ hw hpop hf hunfired hready _ ih =>
    have hc₀ : Program.Concur results results' := by
      intro other a b ha hb
      refine hc other a b ?_ hb
      rw [Function.update_of_ne, ha]
      rintro rfl
      rw [hunfired] at ha
      cases ha
    by_cases hfired : id = fired
    · subst hfired
      by_contra hnone
      have hunfired' := Option.not_isSome_iff_eq_none.1 hnone
      obtain ⟨-, hframe, -⟩ := FrameQueue.pop?_eq_some hw.sound hpop
      exact hready' id hunfired' (hc₀.ready h h' hsame (ih hc₀) hw hw' hunfired hunfired'
        ⟨node, entry, frame, hf.calls, hframe, hready⟩)
    · rw [Function.update_of_ne hfired] at hid
      exact ih hc₀ id hid

end Schedule

/-! ### Accounts of a run -/

/-- What is known of a run: the firings so far, the frames that go with them, and the outputs that
were recorded. -/
structure Account (host : Host) (nested : Executor) (p : Program) (start : FrameQueue)
    (results : String → Option Outputs) (frames : FrameQueue) (outputs : Record Json) : Prop
    extends p.Wave host.catalog start results frames where
  schedule : host.Schedule nested p start results
  recorded : ∀ name, outputs.get? name = (p.output? name).bind (Program.outputOf results)

namespace Account

theorem initial (h : p.Wired host.catalog start) :
    host.Account nested p start (fun _ => none) start .empty where
  toWave := .initial h
  schedule := .start
  recorded := by
    intro name
    cases p.output? name <;> rfl

theorem drop (ha : host.Account nested p start results frames outputs)
    (hpop : frames.pop? = some ((id, frame), rest)) (hnode : p.node? id = none) :
    host.Account nested p start results rest outputs where
  toWave := ha.toWave.drop hpop hnode
  schedule := ha.schedule
  recorded := ha.recorded

theorem defer (ha : host.Account nested p start results frames outputs)
    (hpop : frames.pop? = some ((id, frame), rest)) :
    host.Account nested p start results (rest.defer id frame) outputs where
  toWave := ha.toWave.defer hpop
  schedule := ha.schedule
  recorded := ha.recorded

/-- A node that fires again gives the same again. -/
theorem given_eq (ha : host.Account nested p start results frames outputs)
    (hasks : host.catalog.Asks) (hsteady : nested.Steady) (hn : nested.Agrees host.catalog)
    (hscoped : p.Scoped host.catalog) (h : p.Wired host.catalog start)
    (hpop : frames.pop? = some ((id, frame), rest))
    (hf : p.Firable host.catalog results id node entry)
    (hready : node.isReady entry.signature frame = true) {given : Outputs}
    (hgives : host.Gives nested p id node entry frame rest given) :
    results id = none ∨ results id = some given := by
  cases hresult : results id with
  | none => exact .inl rfl
  | some before =>
    obtain ⟨node', entry', frame', rest', hl, hgives'⟩ := ha.schedule.launch h hresult
    obtain ⟨rfl, rfl⟩ := hf.calls.unique hl.calls
    have hsame := hgives'.eq hn hscoped h h (Program.compatible_of_get? fun _ => rfl) hasks hsteady
      (Program.concur_refl results) hl (ha.toWave.launch h hpop hf hready) hgives
    rw [hsame]
    exact .inr rfl

theorem fire (ha : host.Account nested p start results frames outputs)
    (h : p.Wired host.catalog start) (hd : p.outputNames.Nodup)
    (hpop : frames.pop? = some ((id, frame), rest))
    (hf : p.Firable host.catalog results id node entry)
    (hready : node.isReady entry.signature frame = true) {given : Outputs}
    (hgives : host.Gives nested p id node entry frame rest given)
    (hgiven : results id = none ∨ results id = some given) :
    host.Account nested p start (Function.update results id (some given))
      (((p.bodyOf id entry.signature).foldl FrameQueue.remove rest).receiveAll
        (Delivery.ofFiring entry.signature given node.next))
      (p.recordOutputs id given outputs) where
  toWave := ha.toWave.fire h hpop hf hgiven
  schedule := by
    rcases hgiven with hfresh | hagain
    · exact ha.schedule.fire ha.toWave hpop hf hfresh hready hgives
    · rw [Program.Wave.update_of_again hagain]
      exact ha.schedule
  recorded := by
    intro name
    rw [Program.get?_recordOutputs hd, ha.recorded]
    cases p.output? name with
    | none => rfl
    | some b =>
      simp only [Option.bind_some]
      by_cases hb : b.address.id = id
      · rw [if_pos hb, Program.outputOf, Program.outputOf, hb, Function.update_self]
        rcases hgiven with hfresh | hagain
        · simp [hfresh]
        · simp [hagain]
      · rw [if_neg hb, Program.outputOf, Program.outputOf, Function.update_of_ne hb]
        simp

/-- The outputs of two runs that concur hold no different values. -/
theorem compatible (ha : host.Account nested p start results frames outputs)
    (ha' : host.Account nested p start' results' frames' outputs')
    (hc : Program.Concur results results') : outputs.Compatible outputs' := by
  intro name x y hx hy
  rw [ha.recorded] at hx
  rw [ha'.recorded] at hy
  obtain ⟨b, hb, hx⟩ := Option.bind_eq_some_iff.1 hx
  rw [hb, Option.bind_some] at hy
  obtain ⟨given, hgiven, hx⟩ := Program.outputOf_eq_some.1 hx
  obtain ⟨given', hgiven', hy⟩ := Program.outputOf_eq_some.1 hy
  rw [← hc _ _ _ hgiven hgiven', hx] at hy
  cases hy
  rfl

/-- A run that was not cut short has all outputs that any run has. -/
theorem get?_of_get? (ha : host.Account nested p start results frames outputs)
    (ha' : host.Account nested p start' results' frames' outputs')
    (h : p.Wired host.catalog start) (h' : p.Wired host.catalog start')
    (hsame : ∀ id, start.get? id = start'.get? id) (hd : p.outputNames.Nodup)
    (hc : Program.Concur results results')
    (hend : p.isComplete outputs' = true ∨
      ∀ id, results' id = none → ¬ p.Ready host.catalog frames' id) {name : String}
    {value : Json} (hvalue : outputs.get? name = some value) : outputs'.get? name = some value := by
  have hbinding := hvalue
  rw [ha.recorded] at hbinding
  obtain ⟨b, hb, houtput⟩ := Option.bind_eq_some_iff.1 hbinding
  obtain ⟨given, hgiven, hflow⟩ := Program.outputOf_eq_some.1 houtput
  rcases hend with hcomplete | hready
  · -- All outputs are there, so this one is.
    rw [Program.isComplete, Bool.and_eq_true] at hcomplete
    have hname : name ∈ p.outputNames := List.mem_map.2 ⟨b, (Program.output?_eq_some hd).1 hb⟩
    obtain ⟨value', hvalue'⟩ :=
      Record.contains_eq_true.1 (List.all_eq_true.1 hcomplete.2 name hname)
    rw [hvalue', ha.compatible ha' hc name value value' hvalue hvalue']
  · obtain ⟨given', hgiven'⟩ := Option.isSome_iff_exists.1 (ha.schedule.included h h' hsame hc
      ha'.toWave hready b.address.id (by rw [hgiven]; rfl))
    rw [ha'.recorded, hb, Option.bind_some, Program.outputOf_eq_some]
    exact ⟨given', hgiven', by rw [← hc _ _ _ hgiven hgiven', hflow]⟩

/-- A step that fires no node for the first time leaves enough steps for the rest. -/
theorem pass (ha : host.Account nested p start results frames outputs)
    (ha' : host.Account nested p start results frames' outputs') (h : p.Wired host.catalog start)
    (hlasting : p.Lasting host.catalog results frames (steps + 1))
    (hpop : frames.pop? = some ((id, frame), rest))
    (hid : results id = none → ¬ p.Ready host.catalog frames id)
    (hindex : ∀ other, other ∈ rest.order → results other = none →
      p.Ready host.catalog frames other → frames'.order.idxOf other ≤ rest.order.idxOf other) :
    p.Lasting host.catalog results frames' steps := by
  have hready : ∀ {frames frames' : FrameQueue}, p.Wave host.catalog start results frames →
      p.Wave host.catalog start results frames' → ∀ {other}, results other = none →
      p.Ready host.catalog frames other → p.Ready host.catalog frames' other :=
    fun hw hw' _ hunfired hother => (Program.concur_refl results).ready h h (fun _ => rfl)
      (fun _ hsome => hsome) hw hw' hunfired hunfired hother
  refine hlasting.pass ha.sound hpop hid (fun other hunfired =>
    ⟨hready ha.toWave ha'.toWave hunfired, hready ha'.toWave ha.toWave hunfired⟩) ?_
  intro other hunfired hother
  refine hindex other ?_ hunfired hother
  -- The node is in line, and not at its head.
  have hfound := hother
  obtain ⟨node, entry, frame', -, hframe', -⟩ := hfound
  obtain ⟨horder, -, -⟩ := FrameQueue.pop?_eq_some ha.sound hpop
  have hline := (ha.sound.mem_order other).2 ⟨frame', hframe'⟩
  rw [horder] at hline
  exact (List.mem_cons.1 hline).resolve_left fun heq => hid (heq ▸ hunfired) (heq ▸ hother)

end Account

/-! ### Whole runs -/

section Steps

variable (hasks : host.catalog.Asks) (hsteady : nested.Steady) (hn : nested.Agrees host.catalog)
  (hscoped : p.Scoped host.catalog) (h : p.Wired host.catalog start) (hd : p.outputNames.Nodup)

include hasks hsteady hn hscoped h hd

/-- **A step that does not fail is accounted for**, and if the steps sufficed before it, those that
are left still do. -/
theorem Processed.account (steps : Nat) {caller : String} {firing : Option Firing}
    {progress : Progress} (ha : host.Account nested p start results frames outputs)
    (hpop : frames.pop? = some ((id, frame), rest)) (hcache : s.cache = none)
    (hprocessed : host.Processed nested caller p id frame rest outputs s firing
      (.ok progress, s')) :
    ∃ results' frames' outputs', host.Account nested p start results' frames' outputs' ∧
      (progress = .complete outputs' ∧ p.isComplete outputs' = true ∨
        progress = .next frames' outputs' ∧ ((∀ id ∈ start.order, (p.node? id).isSome) →
          p.Lasting host.catalog results frames (steps + 1) →
          p.Lasting host.catalog results' frames' steps)) := by
  obtain ⟨-, hframe, -⟩ := FrameQueue.pop?_eq_some ha.sound hpop
  rcases hprocessed.advance h ha.toWave hpop with ⟨hnode, rfl⟩ | ⟨hnot, rfl⟩ |
    ⟨node, entry, extraction, given, s₁, s₂, hf, hready, hextract, hquiet, hcall, rfl⟩
  · have ha' := ha.drop hpop hnode
    refine ⟨_, _, _, ha', .inr ⟨rfl, fun _ hlasting => ha.pass ha' h hlasting hpop ?_ ?_⟩⟩
    · rintro - ⟨node, entry, frame', hcalls, -⟩
      cases hnode.symm.trans hcalls.node_eq
    · exact fun other _ _ _ => Nat.le_refl _
  · have ha' := ha.defer hpop
    refine ⟨_, _, _, ha', .inr ⟨rfl, fun _ hlasting =>
      ha.pass ha' h hlasting hpop (fun _ => hnot) ?_⟩⟩
    intro other hother _ _
    rw [FrameQueue.order_popped_deferred ha.sound hpop, List.idxOf_append_of_mem hother]
  · have hgives : host.Gives nested p id node entry frame rest given :=
      ⟨extraction, caller, s₁, s₂, hextract, hquiet.cache.trans hcache, hcall⟩
    have hgiven := ha.given_eq hasks hsteady hn hscoped h hpop hf hready hgives
    have ha' := ha.fire h hd hpop hf hready hgives hgiven
    refine ⟨_, _, _, ha', ?_⟩
    split
    · rename_i hcomplete
      exact .inl ⟨rfl, hcomplete⟩
    · refine .inr ⟨rfl, fun hstarted hlasting => ?_⟩
      rcases hgiven with hfresh | hagain
      · -- A first firing: a round of the line is left for each node that has not fired.
        refine ha'.toWave.lasting ?_
          (hlasting.rounds hfresh ⟨node, entry, frame, hf.calls, hframe, hready⟩)
        exact fun other hother =>
          (ha'.waiting other hother).elim (hstarted other) fun hnode => hnode
      · rw [Program.Wave.update_of_again hagain] at ha' ⊢
        refine ha.pass ha' h hlasting hpop (fun hfresh => nomatch hfresh.symm.trans hagain) ?_
        intro other hother hunfired hready'
        obtain ⟨receiver, called, frame', hcalls, hframe', hready'⟩ := hready'
        refine FrameQueue.idxOf_removed_receiveAll_le (ha.sound.pop hpop) (fun hmem => ?_) _ hother
        exact (ha.toWave.firable h hframe' hcalls hready').outside
          ⟨id, node, entry, hf.calls, hmem⟩

/-- **How a run ends.** If it succeeds and had enough steps, all outputs are there or nothing is
ready for the first time. If it fails, it does so at the first frame in line. -/
theorem Drained.account {caller : String} {log : List Firing}
    {final : Except Halt (Record Json) × Session}
    (hdrained : host.Drained nested caller p steps frames outputs s log final)
    (ha : host.Account nested p start results frames outputs) (hcache : s.cache = none) :
    ∃ results' frames' outputs', host.Account nested p start results' frames' outputs' ∧
      (∀ record, final.1 = .ok record → record = outputs' ∧
        ((∀ id ∈ start.order, (p.node? id).isSome) →
          p.Lasting host.catalog results frames steps → p.isComplete outputs' = true ∨
            ∀ id, results' id = none → ¬ p.Ready host.catalog frames' id)) ∧
      ∀ halt, final.1 = .error halt → ∃ id frame rest s₁ firing s₂,
        frames'.pop? = some ((id, frame), rest) ∧ s₁.cache = none ∧
        host.Processed nested caller p id frame rest outputs' s₁ firing (.error halt, s₂) := by
  induction hdrained generalizing results with
  | empty hpop =>
    refine ⟨results, _, _, ha, ?_, fun _ hfinal => nomatch hfinal⟩
    intro record hfinal
    cases hfinal
    exact ⟨rfl, fun _ _ => .inr fun id _ => ha.toWave.not_ready_of_empty hpop id⟩
  | exhausted _ =>
    refine ⟨results, _, _, ha, ?_, fun _ hfinal => nomatch hfinal⟩
    intro record hfinal
    cases hfinal
    exact ⟨rfl, fun _ hlasting => .inr hlasting.not_ready⟩
  | halted hpop hprocessed =>
    refine ⟨results, _, _, ha, (fun _ hfinal => nomatch hfinal), ?_⟩
    intro halt hfinal
    cases hfinal
    exact ⟨_, _, _, _, _, _, hpop, hcache, hprocessed⟩
  | @complete steps _ _ _ _ _ _ _ _ _ hpop hprocessed =>
    obtain ⟨results', frames', outputs', ha', ⟨hcomplete, hall⟩ | ⟨hnext, -⟩⟩ :=
      hprocessed.account hasks hsteady hn hscoped h hd steps ha hpop hcache
    · cases hcomplete
      refine ⟨results', frames', _, ha', ?_, fun _ hfinal => nomatch hfinal⟩
      intro record hfinal
      cases hfinal
      exact ⟨rfl, fun _ _ => .inl hall⟩
    · cases hnext
  | next hpop hprocessed _ ih =>
    obtain ⟨results', frames', outputs', ha', ⟨hcomplete, -⟩ | ⟨hnext, hkeep⟩⟩ :=
      hprocessed.account hasks hsteady hn hscoped h hd _ ha hpop hcache
    · cases hcomplete
    · cases hnext
      obtain ⟨results'', frames'', outputs'', ha'', hok, herror⟩ :=
        ih ha' (Session.cache_eq_none hcache (hprocessed.steady hsteady))
      refine ⟨results'', frames'', outputs'', ha'', fun record hfinal => ?_, herror⟩
      obtain ⟨hrecord, hend⟩ := hok record hfinal
      exact ⟨hrecord, fun hstarted hlasting => hend hstarted (hkeep hstarted hlasting)⟩

end Steps

section Executions

variable {depth : Nat} {caller caller' : String} (hasks : host.catalog.Asks)
  (hn : (host.execute depth).Agrees host.catalog) (hscoped : p.Scoped host.catalog)
  (h : p.Wired host.catalog start) (hd : p.outputNames.Nodup)

include hasks hn hscoped h hd

/-- The account of an execution that succeeds. -/
theorem execute_account (hcache : s.cache = none) {record : Record Json}
    (hrecord : (host.execute (depth + 1) caller p start s).1 = .ok record) :
    ∃ results frames, host.Account (host.execute depth) p start results frames record ∧
      ((∀ id ∈ start.order, (p.node? id).isSome) → p.size * p.size ≤ p.steps host.slack →
        p.isComplete record = true ∨
          ∀ id, results id = none → ¬ p.Ready host.catalog frames id) := by
  have hdrained : host.Drained (host.execute depth) caller p (p.steps host.slack) start .empty s _
      (host.execute (depth + 1) caller p start s) := drain_drained _ start .empty s
  have ha : host.Account (host.execute depth) p start _ start .empty := .initial h
  obtain ⟨results, frames, outputs, ha', hok, -⟩ :=
    hdrained.account hasks (execute_steady host depth) hn hscoped h hd ha hcache
  obtain ⟨rfl, hend⟩ := hok record hrecord
  refine ⟨results, frames, ha', fun hstarted hsteps =>
    hend hstarted (ha.toWave.lasting hstarted ?_)⟩
  have hall : (p.unfired fun _ => none) = p.ids := List.filter_eq_self.2 fun _ _ => rfl
  rwa [hall, show p.ids.length = p.size from List.length_map ..]

/-- The account of an execution that fails. -/
theorem execute_failure (hcache : s.cache = none) {halt : Halt}
    (hhalt : (host.execute (depth + 1) caller p start s).1 = .error halt) :
    ∃ results frames outputs, host.Account (host.execute depth) p start results frames outputs ∧
      ∃ id frame rest s₁ firing s₂, frames.pop? = some ((id, frame), rest) ∧ s₁.cache = none ∧
        host.Processed (host.execute depth) caller p id frame rest outputs s₁ firing
          (.error halt, s₂) := by
  have hdrained : host.Drained (host.execute depth) caller p (p.steps host.slack) start .empty s _
      (host.execute (depth + 1) caller p start s) := drain_drained _ start .empty s
  obtain ⟨results, frames, outputs, ha, -, herror⟩ :=
    hdrained.account hasks (execute_steady host depth) hn hscoped h hd (.initial h) hcache
  exact ⟨results, frames, outputs, ha, herror halt hhalt⟩

end Executions

/-- **Executions from frames without different values have outputs without different values.** -/
theorem execute_agrees (hasks : host.catalog.Asks) (depth : Nat) :
    (host.execute depth).Agrees host.catalog := by
  induction depth with
  | zero => exact fun p start start' _ _ _ _ _ caller caller' s s' _ _ a b ha _ => nomatch ha
  | succ depth ih =>
    intro p start start' h h' hscoped hd hstart caller caller' s s' hs hs' a b ha hb
    obtain ⟨results, frames, hacc, -⟩ := execute_account hasks ih hscoped h hd hs ha
    obtain ⟨results', frames', hacc', -⟩ := execute_account hasks ih hscoped h' hd hs' hb
    exact hacc.compatible hacc' (hacc.schedule.concur hasks (execute_steady host depth) ih hscoped
      h h' hstart hacc'.schedule)

/-- **Executions from the same frames in different order have the same outputs**, if there are steps
for a round of the line for each node. -/
theorem execute_confluent (hasks : host.catalog.Asks) {depth : Nat} {caller caller' : String}
    (h : p.Wired host.catalog start) (h' : p.Wired host.catalog start')
    (hsame : ∀ id, start.get? id = start'.get? id)
    (hstarted : ∀ id ∈ start.order, (p.node? id).isSome) (hscoped : p.Scoped host.catalog)
    (hd : p.outputNames.Nodup) (hsteps : p.size * p.size ≤ p.steps host.slack)
    (hs : s.cache = none) (hs' : s'.cache = none) {a b : Record Json}
    (ha : (host.execute depth caller p start s).1 = .ok a)
    (hb : (host.execute depth caller' p start' s').1 = .ok b) : a = b := by
  cases depth with
  | zero => cases ha
  | succ depth =>
    have hn : (host.execute depth).Agrees host.catalog := execute_agrees hasks depth
    obtain ⟨results, frames, hacc, hend⟩ := execute_account hasks hn hscoped h hd hs ha
    obtain ⟨results', frames', hacc', hend'⟩ := execute_account hasks hn hscoped h' hd hs' hb
    have hc := hacc.schedule.concur hasks (execute_steady host depth) hn hscoped h h'
      (Program.compatible_of_get? hsame) hacc'.schedule
    have hc' : Program.Concur results' results :=
      fun id x y hx hy => (hc id y x hy hx).symm
    have hstarted' : ∀ id ∈ start'.order, (p.node? id).isSome := by
      intro id hid
      rw [h'.sound.mem_order, ← hsame, ← h.sound.mem_order] at hid
      exact hstarted id hid
    refine Record.ext_get? fun name => Option.ext fun value => ⟨?_, ?_⟩
    · exact hacc.get?_of_get? hacc' h h' hsame hd hc (hend' hstarted' hsteps)
    · exact hacc'.get?_of_get? hacc h' h (fun id => (hsame id).symm) hd hc' (hend hstarted hsteps)

end Host

end Dataflow

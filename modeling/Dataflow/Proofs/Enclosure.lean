/-
The programs that a firing cuts out.

When a node fires, each of its callbacks becomes a program of its own: the nodes of the body, with
the frames that waited inside as a start. In a program that can be followed, these programs can be
followed too. What enters a body from outside is there at the start or does not come any more, so
every declared input still has at most one source.

* `Callback.closure_of_extract` — what a closure is made of;
* `Program.Launch` — what is known of a firing;
* `Program.Launch.wired` — the closures of a firing can be followed.
-/
import Mathlib
import Dataflow.Proofs.Wave
namespace Dataflow

/-- A table that is written id by id holds what was written for each id. -/
theorem Table.get?_ofList_filterMap {α : Type} (f : String → Option α) (ids : List String)
    (id : String) :
    (Table.ofList (ids.filterMap fun id => (f id).map fun value => (id, value))).get? id =
      if id ∈ ids then f id else none := by
  have hfold : ∀ (ids : List String) (t : Table α),
      ((ids.filterMap fun id => (f id).map fun value => (id, value)).foldl
        (fun t e => t.put e.1 e.2) t).get? id =
        if id ∈ ids then f id <|> t.get? id else t.get? id := by
    intro ids
    induction ids with
    | nil => exact fun t => rfl
    | cons other rest ih =>
      intro t
      rw [List.filterMap_cons]
      cases hother : f other with
      | none =>
        rw [Option.map_none, ih]
        by_cases hid : id = other <;> simp [hid, hother]
      | some value =>
        simp only [Option.map_some, List.foldl_cons]
        rw [ih, get?_put]
        by_cases hid : id = other <;> simp [hid, hother]
  rw [ofList, hfold]
  simp

namespace Callback

variable {p : Program} {site id name : String} {signature : Signature} {frames : FrameQueue}
  {extraction : Extraction} {closure : Closure} {feeding : List Edge} {body : List String}

/-! ### What a closure is made of -/

/-- The node of a body is the node of the program without its edges to the call site. -/
theorem node?_bodyNodes {inner : Node} : (bodyNodes p site body).get? id = some inner ↔
    id ∈ body ∧ ∃ node, p.node? id = some node ∧
      inner = { node with next := node.next.filter fun edge => edge.target ≠ site } := by
  have hnodes : bodyNodes p site body = Table.ofList (body.filterMap fun id =>
      ((p.node? id).map fun node =>
        { node with next := node.next.filter fun edge => edge.target ≠ site }).map
          fun node => (id, node)) := by
    rw [bodyNodes]
    simp only [Option.map_map]
    rfl
  rw [hnodes, Table.get?_ofList_filterMap]
  by_cases hid : id ∈ body
  · simp [hid, eq_comm]
  · simp [hid]

private theorem closures_spec {seed : FrameQueue} {callbacks : List (String × CallbackSignature)}
    {found : List (String × Closure)}
    (h : closures p site feeding body seed callbacks = .ok found) (hmem : (name, closure) ∈ found) :
    ∃ callback, (name, callback) ∈ callbacks ∧ closure.program.nodes = bodyNodes p site body ∧
      closure.seed = seed ∧ wireInputs name feeding callback.input = .ok closure.program.input ∧
      wireOutputs name p site (exits p site body) callback.output =
        .ok closure.program.output := by
  induction callbacks generalizing found with
  | nil =>
    cases h
    cases hmem
  | cons callback rest ih =>
    obtain ⟨input, output, more, hinput, houtput, hmore, rfl⟩ := closures_cons h
    rcases List.mem_cons.1 hmem with heq | hmem
    · cases heq
      exact ⟨callback.2, List.mem_cons_self .., rfl, rfl, hinput, houtput⟩
    · obtain ⟨other, hother, hspec⟩ := ih hmore hmem
      exact ⟨other, List.mem_cons_of_mem _ hother, hspec⟩

/-- **What a closure is made of**: the body of its call site, wired as its callback declares, and
the frames that wait inside. -/
theorem closure_of_extract (h : extract p site signature frames = .ok extraction)
    (hclosure : extraction.closures.get? name = some closure) :
    ∃ callback, signature.callbacks.get? name = some callback ∧
      closure.program.nodes = bodyNodes p site (p.bodyOf site signature) ∧
      closure.seed = frames.restrict (p.bodyOf site signature) ∧
      wireInputs name (feedingEdges p site signature) callback.input =
        .ok closure.program.input ∧
      wireOutputs name p site (exits p site (p.bodyOf site signature)) callback.output =
        .ok closure.program.output := by
  rcases extract_eq_ok h with rfl | ⟨found, hfound, rfl⟩
  · cases hclosure
  · rw [Record.get?_ofList_reverse] at hclosure
    obtain ⟨callback, hcallback, hspec⟩ :=
      closures_spec hfound (List.mem_reverse.1 (Entries.mem_of_lookup hclosure))
    exact ⟨callback, Record.mem_entries.1 hcallback, hspec⟩

/-- The frames of a firing do not decide what its closures run. -/
theorem program_eq_of_extract {frames' : FrameQueue} {extraction' : Extraction} {closure' : Closure}
    (h : extract p site signature frames = .ok extraction)
    (h' : extract p site signature frames' = .ok extraction')
    (hclosure : extraction.closures.get? name = some closure)
    (hclosure' : extraction'.closures.get? name = some closure') :
    closure'.program = closure.program := by
  obtain ⟨callback, hcallback, hnodes, -, hinput, houtput⟩ := closure_of_extract h hclosure
  obtain ⟨callback', hcallback', hnodes', -, hinput', houtput'⟩ := closure_of_extract h' hclosure'
  cases hcallback.symm.trans hcallback'
  have hin : closure.program.input = closure'.program.input :=
    Except.ok.inj (hinput.symm.trans hinput')
  have hout : closure.program.output = closure'.program.output :=
    Except.ok.inj (houtput.symm.trans houtput')
  have hsame := hnodes.trans hnodes'.symm
  rcases hp : closure.program with ⟨input, output, nodes⟩
  rcases hp' : closure'.program with ⟨input', output', nodes'⟩
  rw [hp, hp'] at hin hout hsame
  simp only at hin hout hsame
  rw [hin, hout, hsame]

/-- The closures of a firing stand for the callbacks that are declared. -/
theorem names_of_extract {node : Node} (hnode : p.node? site = some node)
    (h : extract p site signature frames = .ok extraction) :
    extraction.closures.names = signature.callbacks.names := by
  refine Record.names_eq_names fun name => Bool.eq_iff_iff.2 ?_
  rw [Record.contains_eq_true, Record.contains_eq_true]
  constructor
  · rintro ⟨closure, hclosure⟩
    obtain ⟨callback, hcallback, -⟩ := closure_of_extract h hclosure
    exact ⟨callback, hcallback⟩
  · rintro ⟨callback, hcallback⟩
    rw [extract] at h
    split at h
    · rename_i hnone
      rcases hnone with hnone | ⟨hempty, -⟩
      · rw [hnode] at hnone
        cases hnone
      · rw [Record.isEmpty_iff.1 hempty] at hcallback
        cases hcallback
    · obtain ⟨found, hfound, h⟩ := Except.bind_eq_ok h
      cases h
      refine Record.contains_eq_true.1 (Record.contains_ofList ?_)
      rw [(closures_declared hfound).1]
      exact List.mem_map.2 ⟨_, Record.mem_entries.2 hcallback, rfl⟩

/-- The inputs of a closure go where the edges into its callback lead. -/
theorem feeding_of_wireInputs {callback : String} {params : List Param} {input : List Binding}
    (h : wireInputs callback feeding params = .ok input) {b : Binding} (hb : b ∈ input) :
    ∃ edge ∈ feeding, b.address = ⟨edge.target, edge.toKey⟩ := by
  rw [wireInputs_eq_ok h] at hb
  obtain ⟨param, -, hb⟩ := List.mem_flatMap.1 hb
  obtain ⟨edge, hedge, rfl⟩ := List.mem_map.1 hb
  exact ⟨edge, (List.mem_filter.1 hedge).1, rfl⟩

/-- The outputs of a closure are those that its callback declares. -/
theorem names_of_wireOutputs {callback : String} {exits : List String} {params : List Param}
    {output : List Binding} (h : wireOutputs callback p site exits params = .ok output) :
    output.map (·.name) = Param.names params := by
  have hall := wireOutputs_eq_ok h
  clear h
  induction hall with
  | nil => rfl
  | cons hbinding _ ih =>
    obtain ⟨id, -, hid⟩ := List.exists_of_findSome?_eq_some hbinding
    obtain ⟨edge, -, rfl⟩ := Option.map_eq_some_iff.1 hid
    rw [List.map_cons, ih]
    rfl

end Callback

namespace Program

variable {p q : Program} {c : Catalog} {start rest frames : FrameQueue}
  {results : String → Option Outputs} {id other name : String} {node : Node} {entry : Entry}
  {frame : Frame}

/-! ### Nodes and edges of a body -/

section Body

variable {site : String} {signature : Signature}
  (hq : q.nodes = Callback.bodyNodes p site (p.bodyOf site signature))

include hq

theorem calls_of_body (hcalls : q.Calls c id node entry) : id ∈ p.bodyOf site signature ∧
    ∃ outer, p.Calls c id outer entry ∧
      node = { outer with next := outer.next.filter fun edge => edge.target ≠ site } := by
  have hnode := hcalls.node_eq
  rw [node?, hq, Callback.node?_bodyNodes] at hnode
  obtain ⟨hid, outer, houter, rfl⟩ := hnode
  exact ⟨hid, outer, ⟨houter, hcalls.entry_eq⟩, rfl⟩

private theorem body_calls (hid : id ∈ p.bodyOf site signature) (hcalls : p.Calls c id node entry) :
    ∃ inner, q.Calls c id inner entry := by
  have hnode :
      q.node? id = some { node with next := node.next.filter fun e => e.target ≠ site } := by
    rw [node?, hq, Callback.node?_bodyNodes]
    exact ⟨hid, node, hcalls.node_eq, rfl⟩
  exact ⟨_, hnode, hcalls.entry_eq⟩

/-- The edges inside a body are edges of the program. -/
theorem edgesTo_of_body {key : String} {e : String × Edge} (he : e ∈ q.edgesTo id key) :
    e ∈ p.edgesTo id key ∧ e.1 ∈ p.bodyOf site signature := by
  obtain ⟨hincoming, hkey⟩ := mem_edgesTo.1 he
  obtain ⟨rfl, i, hmem⟩ := mem_incoming hincoming
  obtain ⟨inner, hinner, hnext⟩ := mem_edges hmem
  rw [node?, hq, Callback.node?_bodyNodes] at hinner
  obtain ⟨hsource, outer, houter, rfl⟩ := hinner
  exact ⟨mem_edgesTo.2 ⟨incoming_of_next houter (List.mem_filter.1 hnext).1, hkey⟩, hsource⟩

end Body

/-- The nodes of bodies do not run on their own, and no callbacks are taken inside of bodies. -/
def Flat (p : Program) (c : Catalog) : Prop :=
  p.Nested c ∧ ∀ x ∈ p.nodes.entries, ∀ entry ∈ c.get? x.2.function, p.Inside c x.1 →
    entry.signature.callbacks.isEmpty = true

instance (p : Program) (c : Catalog) : Decidable (p.Flat c) := inferInstanceAs (Decidable (_ ∧ _))

/-- The bodies of a flat program are all there are. -/
theorem Flat.scoped (h : p.Flat c) : p.Scoped c := by
  refine .intro h.1 fun hsite q hq => scoped_of_plain fun hcalls => ?_
  obtain ⟨hid, outer, houter, -⟩ := calls_of_body hq hcalls
  exact Record.isEmpty_iff.1 (h.2 _ (Table.mem_entries.2 houter.node_eq) _ houter.entry_eq
    ⟨_, _, _, hsite.calls, hid⟩)

/-! ### Firings -/

/-- What is known of a firing: of the frame that was taken and of the frames that waited behind it,
when the nodes have given `results`. -/
structure Launch (p : Program) (c : Catalog) (start : FrameQueue)
    (results : String → Option Outputs) (id : String) (node : Node) (entry : Entry) (frame : Frame)
    (rest : FrameQueue) : Prop extends p.Site c id node entry where
  ready : node.isReady entry.signature frame = true
  taken : ∀ {key}, key ∈ entry.signature.inputNames →
    frame.get? key = p.supplied c start results id key
  sources : ∀ e ∈ p.incoming id, entry.signature.hasInput e.2.toKey = true → (results e.1).isSome
  sound : rest.Sound
  held : ∀ {other receiver called}, p.Calls c other receiver called →
    ∀ {key}, key ∈ called.signature.inputNames → ∀ {value}, rest.gathered other key = some value →
      p.supplied c start results other key = some value
  outer : ∀ {other}, (results other).isSome → ¬ p.Inside c other

/-- A node that is taken from the queue and ready is fired so. -/
theorem Wave.launch (hw : p.Wave c start results frames) (h : p.Wired c start)
    (hpop : frames.pop? = some ((id, frame), rest)) (hf : p.Firable c results id node entry)
    (hready : node.isReady entry.signature frame = true) :
    p.Launch c start results id node entry frame rest where
  toSite := hf.toSite
  ready := hready
  taken := fun hkey => hw.get?_of_ready h (FrameQueue.pop?_eq_some hw.sound hpop).2.1 hf.calls
    hready hkey
  sources := hf.sources
  sound := hw.sound.pop hpop
  held := by
    intro other receiver called hcalls key hkey value hvalue
    refine hw.held hcalls hkey ?_
    have hrest := FrameQueue.gathered_popped_removed hw.sound hpop [] other key
    rw [List.foldl_nil, hvalue] at hrest
    split at hrest
    · cases hrest
    · exact hrest.symm
  outer := hw.fired

namespace Launch

/-- Later firings change nothing about a firing. -/
theorem update (hl : p.Launch c start results id node entry frame rest)
    (hw : p.Wave c start results frames) (h : p.Wired c start) {receiver : Node} {called : Entry}
    (hf : p.Firable c results other receiver called) {given : Outputs}
    (hgiven : results other = none ∨ results other = some given)
    (hfired : (Function.update results other (some given) id).isSome) :
    p.Launch c start (Function.update results other (some given)) id node entry frame rest where
  toSite := hl.toSite
  ready := hl.ready
  taken := by
    intro key hkey
    rw [hw.supplied_update hf hgiven hl.calls hfired hkey, hl.taken hkey]
  sources := fun e he hkey => Wave.isSome_update (hl.sources e he hkey)
  sound := hl.sound
  held := fun hcalls _ hkey _ hvalue =>
    Wave.supplied_mono h hgiven hcalls hkey (hl.held hcalls hkey hvalue)
  outer := by
    intro third hsome
    by_cases hthird : third = other
    · rw [hthird]
      exact hf.outside
    · rw [Function.update_of_ne hthird] at hsome
      exact hl.outer hsome

variable {extraction : Extraction} {closure : Closure} {args : Record Json}

/-- What a body node has at the start of a call was supplied before or is handed to the callback;
in either case an edge from outside or the start of the run is its source. -/
theorem start_cases (hl : p.Launch c start results id node entry frame rest)
    (hextract : Callback.extract p id entry.signature rest = .ok extraction)
    (hclosure : extraction.closures.get? name = some closure)
    (hframes : closure.frames args = .ok frames) {inner : Node} {called : Entry}
    (hcalls : p.Calls c other inner called) {key : String}
    (hkey : key ∈ called.signature.inputNames) (hsome : (frames.gathered other key).isSome) :
    (∃ value, p.supplied c start results other key = some value) ∨
      ∃ edge, (id, edge) ∈ p.edgesTo other key := by
  obtain ⟨callback, -, -, hseed, hinput, -⟩ := Callback.closure_of_extract hextract hclosure
  obtain ⟨hargs, rfl⟩ := Closure.frames_eq_ok hframes
  rcases (FrameQueue.isSome_gathered_bindings hargs).1 hsome with hsome | hpos
  · obtain ⟨value, hvalue⟩ := Option.isSome_iff_exists.1 hsome
    refine .inl ⟨value, hl.held hcalls hkey ?_⟩
    rw [hseed, FrameQueue.gathered, FrameQueue.get?_restrict] at hvalue
    split at hvalue
    · exact hvalue
    · cases hvalue
  · obtain ⟨b, hfound⟩ := List.exists_mem_of_length_pos hpos
    obtain ⟨hb, hat⟩ := List.mem_filter.1 hfound
    obtain ⟨rfl, rfl⟩ := of_decide_eq_true hat
    obtain ⟨edge, hedge, haddress⟩ := Callback.feeding_of_wireInputs hinput hb
    obtain ⟨node', hnode', hnext⟩ := Callback.mem_edgesOf.1 (List.mem_filter.1 hedge).1
    rw [haddress]
    exact .inr ⟨edge, mem_edgesTo.2 ⟨incoming_of_next hnode' hnext, rfl⟩⟩

/-- **The closures of a firing can be followed.** -/
theorem wired (hl : p.Launch c start results id node entry frame rest) (h : p.Wired c start)
    (hextract : Callback.extract p id entry.signature rest = .ok extraction)
    (hclosure : extraction.closures.get? name = some closure)
    (hframes : closure.frames args = .ok frames) (hnested : closure.program.Nested c) :
    closure.program.Wired c frames := by
  obtain ⟨-, -, hnodes, hseed, -, -⟩ := Callback.closure_of_extract hextract hclosure
  obtain ⟨-, hstart⟩ := Closure.frames_eq_ok hframes
  have hinside : ∀ {other}, other ∈ p.bodyOf id entry.signature → p.Inside c other :=
    fun hmem => ⟨id, node, entry, hl.calls, hmem⟩
  have hsound : closure.seed.Sound := hseed ▸ hl.sound.restrict _
  refine ⟨?_, ?_, ?_, ?_, ?_, ?_, hstart ▸ hsound.receiveAll _, hnested⟩
  · -- The nodes of the body and their functions are those of the program around it,
    intro other inner hinner
    rw [node?, hnodes, Callback.node?_bodyNodes] at hinner
    obtain ⟨hother, outer, houter, rfl⟩ := hinner
    obtain ⟨called, hcalled⟩ := h.known houter
    refine ⟨called, ?_, hcalled.entry_eq⟩
    rw [node?, hnodes, Callback.node?_bodyNodes]
    exact ⟨hother, outer, houter, rfl⟩
  · intro other inner called hcalls
    obtain ⟨-, outer, houter, -⟩ := calls_of_body hnodes hcalls
    exact h.separate houter
  · -- and their edges end in the body, because those to the site are left out.
    intro other inner called hcalls edge hedge
    obtain ⟨hother, outer, houter, rfl⟩ := calls_of_body hnodes hcalls
    obtain ⟨hnext, hne⟩ := List.mem_filter.1 hedge
    obtain ⟨target, targeted, htarget, haccepts⟩ := h.edges houter edge hnext
    have hmem := mem_bodyOf_of_next hother houter.node_eq hnext (of_decide_eq_true hne)
    obtain ⟨inner', hinner'⟩ := body_calls hnodes hmem htarget
    exact ⟨inner', targeted, hinner', haccepts⟩
  · intro other inner called hcalls key hkey e e' he he'
    obtain ⟨-, outer, houter, -⟩ := calls_of_body hnodes hcalls
    exact h.alone houter hkey (edgesTo_of_body hnodes he).1 (edgesTo_of_body hnodes he').1
  · -- A key with an edge from the body starts empty. Otherwise its value would have come along that
    -- one edge, or from the site as an argument of the callback.
    intro other inner called hcalls key hkey e he
    obtain ⟨-, outer, houter, rfl⟩ := calls_of_body hnodes hcalls
    obtain ⟨he, hsource⟩ := edgesTo_of_body hnodes he
    refine ⟨?_, (h.fed houter hkey he).2⟩
    by_contra hsome
    rcases hl.start_cases hextract hclosure hframes houter hkey (Option.isSome_iff_ne_none.2 hsome)
      with ⟨value, hvalue⟩ | ⟨edge, hedge⟩
    · -- The source lies in the body, so it has sent nothing.
      rw [h.supplied_of_edge houter hkey he] at hvalue
      exact hl.outer (isSome_of_sent (by rw [hvalue]; rfl)) (hinside hsource)
    · rw [← h.alone houter hkey he hedge] at hsource
      exact site_not_mem_bodyOf hsource
  · intro other inner called hcalls key hkey hsome
    obtain ⟨-, outer, houter, rfl⟩ := calls_of_body hnodes hcalls
    by_cases hedge : ∃ e, e ∈ p.edgesTo other key
    · obtain ⟨e, he⟩ := hedge
      exact (h.fed houter hkey he).2
    · push Not at hedge
      rcases hl.start_cases hextract hclosure hframes houter hkey hsome with
        ⟨value, hvalue⟩ | ⟨edge, hmem⟩
      · rw [supplied_of_no_edge hedge] at hvalue
        exact h.given houter hkey (by rw [hvalue]; rfl)
      · exact absurd hmem (hedge _)

/-- The outputs of a closure have distinct names. -/
theorem distinct (hl : p.Launch c start results id node entry frame rest) (h : p.Wired c start)
    (hextract : Callback.extract p id entry.signature rest = .ok extraction)
    (hclosure : extraction.closures.get? name = some closure) :
    closure.program.outputNames.Nodup := by
  obtain ⟨callback, hcallback, -, -, -, houtput⟩ := Callback.closure_of_extract hextract hclosure
  rw [outputNames, Callback.names_of_wireOutputs houtput]
  exact (h.separate hl.calls).given callback
    (List.mem_map.2 ⟨_, Record.mem_entries.2 hcallback, rfl⟩)

end Launch

end Program

end Dataflow

/-
Programs that differ only in the order of their nodes.

The order in which nodes are written decides which heads come first in line. Once the first frames
are there, it plays no part: nodes are found by their ids, and a callback body is listed in the
order in which it is walked. So extraction gives the same closures for similar programs.

* `Program.Similar` — the same bindings and the same node under every id;
* `Callback.extract_congr` — what an extraction depends on;
* `Callback.extract_similar` — similar programs have the same closures;
* `Callback.extract_sound` — the closures of a sound queue start from sound queues.
-/
import Mathlib
import Dataflow.Callback
import Dataflow.Proofs.FrameQueue
import Dataflow.Proofs.Record
namespace Dataflow

/-- A computation that succeeds has steps that succeed. -/
theorem Except.bind_eq_ok {ε α β : Type} {x : Except ε α} {f : α → Except ε β} {b : β}
    (h : x >>= f = .ok b) : ∃ a, x = .ok a ∧ f a = .ok b := by
  cases x with
  | error e => cases h
  | ok a => exact ⟨a, rfl, h⟩

/-- A computation that fails has a step that fails. -/
theorem Except.bind_eq_error {ε α β : Type} {x : Except ε α} {f : α → Except ε β} {e : ε}
    (h : x >>= f = .error e) : x = .error e ∨ ∃ a, x = .ok a ∧ f a = .error e := by
  cases x with
  | error e' =>
    cases h
    exact .inl rfl
  | ok a => exact .inr ⟨a, rfl, h⟩

/-- The same program up to the order of its nodes. -/
structure Program.Similar (p q : Program) : Prop where
  input : p.input = q.input
  output : p.output = q.output
  node? : ∀ id, p.node? id = q.node? id

namespace Program.Similar

variable {p q : Program}

theorem refl (p : Program) : p.Similar p := ⟨rfl, rfl, fun _ => rfl⟩

theorem perm (h : p.Similar q) : p.nodes.entries.Perm q.nodes.entries :=
  Table.perm_of_get? h.node?

theorem size_eq (h : p.Similar q) : p.size = q.size := h.perm.length_eq

private theorem length_edges (h : p.Similar q) : p.edges.length = q.edges.length :=
  (h.perm.flatMap_right _).length_eq

end Program.Similar

/-! ### Extraction -/

namespace Callback

variable {p q : Program} {site : String}

theorem edgesOf_congr {id : String} (h : p.node? id = q.node? id) :
    edgesOf p id = edgesOf q id := by
  rw [edgesOf, edgesOf, h]

section Ids

variable {ids : List String} (h : ∀ id ∈ ids, p.node? id = q.node? id)
include h

theorem exits_congr : exits p site ids = exits q site ids := by
  rw [exits, exits]
  exact List.filter_congr fun id hid => by rw [edgesOf_congr (h id hid)]

private theorem bodyNodes_congr : bodyNodes p site ids = bodyNodes q site ids := by
  rw [bodyNodes, bodyNodes]
  exact congrArg _ (List.filterMap_congr fun id hid => by rw [h id hid])

private theorem outputBinding?_congr (param : Param) :
    outputBinding? p site ids param = outputBinding? q site ids param := by
  rw [outputBinding?, outputBinding?]
  induction ids with
  | nil => rfl
  | cons id rest ih =>
    rw [List.findSome?_cons, List.findSome?_cons, edgesOf_congr (h id (List.mem_cons_self ..)),
      ih fun other hother => h other (List.mem_cons_of_mem id hother)]

private theorem wireOutputs_congr (callback : String) (params : List Param) :
    wireOutputs callback p site ids params = wireOutputs callback q site ids params := by
  induction params with
  | nil => rfl
  | cons param rest ih => rw [wireOutputs, wireOutputs, outputBinding?_congr h, ih]

/-- Closures depend on the nodes of the body only. -/
theorem closures_congr (feeding : List Edge) (seed : FrameQueue)
    (callbacks : List (String × CallbackSignature)) :
    closures p site feeding ids seed callbacks = closures q site feeding ids seed callbacks := by
  have hexits : ∀ id ∈ exits q site ids, p.node? id = q.node? id :=
    fun id hid => h id (List.mem_of_mem_filter hid)
  induction callbacks with
  | nil => rfl
  | cons callback rest ih =>
    rw [closures, closures, ih, exits_congr h, bodyNodes_congr h]
    simp only [wireOutputs_congr hexits]

end Ids

/-- So does a whole extraction, and on the call site. -/
theorem extract_congr {signature : Signature} (hsite : p.node? site = q.node? site)
    (hbody : body p site (feedingEdges q site signature) =
      body q site (feedingEdges q site signature))
    (hids : ∀ id ∈ body q site (feedingEdges q site signature), p.node? id = q.node? id)
    (frames : FrameQueue) : extract p site signature frames = extract q site signature frames := by
  have hfeeding : feedingEdges p site signature = feedingEdges q site signature := by
    rw [feedingEdges, feedingEdges, edgesOf_congr hsite]
  rw [extract, extract, hsite, hfeeding, hbody]
  simp only [closures_congr hids]

private theorem walk_similar (h : p.Similar q) (site : String) (fuel : Nat)
    (body line : List String) :
    walk p site fuel body line = walk q site fuel body line := by
  induction fuel generalizing body line with
  | zero => rfl
  | succ fuel ih =>
    cases line with
    | nil => rfl
    | cons id line => rw [walk, walk, ih, edgesOf_congr (h.node? id)]

private theorem body_similar (h : p.Similar q) (site : String) (feeding : List Edge) :
    body p site feeding = body q site feeding := by
  rw [body, body, walkBound, walkBound, h.length_edges, walk_similar h]

/-- Similar programs have the same closures. -/
theorem extract_similar (h : p.Similar q) (site : String) (signature : Signature)
    (frames : FrameQueue) :
    extract p site signature frames = extract q site signature frames :=
  extract_congr (h.node? site) (body_similar h ..) (fun id _ => h.node? id) frames

/-! ### Closures of an extraction -/

/-- The closures of a list of callbacks are made one after the other. -/
theorem closures_cons {feeding : List Edge} {body : List String} {seed : FrameQueue}
    {name : String} {callback : CallbackSignature} {rest : List (String × CallbackSignature)}
    {found : List (String × Closure)}
    (h : closures p site feeding body seed ((name, callback) :: rest) = .ok found) :
    ∃ input output more,
      wireInputs name feeding callback.input = .ok input ∧
      wireOutputs name p site (exits p site body) callback.output = .ok output ∧
      closures p site feeding body seed rest = .ok more ∧
      found = (name, ⟨name, ⟨input, output, bodyNodes p site body⟩, seed⟩) :: more := by
  rw [closures] at h
  obtain ⟨input, hin, h⟩ := Except.bind_eq_ok h
  obtain ⟨output, hout, h⟩ := Except.bind_eq_ok h
  obtain ⟨more, hmore, h⟩ := Except.bind_eq_ok h
  cases h
  exact ⟨input, output, more, hin, hout, hmore, rfl⟩

/-- What extraction puts under a name: a closure of that name that starts from the given frames. -/
theorem closures_mem {feeding : List Edge} {body : List String} {seed : FrameQueue}
    {callbacks : List (String × CallbackSignature)} {found : List (String × Closure)}
    (h : closures p site feeding body seed callbacks = .ok found) {name : String}
    {closure : Closure} (hmem : (name, closure) ∈ found) :
    closure.name = name ∧ closure.seed = seed := by
  induction callbacks generalizing found with
  | nil =>
    cases h
    cases hmem
  | cons callback rest ih =>
    obtain ⟨input, output, more, -, -, hmore, rfl⟩ := closures_cons h
    rcases List.mem_cons.1 hmem with heq | hmem
    · cases heq
      exact ⟨rfl, rfl⟩
    · exact ih hmore hmem

/-- An extraction is empty, or it covers the body that the feeding edges lead to. -/
theorem extract_eq_ok {signature : Signature} {frames : FrameQueue} {extraction : Extraction}
    (h : extract p site signature frames = .ok extraction) :
    extraction = ⟨.empty, []⟩ ∨
      ∃ found,
        closures p site (feedingEdges p site signature)
          (body p site (feedingEdges p site signature))
          (frames.restrict (body p site (feedingEdges p site signature)))
          signature.callbacks.entries = .ok found ∧
        extraction = ⟨.ofList found, body p site (feedingEdges p site signature)⟩ := by
  rw [extract] at h
  split at h
  · left
    cases h
    rfl
  · right
    obtain ⟨found, hfound, h⟩ := Except.bind_eq_ok h
    cases h
    exact ⟨found, hfound, rfl⟩

end Callback

/-- Closures that stand under their names and start from sound queues. -/
def Closure.AllSound (closures : Record Closure) : Prop :=
  ∀ name closure, closures.get? name = some closure → closure.name = name ∧ closure.seed.Sound

theorem Callback.extract_sound {p : Program} {site : String} {signature : Signature}
    {frames : FrameQueue} {extraction : Extraction} (hframes : frames.Sound)
    (h : extract p site signature frames = .ok extraction) :
    Closure.AllSound extraction.closures := by
  intro name closure hclosure
  obtain rfl | ⟨found, hfound, rfl⟩ := extract_eq_ok h
  · cases hclosure
  · rw [Record.get?_ofList_reverse] at hclosure
    obtain ⟨hname, hseed⟩ :=
      closures_mem hfound (List.mem_reverse.1 (Entries.mem_of_lookup hclosure))
    exact ⟨hname, hseed ▸ hframes.restrict _⟩

end Dataflow

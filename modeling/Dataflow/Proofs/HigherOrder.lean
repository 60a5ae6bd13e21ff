/-
Array functions with a callback, as functions on lists.

When the body of a callback is over deterministic functions and there is no cache, each call of it
ends as a lone call would, whatever was called before. Then the functions that call it item by item
are list functions: what the callback does alone with an item is a function of the item, which may
fail, and mapping, filtering, searching and folding an array is doing so with that function.

* `Library.lone` — what a call gives by itself;
* `Library.mapItems_ends`, `Library.filterItems_ends`, `Library.foldItems_ends` — the functions that
  go through all items;
* `Library.findItem_skips` — the search, which goes no further than the item that decides it;
* `Library.Finds` — what a search has to give, and for which items it may call the callback.
-/
import Mathlib
import Dataflow.Proofs.Determinism
import Dataflow.Proofs.Dialogue
namespace Dataflow

namespace Library

open Script

variable {answer : String → Record Json → Run (Record Json)}

/-! ### Lone calls -/

/-- What the callback gives for the arguments when nothing was run before. -/
def lone (answer : String → Record Json → Run (Record Json)) (args : List (String × Json)) :
    Except Halt Json :=
  (consultation answer args ⟨none, #[], #[], default⟩).value

/-- Every call of the callback ends in one way. -/
def Constant (answer : String → Record Json → Run (Record Json)) : Prop :=
  ∀ args, ∃ outcome, (answer "cb" args).Ends outcome

/-- **Every consultation is as good as a lone one.** -/
theorem Constant.value_eq (h : Constant answer) (args : List (String × Json)) {s : Session}
    (hs : s.cache = none) : (consultation answer args s).value = lone answer args := by
  obtain ⟨outcome, hends⟩ := h (.ofList args)
  rw [lone, consultation, consultation, (hends s hs).1, (hends ⟨none, #[], #[], default⟩ rfl).1]

private theorem consult_ends (h : Constant answer) (args : List (String × Json)) :
    ((consult args).perform answer).Ends (lone answer args) := by
  intro s hs
  obtain ⟨outcome, hends⟩ := h (.ofList args)
  rw [perform_consult, h.value_eq args hs]
  exact ⟨rfl, (hends s hs).2⟩

private theorem ends_bind {α β : Type} {script : Script α} {f : α → Script β}
    {outcome : Except Halt α} {g : α → Except Halt β} (h : (script.perform answer).Ends outcome)
    (hf : ∀ a, ((f a).perform answer).Ends (g a)) :
    ((script >>= f).perform answer).Ends (outcome >>= g) := by
  rw [perform_bind]
  exact h.andThen fun a _ => hf a

private theorem ends_map {α β : Type} {script : Script α} {outcome : Except Halt α}
    (h : (script.perform answer).Ends outcome) (f : α → β) :
    ((script >>= fun a => .done (f a)).perform answer).Ends (outcome.map f) := by
  rw [perform_bind]
  cases outcome with
  | error halt => exact h.andThen (g := fun _ => .error halt) fun a ha => (by cases ha)
  | ok b => exact h.andThen (g := fun a => .ok (f a)) fun a _ => Run.ends_result (f a)

/-! ### Functions that go through all items -/

/-- What the callback gives for an item alone. -/
def loneItem (answer : String → Record Json → Run (Record Json)) (item : Json) :
    Except Halt Json :=
  lone answer [("item", item)]

theorem mapItems_ends (h : Constant answer) (items : List Json) :
    ((mapItems items).perform answer).Ends (items.mapM (loneItem answer)) := by
  induction items with
  | nil => exact Run.ends_result []
  | cons item rest ih =>
    rw [List.mapM_cons]
    exact ends_bind (consult_ends h _) fun answer =>
      ends_bind ih fun answers => Run.ends_result (answer :: answers)

/-- The callback says yes to the item. -/
def passes (g : Json → Except Halt Json) (item : Json) : Bool :=
  match g item with
  | .ok answer => truthy answer
  | .error _ => false

private theorem passes_iff {g : Json → Except Halt Json} {item : Json} :
    passes g item = true ↔ ∃ answer, g item = .ok answer ∧ truthy answer = true := by
  rw [passes]
  cases g item <;> simp

private theorem passes_of_ok {g : Json → Except Halt Json} {item answer : Json}
    (h : g item = .ok answer) : passes g item = truthy answer := by
  rw [passes, h]

theorem filterItems_ends (h : Constant answer) (items : List Json) :
    ((filterItems items).perform answer).Ends
      ((items.mapM (loneItem answer)).map fun _ => items.filter (passes (loneItem answer))) := by
  induction items with
  | nil => exact Run.ends_result []
  | cons item rest ih =>
    have hstep : ((item :: rest).mapM (loneItem answer)).map
        (fun _ => (item :: rest).filter (passes (loneItem answer))) =
          loneItem answer item >>= fun reply => (rest.mapM (loneItem answer)).map
            (fun _ => rest.filter (passes (loneItem answer))) >>= fun kept =>
              .ok (if truthy reply then item :: kept else kept) := by
      rw [List.mapM_cons]
      cases hitem : loneItem answer item with
      | error halt => rfl
      | ok reply =>
        rw [List.filter_cons, passes_of_ok hitem]
        cases rest.mapM (loneItem answer) <;> rfl
    rw [hstep]
    exact ends_bind (consult_ends h _) fun reply => ends_bind ih fun kept => Run.ends_result _

theorem foldItems_ends (h : Constant answer) (acc : Json) (items : List Json) :
    ((foldItems acc items).perform answer).Ends
      (items.foldlM (fun prev item => lone answer [("prev", prev), ("item", item)]) acc) := by
  induction items generalizing acc with
  | nil => exact Run.ends_result acc
  | cons item rest ih =>
    rw [List.foldlM_cons]
    exact ends_bind (consult_ends h _) ih

/-- The left fold of lone calls, from the first item. -/
def foldAll (answer : String → Record Json → Run (Record Json)) :
    List Json → Except Halt Json
  | [] => .error (.failed (.executionFailed "reduce of an empty array"))
  | first :: rest =>
    rest.foldlM (fun prev item => lone answer [("prev", prev), ("item", item)]) first

/-! ### The search -/

/-- The callback says no to the item. -/
def Rejects (g : Json → Except Halt Json) (item : Json) : Prop :=
  ∃ answer, g item = .ok answer ∧ truthy answer = false

/-- The search comes to the item at the position: all items before it are rejected. -/
def ComesTo (g : Json → Except Halt Json) (items : List Json) (i : Nat) (item : Json) : Prop :=
  ∃ before after, items = before ++ item :: after ∧ before.length = i ∧ ∀ x ∈ before, Rejects g x

/-- Something decides the search, or nothing does. -/
theorem search_cases (g : Json → Except Halt Json) (items : List Json) :
    (∃ i item, ComesTo g items i item ∧ (passes g item = true ∨ ∃ halt, g item = .error halt)) ∨
      ∀ x ∈ items, Rejects g x := by
  induction items with
  | nil => exact .inr fun x hx => absurd hx List.not_mem_nil
  | cons item rest ih =>
    have hfirst : ComesTo g (item :: rest) 0 item :=
      ⟨[], rest, rfl, rfl, fun x hx => absurd hx List.not_mem_nil⟩
    cases hitem : g item with
    | error halt => exact .inl ⟨0, item, hfirst, .inr ⟨halt, hitem⟩⟩
    | ok answer =>
      cases hanswer : truthy answer with
      | true => exact .inl ⟨0, item, hfirst, .inl (passes_of_ok hitem ▸ hanswer)⟩
      | false =>
        have hreject : Rejects g item := ⟨answer, hitem, hanswer⟩
        rcases ih with ⟨i, other, ⟨before, after, rfl, rfl, hbefore⟩, hother⟩ | hrest
        · exact .inl ⟨before.length + 1, other, ⟨item :: before, after, rfl, rfl,
            List.forall_mem_cons.2 ⟨hreject, hbefore⟩⟩, hother⟩
        · exact .inr (List.forall_mem_cons.2 ⟨hreject, hrest⟩)

/-- Without a cache, the script has the outcome and makes the calls. -/
def Proceeds {α : Type} (answer : String → Record Json → Run (Record Json)) (script : Script α)
    (outcome : Except Halt α) (calls : List (Record Json)) : Prop :=
  (script.perform answer).Ends outcome ∧
    ∀ s, s.cache = none → (script.dialogue answer s).map Exchange.args = calls

private theorem proceeds_done {α : Type} (a : α) : Proceeds answer (.done a) (.ok a) [] :=
  ⟨Run.ends_result a, fun _ _ => rfl⟩

theorem Proceeds.bind {α β : Type} {script : Script α} {f : α → Script β} {a : α}
    {outcome : Except Halt β} {calls calls' : List (Record Json)}
    (h : Proceeds answer script (.ok a) calls) (hf : Proceeds answer (f a) outcome calls') :
    Proceeds answer (script >>= f) outcome (calls ++ calls') := by
  refine ⟨?_, fun s hs => ?_⟩
  · rw [perform_bind]
    exact h.1.andThen (g := fun _ => outcome) fun b hb => Except.ok.inj hb ▸ hf.1
  · obtain ⟨houtcome, hcache⟩ := h.1 s hs
    have hrun : script.perform answer s = (.ok a, (script.perform answer s).2) :=
      Prod.ext houtcome rfl
    rw [dialogue_bind, Run.collect_of_ok hrun, List.map_append, h.2 s hs, hf.2 _ hcache]

private theorem Proceeds.bind_error {α β : Type} {script : Script α} {f : α → Script β}
    {halt : Halt} {calls : List (Record Json)} (h : Proceeds answer script (.error halt) calls) :
    Proceeds answer (script >>= f) (.error halt) calls := by
  refine ⟨?_, fun s hs => ?_⟩
  · rw [perform_bind]
    exact h.1.andThen (g := fun _ => .error halt) fun b hb => (by cases hb)
  · have hrun : script.perform answer s = (.error halt, (script.perform answer s).2) :=
      Prod.ext (h.1 s hs).1 rfl
    rw [dialogue_bind, Run.collect_of_error hrun, List.append_nil, h.2 s hs]

/-- The arguments of a call for an item. -/
def itemArgs (item : Json) : Record Json := .ofList [("item", item)]

private theorem consultItem_proceeds (h : Constant answer) (item : Json) :
    Proceeds answer (consultItem item) (loneItem answer item) [itemArgs item] :=
  ⟨consult_ends h _, fun s _ => by rw [consultItem, dialogue_consult]; rfl⟩

/-- The search passes over items that are rejected. -/
theorem findItem_skips (h : Constant answer) {before rest : List Json}
    (hbefore : ∀ x ∈ before, Rejects (loneItem answer) x) {start : Nat}
    {outcome : Except Halt (Option (Nat × Json))} {calls : List (Record Json)}
    (hrest : Proceeds answer (findItem (start + before.length) rest) outcome calls) :
    Proceeds answer (findItem start (before ++ rest)) outcome (before.map itemArgs ++ calls) := by
  induction before generalizing start with
  | nil => exact hrest
  | cons x before ih =>
    obtain ⟨⟨reply, hreply, hfalsy⟩, hbefore⟩ := List.forall_mem_cons.1 hbefore
    rw [List.length_cons, Nat.add_comm before.length, ← Nat.add_assoc] at hrest
    have hx := consultItem_proceeds h x
    rw [hreply] at hx
    refine hx.bind (f := fun reply =>
      if truthy reply then pure (some (start, x)) else findItem (start + 1) (before ++ rest)) ?_
    rw [hfalsy]
    exact ih hbefore hrest

/-- The first item that the callback says yes to ends the search, -/
theorem findItem_found (h : Constant answer) {item : Json}
    (hpass : passes (loneItem answer) item = true) (start : Nat) (after : List Json) :
    Proceeds answer (findItem start (item :: after)) (.ok (some (start, item)))
      [itemArgs item] := by
  obtain ⟨reply, hreply, htruthy⟩ := passes_iff.1 hpass
  have hitem := consultItem_proceeds h item
  rw [hreply] at hitem
  refine hitem.bind (f := fun reply =>
    if truthy reply then pure (some (start, item)) else findItem (start + 1) after) ?_
  rw [htruthy]
  exact proceeds_done (some (start, item))

/-- and so does the first failure. -/
theorem findItem_failed (h : Constant answer) {item : Json} {halt : Halt}
    (hfail : loneItem answer item = .error halt) (start : Nat) (after : List Json) :
    Proceeds answer (findItem start (item :: after)) (.error halt) [itemArgs item] :=
  Proceeds.bind_error (hfail ▸ consultItem_proceeds h item)

/-- The item that was found. -/
def foundItem : Option (Nat × Json) → Json
  | some (_, item) => item
  | none => .null

/-- The position of the item that was found. -/
def foundIndex : Option (Nat × Json) → Json
  | some (i, _) => .ofNat i
  | none => .null

/-- What a search gives, told by a report of the item that was found, and the calls it makes: none
after the item that decides it. -/
structure Finds (g : Json → Except Halt Json) (items : List Json)
    (report : Option (Nat × Json) → Outputs) (outcome : Except Halt Outputs)
    (calls : List (Record Json)) : Prop where
  found : ∀ i item, ComesTo g items i item → passes g item = true →
    outcome = .ok (report (some (i, item))) ∧ calls = (items.take (i + 1)).map itemArgs
  absent : (∀ x ∈ items, Rejects g x) →
    outcome = .ok (report none) ∧ calls = items.map itemArgs
  failed : ∀ i item halt, ComesTo g items i item → g item = .error halt →
    outcome = .error halt ∧ calls = (items.take (i + 1)).map itemArgs

private theorem map_take_position (before after : List Json) (item : Json) :
    ((before ++ item :: after).take (before.length + 1)).map itemArgs =
      before.map itemArgs ++ [itemArgs item] := by
  simp [List.take_append]

/-- **A search finds what it has to find.** -/
theorem findItem_finds (h : Constant answer) (items : List Json) (key : String)
    (f : Option (Nat × Json) → Json) {s : Session} (hs : s.cache = none) {script : Script Outputs}
    (hscript : script = (findItem 0 items >>= fun found => .done (f found)) >>= fun value =>
      .done (single key value)) :
    Finds (loneItem answer) items (fun found => single key (f found)) (script.perform answer s).1
      ((script.dialogue answer s).map Exchange.args) := by
  have hok : ∀ {found calls}, Proceeds answer (findItem 0 items) (.ok found) calls →
      (script.perform answer s).1 = .ok (single key (f found)) ∧
        (script.dialogue answer s).map Exchange.args = calls := by
    intro found calls hfind
    have hdone := (hfind.bind (f := fun found => .done (f found)) (proceeds_done _)).bind
      (f := fun value => .done (single key value)) (proceeds_done _)
    rw [← hscript, List.append_nil, List.append_nil] at hdone
    exact ⟨(hdone.1 s hs).1, hdone.2 s hs⟩
  have herror : ∀ {halt calls}, Proceeds answer (findItem 0 items) (.error halt) calls →
      (script.perform answer s).1 = .error halt ∧
        (script.dialogue answer s).map Exchange.args = calls := by
    intro halt calls hfind
    rw [hscript]
    exact ⟨(hfind.bind_error.bind_error.1 s hs).1, hfind.bind_error.bind_error.2 s hs⟩
  refine ⟨?_, fun hreject => hok ?_, ?_⟩
  · rintro i item ⟨before, after, rfl, rfl, hbefore⟩ hpass
    rw [map_take_position]
    refine hok (findItem_skips h hbefore ?_)
    rw [Nat.zero_add]
    exact findItem_found h hpass _ after
  · have hnone : Proceeds answer (findItem 0 (items ++ [])) _ (items.map itemArgs ++ []) :=
      findItem_skips h hreject (proceeds_done none)
    rwa [List.append_nil, List.append_nil] at hnone
  · rintro i item halt ⟨before, after, rfl, rfl, hbefore⟩ hfail
    rw [map_take_position]
    exact herror (findItem_skips h hbefore (findItem_failed h hfail _ after))

section Finds

variable {g : Json → Except Halt Json} {items : List Json} {outcome : Except Halt Outputs}
  {calls : List (Record Json)}

/-- The search fails in no other way. -/
theorem Finds.error_iff {report : Option (Nat × Json) → Outputs}
    (h : Finds g items report outcome calls) (halt : Halt) :
    outcome = .error halt ↔ ∃ i item, ComesTo g items i item ∧ g item = .error halt := by
  refine ⟨fun houtcome => ?_, fun ⟨i, item, hcomes, hfail⟩ => (h.failed i item halt hcomes hfail).1⟩
  rcases search_cases g items with ⟨i, item, hcomes, hpass | ⟨halt', hfail⟩⟩ | hreject
  · cases houtcome.symm.trans (h.found i item hcomes hpass).1
  · cases houtcome.symm.trans (h.failed i item halt' hcomes hfail).1
    exact ⟨i, item, hcomes, hfail⟩
  · cases houtcome.symm.trans (h.absent hreject).1

/-- What is reported as a position is one. -/
theorem Finds.index_iff
    (h : Finds g items (fun found => single "index" (foundIndex found)) outcome calls) :
    (∀ i, outcome = .ok (single "index" (.ofNat i)) ↔
      ∃ item, ComesTo g items i item ∧ passes g item = true) ∧
    (outcome = .ok (single "index" .null) ↔ ∀ x ∈ items, Rejects g x) := by
  have hindex : ∀ found, outcome = .ok (single "index" (foundIndex found)) →
      ∀ value, outcome = .ok (single "index" value) → value = foundIndex found :=
    fun found hfound value hvalue => single_injective (Except.ok.inj (hvalue.symm.trans hfound))
  refine ⟨fun i => ⟨fun houtcome => ?_, ?_⟩, fun houtcome => ?_,
    fun hreject => (h.absent hreject).1⟩
  · rcases search_cases g items with ⟨j, item, hcomes, hpass | ⟨halt', hfail⟩⟩ | hreject
    · have hsame : (i : Int) = j := Number.integer.inj
        (Json.number.inj (hindex _ (h.found j item hcomes hpass).1 _ houtcome))
      rw [Int.ofNat_inj.1 hsame]
      exact ⟨item, hcomes, hpass⟩
    · cases houtcome.symm.trans (h.failed j item halt' hcomes hfail).1
    · cases hindex _ (h.absent hreject).1 _ houtcome
  · rintro ⟨item, hcomes, hpass⟩
    exact (h.found i item hcomes hpass).1
  · rcases search_cases g items with ⟨j, item, hcomes, hpass | ⟨halt', hfail⟩⟩ | hreject
    · cases hindex _ (h.found j item hcomes hpass).1 _ houtcome
    · cases houtcome.symm.trans (h.failed j item halt' hcomes hfail).1
    · exact hreject

private theorem ok_of_map {α β : Type} {x : Except Halt α} {f : α → β} {b : β}
    (h : x.map f = .ok b) : ∃ a, x = .ok a ∧ f a = b := by
  cases x with
  | error halt => cases h
  | ok a => exact ⟨a, rfl, Except.ok.inj h⟩

private theorem exists_ok_of_mapM {answers : List Json} (h : items.mapM g = .ok answers) :
    ∀ x ∈ items, ∃ answer, g x = .ok answer := by
  induction items generalizing answers with
  | nil => exact fun x hx => absurd hx List.not_mem_nil
  | cons item rest ih =>
    rw [List.mapM_cons] at h
    obtain ⟨answer, hitem, h⟩ := Except.bind_eq_ok h
    obtain ⟨others, hrest, -⟩ := Except.bind_eq_ok h
    exact List.forall_mem_cons.2 ⟨⟨answer, hitem⟩, ih hrest⟩

/-- **What is found first is the first that is kept**, if all items can be asked about. -/
theorem Finds.eq_head (h : Finds g items (fun found => single "result" (foundItem found)) outcome
    calls) (hall : ∀ x ∈ items, ∃ answer, g x = .ok answer) :
    outcome = .ok (single "result" ((items.filter (passes g)).head?.getD .null)) := by
  have hno : ∀ x, Rejects g x → ¬ passes g x = true := by
    rintro x ⟨answer, hx, hfalsy⟩ hpass
    rw [passes_of_ok hx, hfalsy] at hpass
    cases hpass
  rcases search_cases g items with ⟨i, item, hcomes, hpass | ⟨halt, hfail⟩⟩ | hreject
  · rw [(h.found i item hcomes hpass).1]
    obtain ⟨before, after, rfl, -, hbefore⟩ := hcomes
    rw [List.filter_append, List.filter_eq_nil_iff.2 fun x hx => hno x (hbefore x hx),
      List.nil_append, List.filter_cons_of_pos hpass]
    rfl
  · obtain ⟨before, after, rfl, -, -⟩ := hcomes
    obtain ⟨answer, hitem⟩ := hall item (List.mem_append_right _ (List.mem_cons_self ..))
    cases hfail.symm.trans hitem
  · rw [(h.absent hreject).1, List.filter_eq_nil_iff.2 fun x hx => hno x (hreject x hx)]
    rfl

end Finds

end Library

/-! ### Nodes -/

namespace Host.Turn

open Library Script

variable {host : Host} {p : Program} {frames : FrameQueue}

/-- How the callbacks of the node are run. -/
def answer (turn : host.Turn p frames) (depth : Nat) (caller : String) :
    String → Record Json → Run (Record Json) :=
  callClosure (host.execute depth) turn.extraction.closures caller

/-- How the call of the node ends. -/
def outcome (turn : host.Turn p frames) (depth : Nat) (caller : String) (s : Session) :
    Except Halt Outputs :=
  (host.invokeCached (host.execute depth) turn.node.function turn.entry turn.args
    turn.extraction.closures caller s).1

/-- The arguments of the calls that the function of the node makes. -/
def calls (turn : host.Turn p frames) (depth : Nat) (caller : String) (s : Session) :
    List (Record Json) :=
  match turn.entry with
  | .native _ runner =>
    ((runner turn.args turn.extraction.closures.names).dialogue (turn.answer depth caller) s).map
      Exchange.args
  | .program _ _ => []

variable {turn : host.Turn p frames} {depth : Nat} {caller : String} {s : Session}

private theorem outcome_of_native {signature : Signature} {runner : Runner}
    (hentry : turn.entry = .native signature runner) (hs : s.cache = none) :
    turn.outcome depth caller s =
      ((runner turn.args turn.extraction.closures.names).perform
        (turn.answer depth caller) s).1 := by
  have hkey : cacheKey? s.cache turn.node.function turn.args turn.extraction.closures = none := by
    rw [hs]
    rfl
  rw [outcome, invokeCached_of_none hkey, hentry]
  rfl

private theorem calls_of_native {signature : Signature} {runner : Runner}
    (hentry : turn.entry = .native signature runner) :
    turn.calls depth caller s =
      ((runner turn.args turn.extraction.closures.names).dialogue (turn.answer depth caller)
        s).map Exchange.args := by
  rw [calls, hentry]

/-- The node is about to apply a function of the library to an array and to a callback whose body is
over deterministic functions. -/
structure Applies (turn : host.Turn p frames) (name : String) (items : List Json) : Prop where
  entry : Library.catalog.get? name = some turn.entry
  items : turn.args.get? "arr" = some (.array items)
  body : ∀ closure, turn.extraction.closures.get? "cb" = some closure →
    closure.program.Deterministic host.catalog

variable {name : String} {items : List Json}

private theorem Applies.constant (h : turn.Applies name items) :
    Constant (turn.answer depth caller) :=
  fun args => host.callClosure_ends depth h.body caller args

private theorem Applies.exists_runner (h : turn.Applies name items) :
    ∃ signature runner, turn.entry = .native signature runner ∧
      Library.catalog.get? name = some (.native signature runner) := by
  obtain ⟨function, -, -, hentry⟩ := get?_catalog h.entry
  exact ⟨function.signature, function.runner, hentry, hentry ▸ h.entry⟩

/-- A function that hands on what its array and its callback come to. -/
theorem Applies.outcome_eq (h : turn.Applies name items) (hs : s.cache = none) (output : Param)
    (input : List Param) (type : ValueType) {f : List Json → Script Json}
    (hlibrary : Library.catalog.get? name = some
      (.native (withCallback name output input type f).signature
        (withCallback name output input type f).runner)) {value : Except Halt Json}
    (hends : ((f items).perform (turn.answer depth caller)).Ends value) :
    turn.outcome depth caller s = value.map (single output.name) := by
  obtain ⟨signature, runner, hentry, hname⟩ := h.exists_runner
  rw [outcome_of_native hentry hs,
    runner_of_withCallback name output input type hlibrary hname h.items,
    (ends_map hends (single output.name) s hs).1]

private theorem outcome_map (h : turn.Applies "array.map" items) (hs : s.cache = none) :
    turn.outcome depth caller s = (items.mapM (loneItem (turn.answer depth caller))).map
      fun answers => single "arr" (.array answers) := by
  rw [h.outcome_eq hs ⟨"arr", .arrayOf (.auto "O")⟩ itemParam (.auto "O") rfl
    (ends_map (mapItems_ends h.constant items) Json.array)]
  cases items.mapM (loneItem (turn.answer depth caller)) <;> rfl

private theorem outcome_filter (h : turn.Applies "array.filter" items) (hs : s.cache = none) :
    turn.outcome depth caller s = (items.mapM (loneItem (turn.answer depth caller))).map
      fun _ => single "arr"
        (.array (items.filter (passes (loneItem (turn.answer depth caller))))) := by
  rw [h.outcome_eq hs ⟨"arr", itemArray⟩ itemParam .bool rfl
    (ends_map (filterItems_ends h.constant items) Json.array)]
  cases items.mapM (loneItem (turn.answer depth caller)) <;> rfl

private theorem outcome_reduce (h : turn.Applies "array.reduce" items) (hs : s.cache = none) :
    turn.outcome depth caller s =
      (foldAll (turn.answer depth caller) items).map (single "out") := by
  refine h.outcome_eq hs ⟨"out", .auto "I"⟩ [⟨"prev", .auto "I"⟩, ⟨"item", .auto "I"⟩] (.auto "O")
    rfl ?_
  cases items with
  | nil => exact Run.ends_halt _
  | cons first rest => exact foldItems_ends h.constant first rest

/-- A function that reports what a search has found. -/
theorem Applies.finds (h : turn.Applies name items) (hs : s.cache = none) (output : Param)
    (input : List Param) (type : ValueType) {f : Option (Nat × Json) → Json}
    (hlibrary : Library.catalog.get? name = some
      (.native (withCallback name output input type fun items =>
          findItem 0 items >>= fun found => .done (f found)).signature
        (withCallback name output input type fun items =>
          findItem 0 items >>= fun found => .done (f found)).runner)) :
    Finds (loneItem (turn.answer depth caller)) items (fun found => single output.name (f found))
      (turn.outcome depth caller s) (turn.calls depth caller s) := by
  obtain ⟨signature, runner, hentry, hname⟩ := h.exists_runner
  rw [outcome_of_native hentry hs, calls_of_native hentry]
  exact findItem_finds h.constant items output.name f hs
    (runner_of_withCallback name output input type hlibrary hname h.items _)

private theorem finds_find (h : turn.Applies "array.find" items) (hs : s.cache = none) :
    Finds (loneItem (turn.answer depth caller)) items
      (fun found => single "result" (foundItem found)) (turn.outcome depth caller s)
      (turn.calls depth caller s) :=
  h.finds hs ⟨"result", .oneOf (.auto "I") .nil⟩ itemParam .bool rfl

private theorem finds_findIndex (h : turn.Applies "array.findIndex" items) (hs : s.cache = none) :
    Finds (loneItem (turn.answer depth caller)) items
      (fun found => single "index" (foundIndex found)) (turn.outcome depth caller s)
      (turn.calls depth caller s) :=
  h.finds hs ⟨"index", .oneOf .num .nil⟩ itemParam .bool rfl

/-- **The array functions with a callback agree with the list functions and with each other.**
Without a cache, what the callback gives for an item alone it gives whenever it is called, and the
outcome of each function is that of its list function. -/
theorem agrees_with_lists (turn : host.Turn p frames) (depth : Nat) (caller : String) {s : Session}
    (hs : s.cache = none) (items : List Json) :
    let answer := turn.answer depth caller
    let g := loneItem answer
    let outcome := turn.outcome depth caller s
    let calls := turn.calls depth caller s
    (∀ name, turn.Applies name items → ∀ args s', s'.cache = none →
      (consultation answer args s').value = lone answer args) ∧
    (turn.Applies "array.map" items →
      outcome = (items.mapM g).map fun answers => single "arr" (.array answers)) ∧
    (turn.Applies "array.filter" items →
      outcome = (items.mapM g).map fun _ => single "arr" (.array (items.filter (passes g)))) ∧
    (turn.Applies "array.findIndex" items →
      (∀ i, outcome = .ok (single "index" (.ofNat i)) ↔
        ∃ item, ComesTo g items i item ∧ passes g item = true) ∧
      (outcome = .ok (single "index" .null) ↔ ∀ x ∈ items, Rejects g x) ∧
      (∀ halt, outcome = .error halt ↔
        ∃ i item, ComesTo g items i item ∧ g item = .error halt) ∧
      Finds g items (fun found => single "index" (foundIndex found)) outcome calls) ∧
    (turn.Applies "array.find" items →
      (∀ halt, outcome = .error halt ↔
        ∃ i item, ComesTo g items i item ∧ g item = .error halt) ∧
      Finds g items (fun found => single "result" (foundItem found)) outcome calls) ∧
    (turn.Applies "array.reduce" items →
      outcome = (foldAll answer items).map (single "out")) ∧
    (turn.Applies "array.filter" items → ∀ kept, outcome = .ok (single "arr" (.array kept)) →
      ∀ {p' : Program} {frames' : FrameQueue} (other : host.Turn p' frames') (depth' : Nat)
        (caller' : String) (s' : Session), s'.cache = none → other.Applies "array.find" items →
        (∀ item ∈ items, loneItem (other.answer depth' caller') item = g item) →
        other.outcome depth' caller' s' = .ok (single "result" (kept.head?.getD .null))) := by
  intro answer g outcome calls
  refine ⟨fun name h args s' hs' => h.constant.value_eq args hs', fun h => outcome_map h hs,
    fun h => outcome_filter h hs, fun h => ?_, fun h => ?_, fun h => outcome_reduce h hs, ?_⟩
  · have hfinds : Finds g items _ outcome calls := finds_findIndex h hs
    exact ⟨hfinds.index_iff.1, hfinds.index_iff.2, hfinds.error_iff, hfinds⟩
  · have hfinds : Finds g items _ outcome calls := finds_find h hs
    exact ⟨hfinds.error_iff, hfinds⟩
  · intro h kept hkept p' frames' other depth' caller' s' hs' hfind hsame
    have hfilter : outcome = _ := outcome_filter h hs
    rw [hfilter] at hkept
    obtain ⟨answers, hanswers, hsingle⟩ := ok_of_map hkept
    have hfinds : Finds (loneItem (other.answer depth' caller')) items _ _ _ := finds_find hfind hs'
    have hall : ∀ x ∈ items, ∃ reply, loneItem (other.answer depth' caller') x = .ok reply := by
      intro x hx
      rw [hsame x hx]
      exact exists_ok_of_mapM hanswers x hx
    have hpasses : ∀ x ∈ items, passes (loneItem (other.answer depth' caller')) x = passes g x :=
      fun x hx => by rw [passes, passes, hsame x hx]
    rw [hfinds.eq_head hall, List.filter_congr hpasses, Json.array.inj (single_injective hsingle)]

/-- The node of the first frame, if it is about to fire. -/
def first? (host : Host) (p : Program) (frames : FrameQueue) : Option (host.Turn p frames) :=
  match popped : frames.pop? with
  | none => none
  | some ((id, frame), rest) =>
    match node_eq : p.node? id with
    | none => none
    | some node =>
      match entry_eq : host.catalog.get? node.function with
      | none => none
      | some entry =>
        if ready : node.isReady entry.signature frame = true then
          match extracted : Callback.extract p id entry.signature rest with
          | .error _ => none
          | .ok extraction =>
            some ⟨id, frame, rest, node, entry, extraction, popped, node_eq, entry_eq, ready,
              extracted⟩
        else none

end Host.Turn

/-- An array is filtered and searched with the same question, which has a body for each. -/
def picking (items : List Json) : Program where
  input := []
  output := [⟨"kept", ⟨"keep", "arr"⟩, .arrayOf .any⟩, ⟨"found", ⟨"seek", "result"⟩, .any⟩]
  nodes := .ofList [
    ("keep", ⟨"array.filter", [⟨"test", "item", "condition"⟩], .ofList [("arr", .array items)]⟩),
    ("test", ⟨"ctrl.if", [⟨"keep", "data", "callback"⟩],
      .ofList [("true", .bool true), ("false", .bool false)]⟩),
    ("seek", ⟨"array.find", [⟨"check", "item", "condition"⟩], .ofList [("arr", .array items)]⟩),
    ("check", ⟨"ctrl.if", [⟨"seek", "data", "callback"⟩],
      .ofList [("true", .bool true), ("false", .bool false)]⟩)]

/-- The filter keeps an empty array and a flag, and the search stops at the empty array. -/
theorem Host.Turn.agrees_with_lists_picking :
    let host : Host := ⟨Library.catalog, 10, fun _ => none⟩
    let items : List Json := [.null, .array [], .bool false, .bool true]
    let s : Session := ⟨none, #[], #[], default⟩
    ∃ (keep : host.Turn (picking items) (FrameQueue.empty.ensure "keep"))
      (seek : host.Turn (picking items) (FrameQueue.empty.ensure "seek")),
      keep.Applies "array.filter" items ∧ seek.Applies "array.find" items ∧
      keep.outcome 2 "" s = .ok (Library.single "arr" (.array [.array [], .bool true])) ∧
      seek.outcome 2 "" s = .ok (Library.single "result" (.array [])) := by
  intro host items s
  have hkeep : (first? host (picking items) (FrameQueue.empty.ensure "keep")).map (fun turn =>
      (turn.node.function, turn.args.get? "arr", items.map (Library.loneItem (turn.answer 2 "")))) =
        some ("array.filter", some (.array items),
          [.ok (.bool false), .ok (.bool true), .ok (.bool false), .ok (.bool true)]) := by
    decide +kernel
  have hkept : (first? host (picking items) (FrameQueue.empty.ensure "keep")).map
      (fun turn => turn.outcome 2 "" s) =
        some (.ok (Library.single "arr" (.array [.array [], .bool true]))) := by
    decide +kernel
  have hseek : (first? host (picking items) (FrameQueue.empty.ensure "seek")).map (fun turn =>
      (turn.node.function, turn.args.get? "arr", items.map (Library.loneItem (turn.answer 2 "")))) =
        some ("array.find", some (.array items),
          [.ok (.bool false), .ok (.bool true), .ok (.bool false), .ok (.bool true)]) := by
    decide +kernel
  have hbody : (picking items).Deterministic Library.catalog := by
    refine Program.deterministic_of_library fun id node hnode => ?_
    have hall : ∀ e ∈ (picking items).nodes.entries, e.2.function ≠ Library.random.name := by
      decide +kernel
    exact hall (id, node) (Table.mem_entries.2 hnode)
  obtain ⟨keep, hturn, hkeep⟩ := Option.map_eq_some_iff.1 hkeep
  rw [hturn, Option.map_some, Option.some.injEq] at hkept
  obtain ⟨seek, -, hseek⟩ := Option.map_eq_some_iff.1 hseek
  simp only [Prod.mk.injEq] at hkeep hseek
  obtain ⟨hfilter, hkeepItems, hkeepLone⟩ := hkeep
  obtain ⟨hfind, hseekItems, hseekLone⟩ := hseek
  have happlies : keep.Applies "array.filter" items :=
    ⟨hfilter ▸ keep.entry_eq, hkeepItems, fun _ hclosure => hbody.closure keep.extracted hclosure⟩
  have happlies' : seek.Applies "array.find" items :=
    ⟨hfind ▸ seek.entry_eq, hseekItems, fun _ hclosure => hbody.closure seek.extracted hclosure⟩
  have hsame := List.map_inj_left.1 (hseekLone.trans hkeepLone.symm)
  obtain ⟨-, -, -, -, -, -, hfirst⟩ := agrees_with_lists keep 2 "" (s := s) rfl items
  exact ⟨keep, seek, happlies, happlies', hkept,
    hfirst happlies _ hkept seek 2 "" s rfl happlies' hsame⟩

end Dataflow

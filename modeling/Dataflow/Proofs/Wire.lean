/-
The keys of callbacks, one after the other.

Callbacks are wired key by key, and the first key without an edge puts an end to it. What is made of
the keys is therefore there if all of them have their edges, and otherwise the error of the first
that does not. This is kept when one such result follows another.

* `Wire` — a key that has to be wired;
* `Wire.Checked` — a result that depends on keys, one after the other;
* `Wire.Checked.bind` — results that follow each other;
* `Callback.closures_checked` — the closures of callbacks are such a result;
* `Callback.wireInputs_eq_ok`, `Callback.wireOutputs_eq_ok` — the bindings, if all keys are wired.
-/
import Mathlib
import Dataflow.Proofs.Similar
namespace Dataflow

/-- A key of a callback that has to be wired. -/
structure Wire where
  callback : String
  key : String
  side : Side

/-- The keys of a callback, the inputs before the outputs. -/
def CallbackSignature.wires (name : String) (callback : CallbackSignature) : List Wire :=
  (callback.input.map fun param => ⟨name, param.name, .input⟩) ++
    callback.output.map fun param => ⟨name, param.name, .output⟩

/-- The keys of all callbacks, in order of the names of the callbacks. -/
def Signature.wires (signature : Signature) : List Wire :=
  signature.callbacks.entries.flatMap fun e => e.2.wires e.1

/-! ### Keys in order -/

namespace Wire

open Callback

/-- The error of a key without an edge. -/
def error (w : Wire) : RunError := .callbackWiring w.callback w.key w.side

/-- A key has its edge: an input one of those that leave the call site, an output one that comes
back from an id inside. -/
def MetBy (p : Program) (site : String) (leaving : List Edge) (Inside : String → Prop)
    (w : Wire) : Prop :=
  match w.side with
  | .input => ∃ edge ∈ leaving, edge.fromKey = w.key
  | .output => ∃ id, Inside id ∧ ∃ edge ∈ edgesOf p id, edge.target = site ∧ edge.toKey = w.key

variable {α β : Type} {Holds Holds' : Wire → Prop} {w : Wire} {wires more : List Wire}
  {result : Except RunError α}

/-- The result is there if all keys have their edges, and otherwise it is the error of the first
that does not. -/
structure Checked (Holds : Wire → Prop) (wires : List Wire) (result : Except RunError α) :
    Prop where
  ok : (∀ w ∈ wires, Holds w) → ∃ a, result = .ok a
  error : ∀ before w after, wires = before ++ w :: after → (∀ v ∈ before, Holds v) → ¬Holds w →
    result = .error w.error

namespace Checked

theorem nil (a : α) : Checked Holds [] (.ok a) := by
  refine ⟨fun _ => ⟨a, rfl⟩, fun before w after h => ?_⟩
  simp at h

private theorem unmet (hw : ¬Holds w) :
    Checked Holds (w :: wires) (.error w.error : Except RunError α) := by
  refine ⟨fun h => absurd (h w (List.mem_cons_self ..)) hw, fun before v after h hbefore hv => ?_⟩
  cases before with
  | nil =>
    cases h
    rfl
  | cons u before =>
    cases h
    exact absurd (hbefore _ (List.mem_cons_self ..)) hw

private theorem met (hw : Holds w) (h : Checked Holds wires result) :
    Checked Holds (w :: wires) result := by
  refine ⟨fun hall => h.ok fun v hv => hall v (List.mem_cons_of_mem _ hv), ?_⟩
  intro before v after hsplit hbefore hv
  cases before with
  | nil =>
    cases hsplit
    exact absurd hw hv
  | cons u before =>
    cases hsplit
    exact h.error before v after rfl (fun u hu => hbefore u (List.mem_cons_of_mem _ hu)) hv

/-- What follows a result goes on with the keys that follow. -/
theorem bind {f : α → Except RunError β} (h : Checked Holds wires result)
    (hf : ∀ a, result = .ok a → Checked Holds more (f a)) :
    Checked Holds (wires ++ more) (result >>= f) := by
  constructor
  · intro hall
    obtain ⟨a, rfl⟩ := h.ok fun w hw => hall w (List.mem_append_left _ hw)
    exact (hf a rfl).ok fun w hw => hall w (List.mem_append_right _ hw)
  · intro before w after hsplit hbefore hw
    rcases List.append_eq_append_iff.1 hsplit with ⟨middle, rfl, rfl⟩ | ⟨middle, rfl, hmiddle⟩
    · obtain ⟨a, rfl⟩ := h.ok fun v hv => hbefore v (List.mem_append_left _ hv)
      exact (hf a rfl).error middle w after rfl
        (fun v hv => hbefore v (List.mem_append_right _ hv)) hw
    · cases middle with
      | nil =>
        rw [List.append_nil] at h
        obtain ⟨a, rfl⟩ := h.ok hbefore
        exact (hf a rfl).error [] w after hmiddle.symm (by simp) hw
      | cons v middle =>
        cases hmiddle
        rw [h.error before _ middle rfl hbefore hw]
        rfl

theorem map (h : Checked Holds wires result) (g : α → β) :
    Checked Holds wires (result >>= fun a => .ok (g a)) := by
  have hbind : Checked Holds (wires ++ []) (result >>= fun a => .ok (g a)) :=
    h.bind fun a _ => nil (g a)
  rwa [List.append_nil] at hbind

theorem congr (h : Checked Holds wires result) (hiff : ∀ w ∈ wires, Holds w ↔ Holds' w) :
    Checked Holds' wires result := by
  refine ⟨fun hall => h.ok fun w hw => (hiff w hw).2 (hall w hw), ?_⟩
  rintro before w after rfl hbefore hw
  refine h.error before w after rfl (fun v hv => (hiff v (by simp [hv])).2 (hbefore v hv)) ?_
  rwa [hiff w (by simp)]

/-- Of keys that do not all have edges, one is the first without. -/
theorem exists_first (h : ¬∀ w ∈ wires, Holds w) : ∃ before w after,
    wires = before ++ w :: after ∧ (∀ v ∈ before, Holds v) ∧ ¬Holds w := by
  induction wires with
  | nil => simp at h
  | cons w wires ih =>
    by_cases hw : Holds w
    · obtain ⟨before, v, after, rfl, hbefore, hv⟩ := ih (by simpa [hw] using h)
      exact ⟨w :: before, v, after, rfl, by simpa [hw] using hbefore, hv⟩
    · exact ⟨[], w, wires, rfl, by simp, hw⟩

theorem ok_iff (h : Checked Holds wires result) :
    (∃ a, result = .ok a) ↔ ∀ w ∈ wires, Holds w := by
  refine ⟨fun ⟨a, ha⟩ => ?_, h.ok⟩
  by_contra hall
  obtain ⟨before, w, after, hsplit, hbefore, hw⟩ := exists_first hall
  cases ha.symm.trans (h.error before w after hsplit hbefore hw)

theorem error_iff (h : Checked Holds wires result) {error : RunError} :
    result = .error error ↔ ∃ before w after, wires = before ++ w :: after ∧
      (∀ v ∈ before, Holds v) ∧ ¬Holds w ∧ error = w.error := by
  constructor
  · intro herror
    have hall : ¬∀ w ∈ wires, Holds w := by
      intro hall
      obtain ⟨a, ha⟩ := h.ok hall
      cases herror.symm.trans ha
    obtain ⟨before, w, after, hsplit, hbefore, hw⟩ := exists_first hall
    refine ⟨before, w, after, hsplit, hbefore, hw, ?_⟩
    exact Except.error.inj (herror.symm.trans (h.error before w after hsplit hbefore hw))
  · rintro ⟨before, w, after, hsplit, hbefore, hw, rfl⟩
    exact h.error before w after hsplit hbefore hw

end Checked

end Wire

/-! ### Wiring callbacks -/

namespace Callback

variable {p : Program} {site name : String} {feeding : List Edge}

/-- Ids without an edge back give no binding. -/
theorem outputBinding?_exits (p : Program) (site : String) (ids : List String) (param : Param) :
    outputBinding? p site (exits p site ids) param = outputBinding? p site ids param := by
  rw [outputBinding?, outputBinding?, exits]
  induction ids with
  | nil => rfl
  | cons id rest ih =>
    rw [List.filter_cons]
    split
    · rw [List.findSome?_cons, List.findSome?_cons, ih]
    · rename_i hexit
      have hnone : (edgesOf p id).find? (fun edge => edge.target = site ∧ edge.toKey = param.name) =
          none := by
        rw [List.find?_eq_none]
        intro edge hedge
        simp only [List.any_eq_true, not_exists, not_and, decide_eq_true_eq] at hexit ⊢
        exact fun htarget => absurd htarget (hexit edge hedge)
      rw [ih, List.findSome?_cons, hnone]
      rfl

private theorem wireInputs_checked (p : Program) (site name : String) (feeding : List Edge)
    (ids : List String) (params : List Param) :
    Wire.Checked (Wire.MetBy p site feeding (· ∈ ids))
      (params.map fun param => ⟨name, param.name, .input⟩) (wireInputs name feeding params) := by
  induction params with
  | nil => exact .nil []
  | cons param rest ih =>
    have hmet : (Wire.mk name param.name .input).MetBy p site feeding (· ∈ ids) ↔
        (inputBindings feeding param).isEmpty = false := by
      simp [Wire.MetBy, inputBindings]
    rw [wireInputs, List.map_cons]
    cases hempty : (inputBindings feeding param).isEmpty with
    | true => exact .unmet (by simp [hmet, hempty])
    | false => exact .met (hmet.2 hempty) (ih.map _)

private theorem wireOutputs_checked (name : String) (p : Program) (site : String)
    (feeding : List Edge) (ids : List String) (params : List Param) :
    Wire.Checked (Wire.MetBy p site feeding (· ∈ ids))
      (params.map fun param => ⟨name, param.name, .output⟩)
      (wireOutputs name p site (exits p site ids) params) := by
  induction params with
  | nil => exact .nil []
  | cons param rest ih =>
    have hmet : (Wire.mk name param.name .output).MetBy p site feeding (· ∈ ids) ↔
        outputBinding? p site (exits p site ids) param ≠ none := by
      rw [outputBinding?_exits, outputBinding?, Ne, List.findSome?_eq_none_iff]
      simp [Wire.MetBy]
    rw [wireOutputs, List.map_cons]
    cases hbinding : outputBinding? p site (exits p site ids) param with
    | none => exact .unmet (by simp [hmet, hbinding])
    | some b => exact .met (hmet.2 (by simp [hbinding])) (ih.map _)

theorem closures_checked (p : Program) (site : String) (feeding : List Edge) (ids : List String)
    (seed : FrameQueue) (callbacks : List (String × CallbackSignature)) :
    Wire.Checked (Wire.MetBy p site feeding (· ∈ ids)) (callbacks.flatMap fun e => e.2.wires e.1)
      (closures p site feeding ids seed callbacks) := by
  induction callbacks with
  | nil => exact .nil []
  | cons callback rest ih =>
    rw [closures, List.flatMap_cons, CallbackSignature.wires, List.append_assoc]
    refine (wireInputs_checked p site _ feeding ids _).bind fun input _ => ?_
    refine (wireOutputs_checked _ p site feeding ids _).bind fun output _ => ?_
    exact ih.map _

theorem wireInputs_eq_ok {params : List Param} {input : List Binding}
    (h : wireInputs name feeding params = .ok input) :
    input = params.flatMap (inputBindings feeding) := by
  induction params generalizing input with
  | nil =>
    cases h
    rfl
  | cons param rest ih =>
    rw [wireInputs] at h
    split at h
    · cases h
    · obtain ⟨more, hmore, h⟩ := Except.bind_eq_ok h
      cases h
      rw [ih hmore, List.flatMap_cons]

theorem wireOutputs_eq_ok {exits : List String} {params : List Param} {output : List Binding}
    (h : wireOutputs name p site exits params = .ok output) :
    List.Forall₂ (fun param b => outputBinding? p site exits param = some b) params output := by
  induction params generalizing output with
  | nil =>
    cases h
    exact .nil
  | cons param rest ih =>
    rw [wireOutputs] at h
    split at h
    · cases h
    · rename_i b hbinding
      obtain ⟨more, hmore, h⟩ := Except.bind_eq_ok h
      cases h
      exact .cons hbinding (ih hmore)

end Callback

end Dataflow

/-
What library functions take from their callbacks.

A library function calls a callback for one output. If the callback fails or does not give that
output, so does the function, and otherwise it goes on with the value. So when the callbacks of two
calls never give different values for an output, two calls that succeed give the same results.

* `Run.Agree` — computations that are related whenever both succeed;
* `Script.Asking` — scripts that take one output from each call;
* `Script.Asking.agree` — such scripts agree when their callbacks do;
* `Library.function_asking` — all functions but `math.random` have such scripts.
-/
import Mathlib
import Dataflow.Proofs.Library
import Dataflow.Proofs.Steady
namespace Dataflow

/-- The records have no different values under a name. -/
def Record.Compatible {α : Type} (a b : Record α) : Prop :=
  ∀ name x y, a.get? name = some x → b.get? name = some y → x = y

/-! ### Computations that agree -/

namespace Run

variable {α α' β β' : Type} {R : α → α' → Prop} {S : β → β' → Prop}

/-- Without a cache, the results are related whenever both computations have one. -/
def Agree (R : α → α' → Prop) (r : Run α) (t : Run α') : Prop :=
  ∀ s s' : Session, s.cache = none → s'.cache = none →
    ∀ a b, (r s).1 = .ok a → (t s').1 = .ok b → R a b

private theorem agree_result {a : α} {b : α'} (h : R a b) : Agree R (result a) (result b) := by
  intro s s' _ _ x y hx hy
  cases hx
  cases hy
  exact h

private theorem agree_note (n n' : Note) : Agree (fun _ _ => True) (note n) (note n') :=
  fun _ _ _ _ _ _ _ _ => trivial

theorem agree_halt_left (h : Halt) (t : Run α') : Agree R (halt h) t :=
  fun _ _ _ _ _ _ hx _ => nomatch hx

theorem agree_halt_right (r : Run α) (h : Halt) : Agree R r (halt h) :=
  fun _ _ _ _ _ _ _ hy => nomatch hy

private theorem ok_of_andThen {r : Run α} {f : α → Run β} {s : Session} {b : β}
    (h : (r.andThen f s).1 = .ok b) : ∃ a s', r s = (.ok a, s') ∧ (f a s').1 = .ok b := by
  rcases hr : r s with ⟨halt | a, s'⟩
  · rw [andThen_of_error hr] at h
    cases h
  · rw [andThen_of_ok hr] at h
    exact ⟨a, s', rfl, h⟩

/-- Computations that agree can be continued. -/
theorem Agree.andThen {r : Run α} {t : Run α'} {f : α → Run β} {g : α' → Run β'}
    (hr : Agree R r t) (hsteady : r.Steady) (hsteady' : t.Steady)
    (hf : ∀ a b, R a b → Agree S (f a) (g b)) : Agree S (r.andThen f) (t.andThen g) := by
  intro s s' hs hs' x y hx hy
  obtain ⟨a, s₁, ha, hx⟩ := ok_of_andThen hx
  obtain ⟨b, s₁', hb, hy⟩ := ok_of_andThen hy
  have hab : R a b := hr s s' hs hs' a b (by rw [ha]) (by rw [hb])
  exact hf a b hab s₁ s₁' (Session.cache_eq_none hs (hsteady.cache_eq ha))
    (Session.cache_eq_none hs' (hsteady'.cache_eq hb)) x y hx hy

/-- After an attempt, the results are related whenever both computations have succeeded. -/
theorem Agree.attempt {r : Run α} {t : Run α'} (h : Agree R r t) :
    Agree (fun x y => ∀ a b, x = .ok a → y = .ok b → R a b) r.attempt t.attempt := by
  have hok : ∀ {γ : Type} {u : Run γ} {s : Session} {c}, (u.attempt s).1 = .ok (.ok c) →
      (u s).1 = .ok c := by
    intro γ u s c hc
    rw [attempt_eq] at hc
    exact caught_eq_ok.1 hc
  intro s s' hs hs' x y hx hy a b ha hb
  subst ha hb
  exact h s s' hs hs' a b (hok hx) (hok hy)

end Run

/-! ### Scripts that ask -/

namespace Script

variable {α β : Type}

/-- A script that goes on after a call with nothing but the value of one output, and fails without
it. -/
inductive Asking : Script α → Prop where
  | done (a : α) : Asking (.done a)
  | fail (error : RunError) : Asking (.fail error)
  | crash : Asking .crash
  | remark {level : Level} {text : String} {next : Script α} :
    Asking next → Asking (.remark level text next)
  | call {callback : String} {args : Record Json}
    {resume : Except RunError (Record Json) → Script α} (output : String) (next : Json → Script α) :
    (∀ error, resume (.error error) = .fail error) →
    (∀ record value, record.get? output = some value → resume (.ok record) = next value) →
    (∀ record, record.get? output = none → ∃ error, resume (.ok record) = .fail error) →
    (∀ value, Asking (next value)) → Asking (.call callback args resume)

/-- **Scripts that ask agree when their callbacks do.** -/
theorem Asking.agree {answer answer' : String → Record Json → Run (Record Json)}
    (hsteady : ∀ callback args, (answer callback args).Steady)
    (hsteady' : ∀ callback args, (answer' callback args).Steady)
    (h : ∀ callback args,
      Run.Agree Record.Compatible (answer callback args) (answer' callback args))
    {script : Script α} (hs : script.Asking) :
    Run.Agree Eq (script.perform answer) (script.perform answer') := by
  induction hs with
  | done a => exact Run.agree_result rfl
  | fail error => exact Run.agree_halt_left (.failed error) _
  | crash => exact Run.agree_halt_left .crashed _
  | remark _ ih =>
    exact (Run.agree_note _ _).andThen (Run.steady_note _) (Run.steady_note _) fun _ _ _ => ih
  | @call callback args resume output next herror hvalue hnone _ ih =>
    refine (h callback args).attempt.andThen (hsteady callback args).attempt
      (hsteady' callback args).attempt fun reply reply' hreply => ?_
    -- A reply without the output makes the script fail, on either side.
    rcases reply with error | record
    · rw [herror]
      exact Run.agree_halt_left (.failed error) _
    rcases reply' with error | record'
    · rw [herror]
      exact Run.agree_halt_right _ (.failed error)
    cases hget : record.get? output with
    | none =>
      obtain ⟨error, herror⟩ := hnone record hget
      rw [herror]
      exact Run.agree_halt_left (.failed error) _
    | some value =>
      cases hget' : record'.get? output with
      | none =>
        obtain ⟨error, herror⟩ := hnone record' hget'
        rw [herror]
        exact Run.agree_halt_right _ (.failed error)
      | some value' =>
        have hsame : value = value' := hreply record record' rfl rfl output value value' hget hget'
        rw [hvalue record value hget, hvalue record' value' hget', ← hsame]
        exact ih value

/-! ### Rules -/

theorem Asking.bind {s : Script α} {f : α → Script β} (hs : s.Asking) (hf : ∀ a, (f a).Asking) :
    (s >>= f).Asking := by
  show (s.bind f).Asking
  induction hs with
  | done a => exact hf a
  | fail error => exact .fail error
  | crash => exact .crash
  | remark _ ih => exact .remark ih
  | call output next herror hvalue hnone _ ih =>
    refine .call output (fun value => (next value).bind f) ?_ ?_ ?_ ih
    · intro error
      rw [herror]
      rfl
    · intro record value hget
      rw [hvalue record value hget]
    · intro record hget
      obtain ⟨error, herror⟩ := hnone record hget
      exact ⟨error, by rw [herror]; rfl⟩

private theorem asking_ofExcept (x : Except RunError α) : (ofExcept x).Asking := by
  cases x with
  | ok a => exact .done a
  | error error => exact .fail error

private theorem asking_askFor (callback output : String) (args : Record Json) :
    (askFor callback args output).Asking := by
  refine .call output .done (fun error => rfl) ?_ ?_ .done
  · intro record value hget
    simp only [ofExcept, Script.bind, hget]
    rfl
  · intro record hget
    refine ⟨.executionFailed s!"callback '{callback}' produced no '{output}'", ?_⟩
    simp only [ofExcept, Script.bind, hget]

/-- A script that may not call and may not draw asks for nothing. -/
theorem Within.asking {s : Script α}
    (hs : s.Within ⟨fun _ => True, fun _ _ => False, False, True⟩) : s.Asking := by
  induction hs with
  | done a => exact .done a
  | fail _ => exact .fail _
  | crash _ => exact .crash
  | call h _ _ => exact h.elim
  | remark _ ih => exact .remark ih
  | random h _ _ => exact h.elim

end Script

/-! ### The library -/

namespace Library

private theorem mapItems_asking (items : List Json) : (mapItems items).Asking := by
  induction items with
  | nil => exact .done []
  | cons item rest ih =>
    exact (Script.asking_askFor ..).bind fun answer => ih.bind fun answers => .done _

private theorem filterItems_asking (items : List Json) : (filterItems items).Asking := by
  induction items with
  | nil => exact .done []
  | cons item rest ih =>
    exact (Script.asking_askFor ..).bind fun answer => ih.bind fun kept => .done _

private theorem findItem_asking (start : Nat) (items : List Json) :
    (findItem start items).Asking := by
  induction items generalizing start with
  | nil => exact .done none
  | cons item rest ih =>
    refine (Script.asking_askFor ..).bind fun answer => ?_
    split
    · exact .done _
    · exact ih (start + 1)

private theorem foldItems_asking (acc : Json) (items : List Json) :
    (foldItems acc items).Asking := by
  induction items generalizing acc with
  | nil => exact .done acc
  | cons item rest ih => exact (Script.asking_askFor ..).bind fun acc => ih acc

private theorem isGreater_asking (a b : Json) : (isGreater a b).Asking := by
  refine (Script.asking_askFor ..).bind fun answer => ?_
  cases answer with
  | number n => exact .done _
  | null | bool _ | string _ | array _ | object _ => exact .fail _

private theorem mergeWith_asking {greater : Json → Json → Script Bool}
    (h : ∀ a b, (greater a b).Asking) (fuel : Nat) (left right : List Json) :
    (mergeWith greater fuel left right).Asking := by
  induction fuel generalizing left right with
  | zero => exact .done _
  | succ fuel ih =>
    cases left with
    | nil => exact .done _
    | cons a left =>
      cases right with
      | nil => exact .done _
      | cons b right =>
        refine (h a b).bind fun answer => ?_
        split
        · exact (ih _ _).bind fun rest => .done _
        · exact (ih _ _).bind fun rest => .done _

private theorem sortWithin_asking {greater : Json → Json → Script Bool}
    (h : ∀ a b, (greater a b).Asking) (fuel : Nat) (items : List Json) :
    (sortWithin greater fuel items).Asking := by
  induction fuel generalizing items with
  | zero => exact .done _
  | succ fuel ih =>
    rw [sortWithin]
    split
    · exact .done _
    · refine (ih _).bind fun left => ?_
      exact (ih _).bind fun right => mergeWith_asking h _ left right

private theorem withCallback_asking (name : String) (output : Param) (input : List Param)
    (answer : ValueType) {f : List Json → Script Json} (hf : ∀ items, (f items).Asking)
    (args : Record Json) (callbacks : List String) :
    ((withCallback name output input answer f).runner args callbacks).Asking :=
  (Script.asking_ofExcept _).bind fun items => (hf items).bind fun _ => .done _

private theorem higherOrder_asking : ∀ f ∈ higherOrder, ∀ args callbacks,
    (f.runner args callbacks).Asking := by
  simp only [higherOrder, List.forall_mem_cons]
  refine ⟨?_, ?_, ?_, ?_, ?_, ?_, List.forall_mem_nil _⟩
  all_goals refine withCallback_asking _ _ _ _ fun items => ?_
  · exact (mapItems_asking items).bind fun answers => .done _
  · exact (filterItems_asking items).bind fun kept => .done _
  · exact (findItem_asking 0 items).bind fun found => .done _
  · exact (findItem_asking 0 items).bind fun found => .done _
  · cases items with
    | nil => exact .fail _
    | cons first rest => exact foldItems_asking first rest
  · exact (sortWithin_asking isGreater_asking _ items).bind fun sorted => .done _

/-- **All functions but `math.random` take one output from each call of a callback.** -/
theorem function_asking {f : NativeFunction} (hf : f ∈ functions) (hname : f.name ≠ random.name)
    (args : Record Json) (callbacks : List String) : (f.runner args callbacks).Asking := by
  by_cases hplain : f.signature.callbacks = .empty
  · -- Without callbacks there is nothing to call.
    refine (function_within hf callbacks ?_ (fun h => absurd h hname) fun _ _ => trivial).asking
    refine ⟨fun _ _ => trivial, fun _ _ _ => trivial, ?_⟩
    rintro callback args ⟨body, hbody, -⟩
    rw [hplain] at hbody
    cases hbody
  · have hothers : ∀ g ∈ control ++ arithmetic ++ comparisons ++ texts ++ sequences,
        g.signature.callbacks.isEmpty = true := by decide +kernel
    rw [functions, List.mem_append] at hf
    rcases hf with hf | hf
    · exact absurd (Record.isEmpty_iff.1 (hothers f hf)) hplain
    · exact higherOrder_asking f hf args callbacks

end Library

end Dataflow

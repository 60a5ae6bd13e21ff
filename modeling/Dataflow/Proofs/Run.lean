/-
Running a computation, and following one run by another.

`Run.Gives` says that a computation can end with a result.

`Run.Leads C r t` compares a computation `r` with a family `t` of computations, such as the same
call followed to greater and greater depth. Started from sessions whose caches are related by `C`,
`r` either runs out of depth or all late members of the family end exactly as `r` does, in one and
the same session, with caches again related by `C`. Events and notes are free to differ. A constant
family makes it a comparison of two computations.
-/
import Mathlib
import Dataflow.Run
namespace Dataflow

namespace Run

variable {α β : Type}

/-! ### Results -/

theorem bind_eq (r : Run α) (f : α → Run β) : (r >>= f) = r.andThen f := rfl

theorem pure_eq (a : α) : (pure a : Run α) = result a := rfl

theorem andThen_of_ok {r : Run α} {f : α → Run β} {s s' : Session} {a : α}
    (h : r s = (.ok a, s')) : r.andThen f s = f a s' := by
  rw [andThen, h]

theorem andThen_of_error {r : Run α} {f : α → Run β} {s s' : Session} {halt : Halt}
    (h : r s = (.error halt, s')) : r.andThen f s = (.error halt, s') := by
  rw [andThen, h]

/-- What an attempt makes of an outcome. -/
def caught : Except Halt α → Except Halt (Except RunError α)
  | .ok a => .ok (.ok a)
  | .error (.failed error) => .ok (.error error)
  | .error .crashed => .error .crashed
  | .error .outOfDepth => .error .outOfDepth

/-- An attempt changes the outcome, and nothing else. -/
theorem attempt_eq (r : Run α) (s : Session) : r.attempt s = (caught (r s).1, (r s).2) := by
  rw [attempt]
  rcases r s with ⟨(error | _ | _) | a, s'⟩ <;> rfl

theorem caught_eq_ok {outcome : Except Halt α} {a : α} :
    caught outcome = .ok (.ok a) ↔ outcome = .ok a := by
  rcases outcome with (error | _ | _) | b <;> simp [caught]

theorem caught_eq_failed {outcome : Except Halt α} {error : RunError} :
    caught outcome = .ok (.error error) ↔ outcome = .error (.failed error) := by
  rcases outcome with (other | _ | _) | b <;> simp [caught]

theorem caught_eq_crashed {outcome : Except Halt α} :
    caught outcome = .error .crashed ↔ outcome = .error .crashed := by
  rcases outcome with (error | _ | _) | a <;> simp [caught]

theorem caught_eq_outOfDepth {outcome : Except Halt α} :
    caught outcome = .error .outOfDepth ↔ outcome = .error .outOfDepth := by
  rcases outcome with (error | _ | _) | a <;> simp [caught]

theorem attempt_of_ok {r : Run α} {s s' : Session} {a : α} (h : r s = (.ok a, s')) :
    r.attempt s = (.ok (.ok a), s') := by
  rw [attempt, h]

theorem attempt_of_failed {r : Run α} {s s' : Session} {error : RunError}
    (h : r s = (.error (.failed error), s')) : r.attempt s = (.ok (.error error), s') := by
  rw [attempt, h]

theorem attempt_of_crashed {r : Run α} {s s' : Session}
    (h : r s = (.error .crashed, s')) : r.attempt s = (.error .crashed, s') := by
  rw [attempt, h]

theorem attempt_of_outOfDepth {r : Run α} {s s' : Session}
    (h : r s = (.error .outOfDepth, s')) : r.attempt s = (.error .outOfDepth, s') := by
  rw [attempt, h]

theorem note_eq (n : Note) (s : Session) : note n s = (.ok (), (note n s).2) := rfl

theorem emit_outcome (observer : Observer) (e : Event) (s : Session) :
    (emit observer e s).1 = .ok () ∧ (emit observer e s).2.cache = s.cache := by
  rw [emit]
  cases observer e <;> exact ⟨rfl, rfl⟩

theorem emit_eq (observer : Observer) (e : Event) (s : Session) :
    emit observer e s = (.ok (), (emit observer e s).2) :=
  Prod.ext (emit_outcome observer e s).1 rfl

theorem emit_events (observer : Observer) (e : Event) (s : Session) :
    (emit observer e s).2.events = s.events.push e := by
  rw [emit]
  cases observer e <;> rfl

theorem emit_keeps (observer : Observer) (e : Event) (s : Session) :
    s.events.toList <+: (emit observer e s).2.events.toList := by
  rw [emit_events, Array.toList_push]
  exact List.prefix_append ..

/-- The computation can end with the result. -/
def Gives (r : Run α) (a : α) : Prop := ∃ s s', r s = (.ok a, s')

private theorem gives_result {a b : α} : (result a).Gives b ↔ a = b := by
  constructor
  · rintro ⟨s, s', h⟩
    exact Except.ok.inj (congrArg Prod.fst h)
  · rintro rfl
    exact ⟨⟨none, #[], #[], default⟩, _, rfl⟩

private theorem not_gives_halt {halt : Halt} {a : α} : ¬ (Run.halt halt : Run α).Gives a := by
  rintro ⟨s, s', h⟩
  cases congrArg Prod.fst h

theorem gives_ofExcept {e : Except RunError α} {a : α} (h : (ofExcept e).Gives a) : e = .ok a := by
  cases e with
  | ok b => rw [gives_result.1 h]
  | error error => exact absurd h not_gives_halt

/-! ### Following a run -/

section Leads

variable {C : Option MemoCache → Option MemoCache → Prop}

/-- Unless `r` runs out of depth, the late members of the family `t` end as `r` does. -/
def Leads (C : Option MemoCache → Option MemoCache → Prop) (r : Run α) (t : Nat → Run α) : Prop :=
  ∀ s s', C s.cache s'.cache → (r s).1 ≠ .error .outOfDepth →
    ∃ s₂, C (r s).2.cache s₂.cache ∧ ∃ n, ∀ m, n ≤ m → t m s' = ((r s).1, s₂)

/-- Both sides end at once and in the same way. -/
theorem Leads.of_outcome {r : Run α} {t : Nat → Run α} (outcome : Except Halt α)
    (hr : ∀ s, (r s).1 = outcome ∧ (r s).2.cache = s.cache)
    (ht : ∀ s, ∃ s', s'.cache = s.cache ∧ ∀ m, t m s = (outcome, s')) : Leads C r t := by
  intro s s' hC _
  obtain ⟨s₂, hs₂, hm⟩ := ht s'
  refine ⟨s₂, ?_, 0, fun m _ => ?_⟩
  · rw [(hr s).2, hs₂]
    exact hC
  · rw [(hr s).1]
    exact hm m

theorem leads_result (a : α) : Leads C (result a) fun _ => result a :=
  .of_outcome (.ok a) (fun _ => ⟨rfl, rfl⟩) fun s => ⟨s, rfl, fun _ => rfl⟩

theorem leads_halt (halt : Halt) : Leads C (Run.halt halt : Run α) fun _ => Run.halt halt :=
  .of_outcome (.error halt) (fun _ => ⟨rfl, rfl⟩) fun s => ⟨s, rfl, fun _ => rfl⟩

theorem leads_ofExcept (e : Except RunError α) : Leads C (ofExcept e) fun _ => ofExcept e := by
  cases e with
  | ok a => exact leads_result a
  | error error => exact leads_halt (.failed error)

theorem leads_note (n n' : Note) : Leads C (note n) fun _ => note n' :=
  .of_outcome (.ok ()) (fun _ => ⟨rfl, rfl⟩) fun s =>
    ⟨{ s with notes := s.notes.push n' }, rfl, fun _ => rfl⟩

theorem leads_emit (observer observer' : Observer) (e e' : Event) :
    Leads C (emit observer e) fun _ => emit observer' e' :=
  .of_outcome (.ok ()) (emit_outcome observer e) fun s =>
    ⟨_, (emit_outcome observer' e' s).2, fun _ => emit_eq observer' e' s⟩

/-- Steps that follow each other can be composed. The second steps only have to agree on results
that the first can give. -/
theorem Leads.andThen {r : Run α} {t : Nat → Run α} {f : α → Run β} {g : Nat → α → Run β}
    (hr : Leads C r t) (hf : ∀ a, r.Gives a → Leads C (f a) fun m => g m a) :
    Leads C (r.andThen f) fun m => (t m).andThen (g m) := by
  intro s s' hC hne
  rcases hrs : r s with ⟨halt | a, s₁⟩
  · rw [andThen_of_error hrs] at hne ⊢
    obtain ⟨s₂, hC₂, n, hn⟩ := hr s s' hC (by rw [hrs]; exact fun h => hne (by cases h; rfl))
    rw [hrs] at hC₂ hn
    exact ⟨s₂, hC₂, n, fun m hm => andThen_of_error (hn m hm)⟩
  · rw [andThen_of_ok hrs] at hne ⊢
    obtain ⟨s₂, hC₂, n, hn⟩ := hr s s' hC (by rw [hrs]; exact fun h => nomatch h)
    rw [hrs] at hC₂ hn
    obtain ⟨s₃, hC₃, n', hn'⟩ := hf a ⟨s, s₁, hrs⟩ s₁ s₂ hC₂ hne
    refine ⟨s₃, hC₃, max n n', fun m hm => ?_⟩
    show (t m).andThen (g m) s' = _
    rw [andThen_of_ok (hn m (le_trans (le_max_left ..) hm))]
    exact hn' m (le_trans (le_max_right ..) hm)

theorem Leads.attempt {r : Run α} {t : Nat → Run α} (hr : Leads C r t) :
    Leads C r.attempt fun m => (t m).attempt := by
  intro s s' hC hne
  rw [attempt_eq] at hne ⊢
  obtain ⟨s₂, hC₂, n, hn⟩ := hr s s' hC fun h => hne (caught_eq_outOfDepth.2 h)
  refine ⟨s₂, hC₂, n, fun m hm => ?_⟩
  show (t m).attempt s' = _
  rw [attempt_eq, hn m hm]

/-- The first members of a family do not matter. -/
theorem Leads.of_succ {r : Run α} {t : Nat → Run α} (h : Leads C r fun m => t (m + 1)) :
    Leads C r t := by
  intro s s' hC hne
  obtain ⟨s₂, hC₂, n, hn⟩ := h s s' hC hne
  refine ⟨s₂, hC₂, n + 1, fun m hm => ?_⟩
  obtain ⟨m, rfl⟩ : ∃ k, m = k + 1 := ⟨m - 1, by omega⟩
  exact hn m (by omega)

end Leads

end Run

/-- A script without random numbers does the same when its callbacks do. -/
theorem Script.Deterministic.leads {α : Type} {C : Option MemoCache → Option MemoCache → Prop}
    {answer : String → Record Json → Run (Record Json)}
    {answer' : Nat → String → Record Json → Run (Record Json)}
    (h : ∀ callback args, Run.Leads C (answer callback args) fun m => answer' m callback args)
    {script : Script α} (hs : script.Deterministic) :
    Run.Leads C (script.perform answer) fun m => script.perform (answer' m) := by
  induction hs with
  | done a => exact Run.leads_result a
  | fail error => exact Run.leads_halt (.failed error)
  | crash => exact Run.leads_halt .crashed
  | call callback args resume _ ih =>
    exact (h callback args).attempt.andThen fun reply _ => ih reply
  | remark level text next _ ih => exact (Run.leads_note _ _).andThen fun _ _ => ih

end Dataflow

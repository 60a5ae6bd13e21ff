/-
How an execution ends.

An execution takes one frame after the other from its queue, and each of them has a fate: its node
fires, it goes to the end of the line, it is dropped, or the execution fails because of it. At the
latest after as many frames as there are steps, the execution ends in one of four ways. It has
failed, or every output has a value, or no frame is left, or it is cut off, and then it says so in
its last event. What it has told before are the firings, with all that their calls told.

The number of steps comes from a sum in 64-bit arithmetic. If the sum does not fit, a large slack
leaves few steps.

* `Fate`, `Host.fate` — what becomes of a popped frame;
* `Host.course` — the fates of the frames of an execution, and the queue that is left;
* `Host.process_fate` — a frame does what its fate says;
* `Host.Ending`, `Host.drain_ending` — the ways in which an execution ends;
* `Host.execute_exact` — the step budget and the outcome of an execution;
* `Host.cut_off_by_overflow` — a slack that leaves one step.
-/
import Mathlib
import Dataflow.Proofs.Calling
import Dataflow.Proofs.Crash
import Dataflow.Proofs.Habit
import Dataflow.Proofs.History
import Dataflow.Proofs.Slack
namespace Dataflow

/-! ### Recorded outputs -/

namespace Program

variable {p : Program} {id name : String} {results : Outputs} {outputs : Record Json}

/-- The value that a firing records under a name: of the bindings that read a value from it, the
last one counts. -/
def recorded? (p : Program) (id : String) (results : Outputs) (name : String) : Option Json :=
  (p.outputsOf id).reverse.findSome? fun b =>
    if b.name = name then (results.get? b.address.key).bind Flow.value? else none

private theorem get?_recordOutputs_last : (p.recordOutputs id results outputs).get? name =
    (p.recorded? id results name <|> outputs.get? name) := by
  rw [recordOutputs, recorded?]
  induction p.outputsOf id generalizing outputs with
  | nil => rfl
  | cons b rest ih =>
    rw [List.foldl_cons, ih, List.reverse_cons, List.findSome?_append, List.findSome?_singleton]
    cases rest.reverse.findSome? _ with
    | some value => rfl
    | none =>
      rcases results.get? b.address.key with _ | value | _
      · simp
      · by_cases h : name = b.name
        · simp [Flow.value?, h]
        · simp [Record.get?_insert, h, Ne.symm h]
      · simp [Flow.value?]

theorem isComplete_iff : p.isComplete outputs = true ↔
    p.output ≠ [] ∧ ∀ name ∈ p.outputNames, outputs.contains name = true := by
  simp [isComplete]

end Program

/-! ### Fates -/

/-- What becomes of a popped frame. -/
inductive Fate where
  /-- There is no such node. -/
  | dropped (id : String)
  /-- The node is not ready, and the frame goes to the end of the line. -/
  | deferred (id : String) (frame : Frame)
  /-- The function is not known, or a callback is not wired. -/
  | refused (id : String) (error : RunError)
  /-- The node fires; `called` is what its call tells. -/
  | fired (firing : Firing) (called : List Event)

namespace Fate

open Host

/-- What is told of a popped frame. -/
def events (caller : String) : Fate → List Event
  | .fired f called => .nodeFired caller f.id f.node.function :: called ++
    (f.results.map fun results =>
      Event.ofStops f.id f.entry.signature results f.node.next).getD []
  | _ => []

/-- The value that a popped frame brings to an output. -/
def recorded? (p : Program) (name : String) : Fate → Option Json
  | .fired f _ => f.results.bind fun results => p.recorded? f.id results name
  | _ => none

/-- The outputs after a popped frame. -/
def record (p : Program) (outputs : Record Json) : Fate → Record Json
  | .fired ⟨id, _, _, _, _, some results⟩ _ => p.recordOutputs id results outputs
  | _ => outputs

/-- What a popped frame leads to, if the execution does not fail because of it. -/
def progress? (p : Program) (rest : FrameQueue) (outputs : Record Json) : Fate → Option Progress
  | .dropped _ => some (.next rest outputs)
  | .deferred id frame => some (.next (rest.defer id frame) outputs)
  | .refused .. => none
  | .fired f _ => f.results.map fun results =>
    if p.isComplete (p.recordOutputs f.id results outputs) then
      .complete (p.recordOutputs f.id results outputs)
    else .next ((f.consumed.foldl FrameQueue.remove rest).receiveAll f.deliveries)
      (p.recordOutputs f.id results outputs)

variable {p : Program} {rest frames : FrameQueue} {outputs final : Record Json} {fate : Fate}

private theorem get?_record (name : String) :
    (fate.record p outputs).get? name = (fate.recorded? p name <|> outputs.get? name) := by
  match fate with
  | .dropped _ | .deferred .. | .refused .. => rfl
  | .fired ⟨_, _, _, _, _, none⟩ _ => rfl
  | .fired ⟨_, _, _, _, _, some _⟩ _ => exact Program.get?_recordOutputs_last

/-- What is found after a list of popped frames is what the last of them brought. -/
theorem get?_foldl_record (log : List Fate) (name : String) :
    (log.foldl (record p) outputs).get? name =
      (log.reverse.findSome? (recorded? p name) <|> outputs.get? name) := by
  induction log generalizing outputs with
  | nil => rfl
  | cons fate log ih =>
    rw [List.foldl_cons, ih, get?_record, List.reverse_cons, List.findSome?_append,
      List.findSome?_singleton]
    cases log.reverse.findSome? _ <;> rfl

private theorem progress?_complete (h : fate.progress? p rest outputs = some (.complete final)) :
    final = fate.record p outputs ∧ p.isComplete final = true := by
  match fate with
  | .dropped _ | .deferred .. | .refused .. | .fired ⟨_, _, _, _, _, none⟩ _ => cases h
  | .fired ⟨_, _, _, _, _, some _⟩ _ =>
    simp only [progress?, Option.map_some, Option.some.injEq] at h
    split at h
    · cases h
      exact ⟨rfl, ‹_›⟩
    · cases h

/-- An execution goes on as long as an output is missing. -/
theorem progress?_next (h : fate.progress? p rest outputs = some (.next frames final))
    (hmissing : p.isComplete outputs = false) (hrest : rest.Sound) :
    final = fate.record p outputs ∧ p.isComplete final = false ∧ frames.Sound := by
  match fate with
  | .refused .. | .fired ⟨_, _, _, _, _, none⟩ _ => cases h
  | .dropped _ =>
    cases h
    exact ⟨rfl, hmissing, hrest⟩
  | .deferred id frame =>
    cases h
    exact ⟨rfl, hmissing, hrest.defer id frame⟩
  | .fired ⟨_, _, _, _, consumed, some _⟩ _ =>
    simp only [progress?, Option.map_some, Option.some.injEq] at h
    split at h
    · cases h
    · rename_i hincomplete
      cases h
      exact ⟨rfl, Bool.not_eq_true _ ▸ hincomplete, (hrest.foldl_remove consumed).receiveAll _⟩

end Fate

/-! ### One frame -/

namespace Host

variable {host : Host} {p : Program} {frames rest : FrameQueue} {caller id : String}
  {frame : Frame}

/-- What becomes of a popped frame. -/
def fate (host : Host) (nested : Executor) (caller : String) (p : Program) (id : String)
    (frame : Frame) (rest : FrameQueue) (s : Session) : Fate :=
  match p.node? id with
  | none => .dropped id
  | some node =>
    match host.catalog.get? node.function with
    | none => .refused id (.functionNotFound node.function)
    | some entry =>
      if node.isReady entry.signature frame then
        match Callback.extract p id entry.signature rest with
        | .error error => .refused id error
        | .ok extraction =>
          let args := node.arguments entry.signature frame
          let before := host.announced caller id node.function s
          let call := host.invokeCached nested node.function entry args extraction.closures caller
          .fired ⟨id, node, entry, args, extraction.consumed, (call before).1.toOption⟩
            ((call before).2.events.toList.drop before.events.size)
      else .deferred id frame

/-- What is told of a firing up to the end of its call. -/
theorem called_events (depth : Nat) (turn : host.Turn p frames) (caller : String) (s : Session) :
    let before := host.announced caller turn.id turn.node.function s
    let after := (host.invokeCached (host.execute depth) turn.node.function turn.entry turn.args
      turn.extraction.closures caller before).2
    after.events.toList = s.events.toList ++
      .nodeFired caller turn.id turn.node.function ::
        after.events.toList.drop before.events.size := by
  intro before after
  have hkeeps : before.events.toList ++ after.events.toList.drop before.events.toList.length =
      after.events.toList :=
    List.prefix_iff_eq_append.1 (invokeCached_keeps depth turn caller before)
  rw [Array.length_toList] at hkeeps
  nth_rewrite 1 [← hkeeps]
  rw [announced_events, List.append_assoc]
  rfl

/-- **A popped frame does what its fate says**: it leads there, and nothing else is told. -/
theorem process_fate (host : Host) (depth : Nat) (caller : String) (p : Program)
    (hpop : frames.pop? = some ((id, frame), rest)) (outputs : Record Json) (s : Session) :
    let nested := host.execute depth
    let fate := host.fate nested caller p id frame rest s
    let after := host.process nested caller p id frame rest outputs s
    after.1.toOption = fate.progress? p rest outputs ∧
      after.2.events.toList = s.events.toList ++ fate.events caller := by
  intro nested fate after
  refine process_cases (P := fun after => after.1.toOption = fate.progress? p rest outputs ∧
    after.2.events.toList = s.events.toList ++ fate.events caller) ?_ ?_ ?_ ?_ ?_ ?_
  -- Nothing is told unless the node fires.
  · intro hnode
    simp only [fate, Host.fate, hnode]
    exact ⟨rfl, (List.append_nil _).symm⟩
  · intro node hnode hentry
    simp only [fate, Host.fate, hnode, hentry]
    exact ⟨rfl, (List.append_nil _).symm⟩
  · intro node entry hnode hentry hready
    simp only [fate, Host.fate, hnode, hentry, hready]
    exact ⟨rfl, (List.append_nil _).symm⟩
  · intro node entry error hnode hentry hready hextract
    simp only [fate, Host.fate, hnode, hentry, hready, hextract, if_true]
    exact ⟨rfl, (List.append_nil _).symm⟩
  · intro node entry extraction halt s₂ hnode hentry hready hextract hcall
    have htold := called_events depth ⟨id, frame, rest, node, entry, extraction, hpop, hnode,
      hentry, hready, hextract⟩ caller s
    simp only [nested] at hcall
    simp only [Turn.args, hcall] at htold
    simp only [fate, Host.fate, hnode, hentry, hready, hextract, hcall, if_true, nested]
    refine ⟨rfl, htold.trans ?_⟩
    simp [Fate.events, Except.toOption]
  · intro node entry extraction results s₂ hnode hentry hready hextract hcall
    have htold := called_events depth ⟨id, frame, rest, node, entry, extraction, hpop, hnode,
      hentry, hready, hextract⟩ caller s
    simp only [nested] at hcall
    simp only [Turn.args, hcall] at htold
    simp only [fate, Host.fate, hnode, hentry, hready, hextract, hcall, if_true, nested]
    -- The firing, its call and its stopped branches are told one after the other.
    have hevents := (host.deliver_events id entry.signature results node.next
      (extraction.consumed.foldl FrameQueue.remove rest) s₂).trans (congrArg (· ++ _) htold)
    simp only [List.append_assoc, List.cons_append] at hevents
    exact ⟨rfl, hevents⟩

/-! ### A whole execution -/

/-- The fates of the frames that an execution takes from its queue, in order, and the queue that is
left when it ends. -/
def course (host : Host) (nested : Executor) (caller : String) (p : Program) :
    (steps : Nat) → FrameQueue → (outputs : Record Json) → Session → List Fate × FrameQueue
  | 0, frames, _, _ => ([], frames)
  | steps + 1, frames, outputs, s =>
    match frames.pop? with
    | none => ([], frames)
    | some ((id, frame), rest) =>
      let fate := host.fate nested caller p id frame rest s
      match host.process nested caller p id frame rest outputs s with
      | (.ok (.next frames outputs), s) =>
        let (log, left) := course host nested caller p steps frames outputs s
        (fate :: log, left)
      | _ => ([fate], rest)

/-- The ways in which an execution ends, given the outputs and what was told up to then. -/
inductive Ending (p : Program) (caller : String) (steps : Nat) (log : List Fate)
    (left : FrameQueue) (outputs : Record Json) (told : List Event) :
    Except Halt (Record Json) → List Event → Prop where
  | failed {halt : Halt} : log.length ≤ steps → Ending p caller steps log left outputs told
    (.error halt) told
  | complete : log.length ≤ steps → p.isComplete outputs = true →
    Ending p caller steps log left outputs told (.ok outputs) told
  | drained : log.length ≤ steps → p.isComplete outputs = false → left.toList = [] →
    Ending p caller steps log left outputs told (.ok outputs) told
  /-- The steps have run out before the queue was empty. -/
  | cut : log.length = steps → p.isComplete outputs = false → left.toList ≠ [] →
    Ending p caller steps log left outputs told (.ok outputs)
      (told ++ [.budgetExhausted caller (left.toList.map (·.1))])

theorem Ending.cons {steps : Nat} {log : List Fate} {left : FrameQueue} {outputs : Record Json}
    {told events : List Event} {result : Except Halt (Record Json)}
    (h : Ending p caller steps log left outputs told result events) (fate : Fate) :
    Ending p caller (steps + 1) (fate :: log) left outputs told result events := by
  cases h with
  | failed hlength => exact .failed (Nat.succ_le_succ hlength)
  | complete hlength hcomplete => exact .complete (Nat.succ_le_succ hlength) hcomplete
  | drained hlength hmissing hleft => exact .drained (Nat.succ_le_succ hlength) hmissing hleft
  | cut hlength hmissing hleft => exact .cut (congrArg Nat.succ hlength) hmissing hleft

/-- An execution is cut off when its steps have run out, a frame is left, and it has neither failed
nor got all its outputs. -/
def IsCut (p : Program) (steps : Nat) (log : List Fate) (left : FrameQueue)
    (result : Except Halt (Record Json)) : Prop :=
  log.length = steps ∧ left.toList ≠ [] ∧
    ∃ outputs, result = .ok outputs ∧ p.isComplete outputs = false

section Ending

variable {steps : Nat} {log : List Fate} {left : FrameQueue} {outputs : Record Json}
  {told events : List Event} {result : Except Halt (Record Json)}

theorem Ending.length_le (h : Ending p caller steps log left outputs told result events) :
    log.length ≤ steps := by
  cases h with
  | failed hlength | complete hlength _ | drained hlength _ _ => exact hlength
  | cut hlength _ _ => exact hlength.le

/-- What an execution tells at last: that it is cut off, if it is, and else nothing. -/
theorem Ending.events_eq (h : Ending p caller steps log left outputs told result events) :
    (IsCut p steps log left result →
      events = told ++ [.budgetExhausted caller (left.toList.map (·.1))]) ∧
      (¬ IsCut p steps log left result → events = told) := by
  cases h with
  | failed _ =>
    refine ⟨?_, fun _ => rfl⟩
    rintro ⟨-, -, outputs, hresult, -⟩
    cases hresult
  | complete _ hcomplete =>
    refine ⟨?_, fun _ => rfl⟩
    rintro ⟨-, -, outputs, hresult, hmissing⟩
    cases hresult
    rw [hcomplete] at hmissing
    cases hmissing
  | drained _ _ hleft =>
    refine ⟨?_, fun _ => rfl⟩
    rintro ⟨-, hne, -⟩
    exact absurd hleft hne
  | cut hlength hmissing hleft =>
    exact ⟨fun _ => rfl, fun hnot => absurd ⟨hlength, hleft, outputs, rfl, hmissing⟩ hnot⟩

/-- Where there is a result, it is what was recorded, and there is a reason for the end. -/
theorem Ending.of_ok {final : Record Json}
    (h : Ending p caller steps log left outputs told result events) (hresult : result = .ok final) :
    final = outputs ∧
      (p.isComplete final = true ∨ IsCut p steps log left result ∨ left.toList = []) := by
  cases h with
  | failed _ => cases hresult
  | complete _ hcomplete =>
    cases hresult
    exact ⟨rfl, .inl hcomplete⟩
  | drained _ _ hleft =>
    cases hresult
    exact ⟨rfl, .inr (.inr hleft)⟩
  | cut hlength hmissing hleft =>
    cases hresult
    exact ⟨rfl, .inr (.inl ⟨hlength, hleft, outputs, rfl, hmissing⟩)⟩

end Ending

/-- **An execution ends in one of the four ways.** -/
theorem drain_ending (depth steps : Nat) (hframes : frames.Sound) (outputs : Record Json)
    (hmissing : p.isComplete outputs = false) (s : Session) :
    let nested := host.execute depth
    let course := host.course nested caller p steps frames outputs s
    let final := host.drain nested caller p steps frames outputs s
    Ending p caller steps course.1 course.2 (course.1.foldl (Fate.record p) outputs)
      (s.events.toList ++ course.1.flatMap (Fate.events caller)) final.1 final.2.events.toList := by
  -- By induction on the steps. As long as the execution goes on, an output is missing: this is
  -- only tested after firings, but nothing else records outputs.
  induction steps generalizing frames outputs s with
  | zero =>
    simp only [course, drain, List.foldl_nil, List.flatMap_nil, List.append_nil]
    cases hpop : frames.pop? with
    | none => exact .drained le_rfl hmissing (hframes.toList_of_pop?_eq_none hpop)
    | some popped =>
      obtain ⟨⟨id, frame⟩, rest⟩ := popped
      have hpending := hframes.pending_popped hpop
      simp only [exhaust, Run.bind_eq, Run.pure_eq]
      rw [Run.andThen_of_ok ((Run.andThen_of_ok (Run.note_eq ..)).trans (Run.emit_eq ..))]
      simp only [Run.result, Run.emit_events, Array.toList_push, hpending]
      refine .cut rfl hmissing fun hnil => ?_
      rw [hnil] at hpending
      cases hpending
  | succ steps ih =>
    simp only [course, drain]
    cases hpop : frames.pop? with
    | none =>
      simp only [List.foldl_nil, List.flatMap_nil, List.append_nil]
      exact .drained (Nat.zero_le _) hmissing (hframes.toList_of_pop?_eq_none hpop)
    | some popped =>
      obtain ⟨⟨id, frame⟩, rest⟩ := popped
      obtain ⟨hprogress, hevents⟩ := host.process_fate depth caller p hpop outputs s
      simp only [Run.bind_eq, Run.pure_eq]
      rcases hp : host.process (host.execute depth) caller p id frame rest outputs s with
        ⟨halt | ⟨frames', outputs'⟩ | final, s'⟩
      · rw [hp] at hevents
        rw [Run.andThen_of_error hp]
        simp only [List.flatMap_singleton, ← hevents]
        exact .failed (Nat.succ_le_succ (Nat.zero_le steps))
      · rw [hp] at hevents hprogress
        rw [Run.andThen_of_ok hp]
        obtain ⟨rfl, hmissing', hframes'⟩ :=
          Fate.progress?_next hprogress.symm hmissing (hframes.pop hpop)
        have hrest := ih hframes' _ hmissing' s'
        simp only [List.foldl_cons, List.flatMap_cons, ← List.append_assoc, ← hevents]
        exact hrest.cons _
      · rw [hp] at hevents hprogress
        rw [Run.andThen_of_ok hp]
        obtain ⟨rfl, hcomplete⟩ := Fate.progress?_complete hprogress.symm
        simp only [List.flatMap_singleton, List.foldl_cons, List.foldl_nil, ← hevents]
        exact .complete (Nat.succ_le_succ (Nat.zero_le steps)) hcomplete

private theorem steps_eq (p : Program) (slack : UInt64) :
    p.steps slack = max ((p.size + slack.toNat) % 2 ^ 64) 1 - 1 := by
  rw [Program.steps, UInt64.toNat_add, UInt64.toNat_ofNat', Nat.mod_add_mod]
  omega

/-- **The step budget and the outcome of an execution.** An execution processes at most so many
frames as the node count and the slack grant, where the sum is taken modulo `2 ^ 64` and the last
step is not used. It is cut off exactly when so many frames have been processed, a frame is left,
and the execution has not ended before, by a failure or with the last output. It tells its firings,
with what their calls tell, and at the end, if it is cut off, which frames are left. When there is a
result, its names are declared; all of them are present, or the execution was cut off, or no frame
is left; and each value comes from the latest firing that recorded one under the name. -/
theorem execute_exact (host : Host) (depth : Nat) (caller : String) (p : Program)
    {frames : FrameQueue} (hframes : frames.Sound) (s : Session) :
    let course := host.course (host.execute depth) caller p (p.steps host.slack) frames .empty s
    let log := course.1
    let left := course.2
    let final := host.execute (depth + 1) caller p frames s
    let told := s.events.toList ++ log.flatMap (Fate.events caller)
    let cut := IsCut p (p.steps host.slack) log left final.1
    p.steps host.slack = max ((p.size + host.slack.toNat) % 2 ^ 64) 1 - 1 ∧
      (p.size + host.slack.toNat < 2 ^ 64 →
        p.steps host.slack = max (p.size + host.slack.toNat) 1 - 1) ∧
      log.length ≤ p.steps host.slack ∧
      (cut → final.2.events.toList =
        told ++ [.budgetExhausted caller (left.toList.map (·.1))]) ∧
      (¬ cut → final.2.events.toList = told) ∧
      ∀ outputs, final.1 = .ok outputs →
        (∀ name, outputs.contains name = true → name ∈ p.outputNames) ∧
        ((p.output ≠ [] ∧ ∀ name ∈ p.outputNames, outputs.contains name = true) ∨ cut ∨
          left.toList = []) ∧
        ∀ name, outputs.get? name = log.reverse.findSome? (Fate.recorded? p name) := by
  intro course log left final told cut
  have hempty : p.isComplete .empty = false := by
    rw [← Bool.not_eq_true, Program.isComplete_iff]
    rintro ⟨hdeclared, hall⟩
    obtain ⟨b, hb⟩ := List.exists_mem_of_ne_nil _ hdeclared
    cases hall b.name (List.mem_map_of_mem hb)
  have hending : Ending p caller (p.steps host.slack) log left (log.foldl (Fate.record p) .empty)
      told final.1 final.2.events.toList :=
    drain_ending depth (p.steps host.slack) hframes .empty hempty s
  have hsteps := steps_eq p host.slack
  refine ⟨hsteps, fun hfits => by rw [hsteps, Nat.mod_eq_of_lt hfits], hending.length_le,
    hending.events_eq.1, hending.events_eq.2, fun outputs houtputs => ?_⟩
  obtain ⟨hrecorded, hreason⟩ := hending.of_ok houtputs
  refine ⟨fun name => execute_names (Prod.ext houtputs rfl), ?_, fun name => ?_⟩
  · rwa [← Program.isComplete_iff]
  · rw [hrecorded, Fate.get?_foldl_record, Record.get?_empty]
    simp

/-- Without slack, the last of three nodes does not get its turn. -/
theorem execute_exact_trio :
    let host : Host := { branches with slack := 0 }
    let frames := Program.trio.heads.foldl FrameQueue.ensure .empty
    frames.Sound ∧ Program.trio.steps host.slack = 2 ∧
      (host.execute 1 "main" Program.trio frames ⟨none, #[], #[], default⟩).2.events.toList =
        [.nodeFired "main" "a" "ctrl.if", .nodeFired "main" "b" "ctrl.if",
          .budgetExhausted "main" ["c"]] := by
  intro host frames
  have hframes : frames.Sound := FrameQueue.Sound.empty.ensureAll _
  obtain ⟨hsteps, -, -, hcut, -⟩ :=
    execute_exact host 0 "main" Program.trio hframes ⟨none, #[], #[], default⟩
  refine ⟨hframes, hsteps.trans (by decide +kernel), ?_⟩
  refine (hcut ⟨by decide +kernel, by decide +kernel, ?_⟩).trans (by decide +kernel)
  exact ⟨.ofList [("a", .bool true), ("b", .bool true)], by decide +kernel, by decide +kernel⟩

/-- A slack so large that the sum does not fit leaves one step, and the execution is cut off with
most of its budget unused. -/
theorem cut_off_by_overflow :
    let host : Host := { branches with slack := 18446744073709551615 }
    let frames := Program.trio.heads.foldl FrameQueue.ensure .empty
    Program.trio.size + host.slack.toNat = 2 ^ 64 + 2 ∧
      (host.course (host.execute 0) "main" .trio (Program.trio.steps host.slack) frames .empty
        ⟨none, #[], #[], default⟩).1.length = 1 ∧
      (host.execute 1 "main" Program.trio frames ⟨none, #[], #[], default⟩).2.events.toList =
        [.nodeFired "main" "a" "ctrl.if", .budgetExhausted "main" ["b", "c"]] := by
  decide +kernel

end Host

end Dataflow

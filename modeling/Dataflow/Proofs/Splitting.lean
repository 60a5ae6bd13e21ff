/-
Splitting texts and joining them again.

A text is cut at every single blank, so it has one part more than it has blanks, and no part has a
blank in it. Joining puts the blanks back. The two undo each other, on lists of parts and on texts,
and they do so when a program calls one after the other: the node that joins has its separator from
the start and fires once the parts have arrived.

* `Library.splitBlanks_eq_splitOn` — splitting is splitting a list at a character;
* `Library.joined_parts`, `Library.parts_joined` — on texts, the two undo each other;
* `Library.gives_split`, `Library.gives_join` — the functions of the library;
* `Host.drain_of_plain` — one step of an execution, if its node calls a function without callbacks;
* `Environment.split_join_inverse` — runs of the program that splits and joins.
-/
import Mathlib
import Dataflow.Proofs.Isolation
import Dataflow.Proofs.Reordering
namespace Dataflow

namespace Library

/-! ### Parts of texts -/

theorem splitBlanks_eq_splitOn (cs : List Char) : splitBlanks cs = cs.splitOn ' ' := by
  induction cs with
  | nil => rfl
  | cons c rest ih =>
    rw [splitBlanks, ih, List.splitOn, List.splitOn, List.splitOnP_cons_eq_if_modifyHead]
    by_cases hc : c = ' '
    · simp [hc]
    · obtain ⟨part, parts, hparts⟩ :=
        List.exists_cons_of_ne_nil (List.splitOnP_ne_nil (fun x => x == ' ') rest)
      simp [hc, hparts]

private theorem joinParts_splitBlanks (cs : List Char) : joinParts [' '] (splitBlanks cs) = cs := by
  rw [joinParts, splitBlanks_eq_splitOn]
  exact List.intercalate_splitOn ' '

private theorem splitBlanks_joinParts {parts : List (List Char)} (h : ∀ part ∈ parts, ' ' ∉ part)
    (hne : parts ≠ []) : splitBlanks (joinParts [' '] parts) = parts := by
  rw [joinParts, splitBlanks_eq_splitOn]
  exact List.splitOn_intercalate ' ' h hne

/-- The parts of a text. -/
def parts (s : String) : List String := (splitBlanks s.toList).map String.ofList

/-- Texts with blanks between them. -/
def joined (words : List String) : String := .ofList (joinParts [' '] (words.map String.toList))

theorem joined_parts (s : String) : joined (parts s) = s := by
  have hparts : (parts s).map String.toList = splitBlanks s.toList := by
    simp [parts, Function.comp_def]
  rw [joined, hparts, joinParts_splitBlanks, String.ofList_toList]

theorem parts_joined {words : List String} (h : ∀ word ∈ words, ' ' ∉ word.toList)
    (hne : words ≠ []) : parts (joined words) = words := by
  have hblanks : ∀ part ∈ words.map String.toList, ' ' ∉ part := by simpa using h
  rw [parts, joined, String.toList_ofList, splitBlanks_joinParts hblanks (by simpa using hne)]
  simp [Function.comp_def]

theorem gives_split (s : String) :
    catalog.Gives "str.split" [("str", .string s)] "arr" (.array ((parts s).map .string)) := by
  have hname : catalog.get? "str.split" = some (.native strSplit.signature strSplit.runner) := rfl
  have hs : (Record.ofList [("str", Json.string s)]).get? "str" = some (.string s) :=
    Record.get?_insert_self ..
  refine Catalog.gives_of_plain hname ?_
  simp only [string_of_get? hs, parts, List.map_map]
  rfl

theorem gives_join (words : List String) :
    catalog.Gives "str.join" [("arr", .array (words.map .string)), ("sep", .string " ")] "str"
      (.string (joined words)) := by
  have hname : catalog.get? "str.join" = some (.native strJoin.signature strJoin.runner) := rfl
  have hd : ([("arr", Json.array (words.map .string)), ("sep", .string " ")].map
      (·.1)).Nodup := by simp
  have hitems := Record.get?_ofList_of_mem hd (.head _)
  have hsep := Record.get?_ofList_of_mem hd (.tail _ (.head _))
  have hshown : (words.map Json.string).map shown = words.map String.toList := by
    simp [shown, Function.comp_def]
  refine Catalog.gives_of_plain hname ?_
  simp only [array_of_get? hitems, string_of_get? hsep, joined, ← hshown]
  rfl

end Library

/-! ### Runs -/

namespace Host

variable {host : Host} {nested : Executor} {p : Program} {id : String} {node : Node} {entry : Entry}
  {frame : Frame} {frames rest : FrameQueue} {results : Outputs} {s : Session}

/-- A call of a function that needs nothing but its arguments. -/
theorem invokeCached_of_result? {args : Record Json}
    (hentry : host.catalog.get? node.function = some entry)
    (hresults : host.catalog.result? node.function args = some results) (hcache : s.cache = none)
    (nested : Executor) (caller : String) :
    (host.invokeCached nested node.function entry args .empty caller s).1 = .ok results := by
  rw [Catalog.result?, hentry] at hresults
  rw [invokeCached_of_none (by rw [hcache]; rfl)]
  cases entry with
  | native signature runner => exact Script.perform_of_value? hresults _ s
  | program signature q => cases hresults

/-- A node that calls a function without callbacks fires when it is ready: its results are recorded
and delivered. -/
theorem drain_of_plain (hn : nested.Steady) (hpop : frames.pop? = some ((id, frame), rest))
    (hcalls : p.Calls host.catalog id node entry) (hplain : entry.signature.callbacks = .empty)
    (hready : node.isReady entry.signature frame = true)
    (hresults : host.catalog.result? node.function (node.arguments entry.signature frame) =
      some results) (hcache : s.cache = none) (caller : String) (steps : Nat)
    (outputs : Record Json) :
    ∃ s', s'.cache = none ∧ host.drain nested caller p (steps + 1) frames outputs s =
      if p.isComplete (p.recordOutputs id results outputs) then
        (.ok (p.recordOutputs id results outputs), s')
      else
        host.drain nested caller p steps
          (rest.receiveAll (Delivery.ofFiring entry.signature results node.next))
          (p.recordOutputs id results outputs) s' := by
  have hprocessed : host.Processed nested caller p id frame rest outputs s
      (host.firing? nested caller p id frame rest s)
      (host.process nested caller p id frame rest outputs s) := process_processed
  have hsteady := hprocessed.steady hn
  rw [drain, hpop]
  simp only [Run.bind_eq]
  -- The call gives what the function gives by itself, so the node does not fail.
  obtain ⟨s₁, s₂, hquiet, hcases⟩ := hprocessed.of_plain hcalls hplain hready
  have hgiven := invokeCached_of_result? hcalls.entry_eq hresults (hquiet.cache.trans hcache)
    nested caller
  rcases hcases with ⟨halt, hcall, -⟩ | ⟨given, s₃, hcall, hresult⟩
  · rw [hcall] at hgiven
    cases hgiven
  · rw [hcall] at hgiven
    cases hgiven
    rw [hresult] at hsteady
    refine ⟨s₃, Session.cache_eq_none hcache hsteady, ?_⟩
    rw [Run.andThen_of_ok hresult]
    split <;> rfl

end Host

/-- A text is split at its blanks, and the parts are joined again with a separator that is given
from outside. -/
def splitJoin : Program where
  input := [⟨"it", ⟨"0", "str"⟩, .string⟩, ⟨"sep", ⟨"1", "sep"⟩, .string⟩]
  output := [⟨"out", ⟨"1", "str"⟩, .string⟩]
  nodes := .ofList [
    ("0", ⟨"str.split", [⟨"1", "arr", "arr"⟩], .empty⟩),
    ("1", .bare "str.join")]

namespace splitJoin

theorem firstFrames_eq (s : String) :
    splitJoin.firstFrames (.ofList [("it", .string s), ("sep", .string " ")]) =
      .ok ((FrameQueue.empty.add "0" "str" (.string s)).add "1" "sep" (.string " ")) := by
  have hd : ([("it", Json.string s), ("sep", .string " ")].map (·.1)).Nodup := by simp
  have hit := Record.get?_ofList_of_mem hd (.head _)
  have hsep := Record.get?_ofList_of_mem hd (.tail _ (.head _))
  simp only [Program.firstFrames, splitJoin, List.foldlM_cons, List.foldlM_nil, hit, hsep]
  rfl

private theorem calls_split :
    splitJoin.Calls Library.catalog "0" ⟨"str.split", [⟨"1", "arr", "arr"⟩], .empty⟩
      (.native Library.strSplit.signature Library.strSplit.runner) :=
  ⟨rfl, rfl⟩

private theorem calls_join :
    splitJoin.Calls Library.catalog "1" (.bare "str.join")
      (.native Library.strJoin.signature Library.strJoin.runner) :=
  ⟨rfl, rfl⟩

private theorem deliveries_split (value : Json) :
    Delivery.ofFiring Library.strSplit.signature (Library.single "arr" value)
      [⟨"1", "arr", "arr"⟩] = [⟨"1", "arr", value⟩] := by
  have hdeclared : Library.strSplit.signature.hasOutput "arr" = true := by decide
  simp [Delivery.ofFiring, Edge.carried?, hdeclared, Library.single, Flow.value?]

/-- The node that splits is the first in line. -/
theorem pop?_split (value : Json) :
    ((FrameQueue.empty.add "0" "str" value).add "1" "sep" (.string " ")).pop? =
      some (("0", .ofList [("str", value)]), FrameQueue.empty.add "1" "sep" (.string " ")) :=
  rfl

/-- The node that joins has waited with its separator for the parts. -/
theorem pop?_join (value : Json) :
    ((FrameQueue.empty.add "1" "sep" (.string " ")).add "1" "arr" value).pop? =
      some (("1", (Record.ofList [("sep", .string " ")]).insert "arr" value), .empty) :=
  rfl

private theorem arguments_split (value : Json) :
    Node.arguments ⟨"str.split", [⟨"1", "arr", "arr"⟩], .empty⟩ Library.strSplit.signature
      (.ofList [("str", value)]) = .ofList [("str", value)] :=
  rfl

private theorem arguments_join (value : Json) :
    (Node.bare "str.join").arguments Library.strJoin.signature
      ((Record.ofList [("sep", .string " ")]).insert "arr" value) =
        .ofList [("arr", value), ("sep", .string " ")] :=
  rfl

private theorem recordOutputs_split (results : Outputs) :
    splitJoin.recordOutputs "0" results .empty = .empty :=
  rfl

private theorem recordOutputs_join (value : Json) :
    splitJoin.recordOutputs "1" (Library.single "str" value) .empty = .ofList [("out", value)] :=
  rfl

private theorem isComplete_join (value : Json) :
    splitJoin.isComplete (.ofList [("out", value)]) = true :=
  rfl

/-- The two nodes fire one after the other, and then the output is there. -/
theorem runProgram_eq {host : Host} (hcatalog : host.catalog = Library.catalog)
    (hslack : host.slack = 10) {session : Session} (hcache : session.cache = none) (depth : Nat)
    (caller s : String) :
    (Host.runProgram (host.execute (depth + 1)) splitJoin
      (.ofList [("it", .string s), ("sep", .string " ")]) caller session).1 =
        .ok (.ofList [("out", .string s)]) := by
  have hsteady := host.execute_steady depth
  have hsplit := Library.gives_split s
  have hjoin := Library.gives_join (Library.parts s)
  rw [Catalog.Gives, ← hcatalog, ← arguments_split] at hsplit
  rw [Catalog.Gives, ← hcatalog, ← arguments_join, Library.joined_parts] at hjoin
  obtain ⟨s₁, hs₁, hfirst⟩ := Host.drain_of_plain hsteady (pop?_split (.string s))
    (hcatalog ▸ calls_split) rfl rfl hsplit hcache caller (9 + 1) .empty
  obtain ⟨s₂, -, hsecond⟩ := Host.drain_of_plain hsteady (pop?_join _)
    (hcatalog ▸ calls_join) rfl rfl hjoin hs₁ caller 9 .empty
  rw [recordOutputs_split, if_neg (by decide)] at hfirst
  rw [recordOutputs_join, if_pos (isComplete_join _)] at hsecond
  simp only [Entry.signature, deliveries_split] at hfirst
  rw [Host.runProgram_of_ok (firstFrames_eq s)]
  show (host.drain (host.execute depth) caller splitJoin (splitJoin.steps host.slack) _ .empty
    session).1 = _
  rw [hslack, show splitJoin.steps 10 = 9 + 1 + 1 from rfl]
  exact congrArg Prod.fst (hfirst.trans hsecond)

end splitJoin

namespace Environment

private theorem opened_eq (catalog : Catalog) (config : Config) (observer : Observer) :
    opened catalog config observer =
      ⟨catalog, config, config.cache.map .ofConfig, observer⟩ := by
  rw [opened, ofConfig]
  split <;> rfl

/-- **Splitting and joining undo each other.** With the library and the default settings, the
program that splits a text at its blanks and joins the parts with blanks returns the text, whatever
the text is. The other way round, texts without blanks that are joined with a blank are the parts of
what comes out, if there is at least one of them. -/
theorem split_join_inverse :
    (∀ (observer : Observer) (run : String) (random : RandomSource) (s : String),
      ((opened Library.catalog .default observer).run run random splitJoin
        (.ofList [("it", .string s), ("sep", .string " ")])).outcome =
          .ok (.ofList [("out", .string s)])) ∧
    ∀ words : List String, words ≠ [] → (∀ word ∈ words, ' ' ∉ word.toList) →
      ∃ text, Library.catalog.Gives "str.join"
          [("arr", .array (words.map .string)), ("sep", .string " ")] "str" (.string text) ∧
        Library.catalog.Gives "str.split" [("str", .string text)] "arr"
          (.array (words.map .string)) := by
  refine ⟨fun observer run random s => ?_, fun words hne hwords => ?_⟩
  · rw [opened_eq]
    obtain ⟨session, hquiet, houtcome⟩ := session_outcome
      ⟨Library.catalog, .default, none, observer⟩ (depthLimit - 1 + 1) run splitJoin
      (.ofList [("it", .string s), ("sep", .string " ")]) ⟨none, #[], #[], random⟩
    exact houtcome.trans (splitJoin.runProgram_eq rfl rfl hquiet.cache _ _ _)
  · have hsplit := Library.gives_split (Library.joined words)
    rw [Library.parts_joined hwords hne] at hsplit
    exact ⟨_, Library.gives_join words, hsplit⟩

/-- Blanks at both ends and two in a row make empty parts, and these are kept. -/
theorem split_join_inverse_blanks :
    ((opened Library.catalog .default fun _ => none).run "" default splitJoin
      (.ofList [("it", .string " a  b "), ("sep", .string " ")])).outcome =
        .ok (.ofList [("out", .string " a  b ")]) ∧
    (∀ word ∈ ["", "a", "", "b", ""], ' ' ∉ word.toList) ∧
    ∃ text, Library.catalog.Gives "str.join"
        [("arr", .array (["", "a", "", "b", ""].map .string)), ("sep", .string " ")] "str"
        (.string text) ∧
      Library.catalog.Gives "str.split" [("str", .string text)] "arr"
        (.array (["", "a", "", "b", ""].map .string)) :=
  ⟨split_join_inverse.1 _ _ _ _, by decide, split_join_inverse.2 _ (by decide) (by decide)⟩

end Environment

end Dataflow

/-
What library functions can do.

`Script.Within` bounds what a script may do: the errors it fails with, the callbacks it calls,
whether it draws random numbers and whether it crashes. Answers of callbacks are only assumed to
fail with errors that the script itself may fail with. The rules for it follow the ways in which
scripts are put together.

* `Library.function_within` — a library function reads no argument that it does not declare, calls
  declared callbacks with all their inputs, draws no random number unless it is `math.random`, and
  crashes only if it is `str.repeat` and its text becomes too long;
* `Library.function_deterministic` — all functions but `math.random` are deterministic;
* `Library.function_sturdy` — when a function can crash;
* `Library.get?_catalog` — the catalog of the library holds these functions and no others.
-/
import Mathlib
import Dataflow.Library
import Dataflow.Proofs.Record
namespace Dataflow

/-- Whether an error says that something was looked up and not found, or cannot be written. -/
def RunError.isLookup : RunError → Bool
  | .functionNotFound _ | .missingInput _ | .missingCallbackInput _ _ | .argumentNotFound _
  | .unknownCallback _ | .serialization _ => true
  | .invalidArgument _ _ | .callbackWiring _ _ _ | .executionFailed _ => false

/-- What a script may do. -/
structure Limits where
  errors : RunError → Prop
  calls : String → Record Json → Prop
  draws : Prop
  crashes : Prop

/-- All errors are within the limits. -/
def Limits.Permits {α : Type} (limits : Limits) (x : Except RunError α) : Prop :=
  ∀ error, x = .error error → limits.errors error

/-- A script that stays within the limits, as long as its callbacks do. -/
inductive Script.Within {α : Type} (limits : Limits) : Script α → Prop where
  | done (a : α) : Within limits (.done a)
  | fail {error : RunError} : limits.errors error → Within limits (.fail error)
  | crash : limits.crashes → Within limits .crash
  | call {callback : String} {args : Record Json}
    {resume : Except RunError (Record Json) → Script α} :
    limits.calls callback args → (∀ answer, limits.Permits answer → Within limits (resume answer)) →
    Within limits (.call callback args resume)
  | remark {level : Level} {text : String} {next : Script α} :
    Within limits next → Within limits (.remark level text next)
  | random {resume : Float → Script α} :
    limits.draws → (∀ x, Within limits (resume x)) → Within limits (.random resume)

/-- A script that does not crash, whatever its callbacks answer. -/
def Script.Sturdy {α : Type} (s : Script α) : Prop :=
  s.Within ⟨fun _ => True, fun _ _ => True, True, False⟩

/-! ### Rules -/

namespace Limits.Permits

variable {α β : Type} {limits : Limits}

theorem ok (a : α) : limits.Permits (.ok a) := fun _ h => nomatch h

theorem error {e : RunError} (h : limits.errors e) : limits.Permits (.error e : Except _ α) := by
  intro e' he
  cases he
  exact h

theorem bind {x : Except RunError α} {f : α → Except RunError β} (hx : limits.Permits x)
    (hf : ∀ a, limits.Permits (f a)) : limits.Permits (x >>= f) := by
  cases x with
  | error e => exact error (hx e rfl)
  | ok a => exact hf a

end Limits.Permits

namespace Script

variable {α β : Type} {limits : Limits}

theorem Within.bind {s : Script α} {f : α → Script β} (hs : s.Within limits)
    (hf : ∀ a, (f a).Within limits) : (s >>= f).Within limits := by
  show (s.bind f).Within limits
  induction hs with
  | done a => exact hf a
  | fail h => exact .fail h
  | crash h => exact .crash h
  | call h _ ih => exact .call h ih
  | remark _ ih => exact .remark ih
  | random h _ ih => exact .random h ih

private theorem within_ofExcept {x : Except RunError α} (h : limits.Permits x) :
    (ofExcept x).Within limits := by
  cases x with
  | ok a => exact .done a
  | error e => exact .fail (h e rfl)

private theorem within_askFor {callback output : String} {args : Record Json}
    (hcall : limits.calls callback args)
    (hfail : ∀ reason, limits.errors (.executionFailed reason)) :
    (askFor callback args output).Within limits := by
  refine Within.bind (.call hcall fun answer hanswer => within_ofExcept hanswer) fun answer => ?_
  split
  · exact .done _
  · exact .fail (hfail _)

/-- A script that may not draw random numbers is deterministic. -/
theorem Within.deterministic {s : Script α}
    (hs : s.Within ⟨fun _ => True, fun _ _ => True, False, True⟩) : s.Deterministic := by
  induction hs with
  | done a => exact .done a
  | fail _ => exact .fail _
  | crash _ => exact .crash
  | call _ _ ih => exact .call _ _ _ fun answer => ih answer fun _ _ => trivial
  | remark _ ih => exact .remark _ _ _ ih
  | random h _ _ => exact h.elim

end Script

/-! ### Arguments -/

/-- Whether a callback of the function is called with all its inputs. -/
def Signature.Admits (s : Signature) (callback : String) (args : Record Json) : Prop :=
  ∃ body, s.callbacks.get? callback = some body ∧
    ∀ name ∈ Param.names body.input, args.contains name = true

/-- The limits leave room for calls of a function with the given arguments. -/
structure Limits.Fits (limits : Limits) (s : Signature) (args : Record Json) : Prop where
  errors : ∀ error : RunError, error.isLookup = false → limits.errors error
  arguments : ∀ key ∈ s.inputNames, args.get? key = none → limits.errors (.argumentNotFound key)
  calls : ∀ callback args, s.Admits callback args → limits.calls callback args

namespace Limits.Fits

variable {limits : Limits} {s : Signature} {args : Record Json} {key : String}

theorem argument (h : limits.Fits s args) (hkey : key ∈ s.inputNames) :
    limits.Permits (Library.argument args key) := by
  rw [Library.argument]
  cases hget : args.get? key with
  | none => exact .error (h.arguments key hkey hget)
  | some value => exact .ok value

theorem number (h : limits.Fits s args) (hkey : key ∈ s.inputNames) :
    limits.Permits (Library.number args key) := by
  refine (h.argument hkey).bind fun value => ?_
  cases value with
  | number n => exact .ok _
  | null | bool _ | string _ | array _ | object _ => exact .error (h.errors _ rfl)

theorem string (h : limits.Fits s args) (hkey : key ∈ s.inputNames) :
    limits.Permits (Library.string args key) := by
  refine (h.argument hkey).bind fun value => ?_
  cases value with
  | string s => exact .ok s
  | null | bool _ | number _ | array _ | object _ => exact .error (h.errors _ rfl)

theorem array (h : limits.Fits s args) (hkey : key ∈ s.inputNames) :
    limits.Permits (Library.array args key) := by
  refine (h.argument hkey).bind fun value => ?_
  cases value with
  | array items => exact .ok items
  | null | bool _ | number _ | string _ | object _ => exact .error (h.errors _ rfl)

end Limits.Fits

theorem Catalog.get?_register (c : Catalog) (name other : String) (entry : Entry) :
    (c.register name entry).get? other = if other = name then some entry else c.get? other :=
  Record.get?_insert ..

namespace Library

theorem number_of_get? {args : Record Json} {key : String} {n : Number}
    (h : args.get? key = some (.number n)) : number args key = .ok n.toFloat := by
  rw [number, argument, h]
  rfl

theorem string_of_get? {args : Record Json} {key s : String}
    (h : args.get? key = some (.string s)) : string args key = .ok s := by
  rw [string, argument, h]
  rfl

private theorem get?_of_number {args : Record Json} {key : String} {x : Float}
    (h : number args key = .ok x) : ∃ n, args.get? key = some (.number n) ∧ n.toFloat = x := by
  rw [number, argument] at h
  cases hget : args.get? key with
  | none => rw [hget] at h; cases h
  | some value =>
    rw [hget] at h
    cases value with
    | number n => exact ⟨n, rfl, Except.ok.inj h⟩
    | null | bool _ | string _ | array _ | object _ => cases h

private theorem get?_of_string {args : Record Json} {key s : String}
    (h : string args key = .ok s) : args.get? key = some (.string s) := by
  rw [string, argument] at h
  cases hget : args.get? key with
  | none => rw [hget] at h; cases h
  | some value =>
    rw [hget] at h
    cases value with
    | string t => rw [Except.ok.inj h]
    | null | bool _ | number _ | array _ | object _ => cases h

theorem array_of_get? {args : Record Json} {key : String} {items : List Json}
    (h : args.get? key = some (.array items)) : array args key = .ok items := by
  rw [array, argument, h]
  rfl

/-! ### Functions without callbacks -/

/-- A function that stays within all limits that fit its signature. -/
def NativeFunction.Disciplined (f : NativeFunction) : Prop :=
  ∀ {limits : Limits} {args : Record Json} (callbacks : List String),
    limits.Fits f.signature args → (f.runner args callbacks).Within limits

private theorem binary_disciplined (name : String) (op : Float → Float → Float) :
    (binary name op).Disciplined := by
  intro limits args callbacks h
  refine Script.within_ofExcept ?_
  refine (h.number (show "a" ∈ ["a", "b"] by decide)).bind fun a => ?_
  exact (h.number (show "b" ∈ ["a", "b"] by decide)).bind fun b => .ok _

private theorem unary_disciplined (name output : String) (op : Float → Float) :
    (unary name output op).Disciplined := by
  intro limits args callbacks h
  exact Script.within_ofExcept
    ((h.number (show "a" ∈ ["a"] by decide)).bind fun a => .ok _)

private theorem comparison_disciplined (name : String) (op : Float → Float → Bool) :
    (comparison name op).Disciplined := by
  intro limits args callbacks h
  refine Script.within_ofExcept ?_
  refine (h.number (show "a" ∈ ["a", "b"] by decide)).bind fun a => ?_
  exact (h.number (show "b" ∈ ["a", "b"] by decide)).bind fun b => .ok _

private theorem indexed_disciplined (name key : String) (output : Param)
    (f : List Json → Float → Json) :
    (indexed name key output f).Disciplined := by
  intro limits args callbacks h
  refine Script.within_ofExcept ?_
  refine (h.array (List.mem_cons_self ..)).bind fun items => ?_
  exact (h.number (List.mem_cons_of_mem _ (List.mem_cons_self ..))).bind fun x => .ok _

private theorem valueNum_disciplined : valueNum.Disciplined := by
  intro limits args callbacks h
  exact Script.within_ofExcept ((h.number (by decide)).bind fun x => .ok _)

private theorem ctrlIf_disciplined : ctrlIf.Disciplined := by
  intro limits args callbacks h
  refine Script.within_ofExcept ?_
  refine (h.argument (by decide)).bind fun condition => ?_
  -- Only the branch that is taken is looked up.
  have hbranch : (if truthy condition then "true" else "false") ∈ ctrlIf.signature.inputNames := by
    cases truthy condition <;> decide
  exact (h.argument hbranch).bind fun data => .ok _

private theorem ctrlSplit_disciplined : ctrlSplit.Disciplined := by
  intro limits args callbacks h
  refine (Script.within_ofExcept (h.argument (by decide))).bind fun data => ?_
  refine (Script.within_ofExcept (h.argument (by decide))).bind fun condition => ?_
  exact .remark (.done _)

private theorem strSplit_disciplined : strSplit.Disciplined := by
  intro limits args callbacks h
  exact Script.within_ofExcept ((h.string (by decide)).bind fun s => .ok _)

private theorem strJoin_disciplined : strJoin.Disciplined := by
  intro limits args callbacks h
  refine Script.within_ofExcept ?_
  refine (h.string (by decide)).bind fun sep => ?_
  exact (h.array (by decide)).bind fun items => .ok _

/-- The arguments ask for a text that is too long. -/
def Overlong (args : Record Json) : Prop :=
  ∃ s n, args.get? "str" = some (.string s) ∧ args.get? "repeatNum" = some (.number n) ∧
    isOverlong s (Integral.truncate n.toFloat).toNat = true

/-- A repetition crashes only if its text becomes too long. -/
theorem strRepeat_within {limits : Limits} {args : Record Json} (callbacks : List String)
    (h : limits.Fits strRepeat.signature args) (hcrashes : Overlong args → limits.crashes) :
    (strRepeat.runner args callbacks).Within limits := by
  have hstring := h.string (show "str" ∈ strRepeat.signature.inputNames by decide)
  have hnumber := h.number (show "repeatNum" ∈ strRepeat.signature.inputNames by decide)
  simp only [strRepeat]
  cases hs : string args "str" with
  | error error => exact .fail (hstring error hs)
  | ok s =>
    cases hcount : number args "repeatNum" with
    | error error => exact .fail (hnumber error hcount)
    | ok count =>
      obtain ⟨n, hn, rfl⟩ := get?_of_number hcount
      show Script.Within limits (if Integral.truncate n.toFloat < 0 then _ else _)
      split
      · exact .fail (h.errors _ rfl)
      · split
        · rename_i hlong
          exact .crash (hcrashes ⟨s, n, get?_of_string hs, hn, hlong⟩)
        · exact .done _

/-- A repetition that becomes too long crashes. -/
theorem strRepeat_of_overlong {args : Record Json} (h : Overlong args) (callbacks : List String) :
    strRepeat.runner args callbacks = .crash := by
  obtain ⟨s, n, hs, hn, hlong⟩ := h
  have hnonneg : ¬Integral.truncate n.toFloat < 0 := by
    intro hneg
    rw [Int.toNat_of_nonpos hneg.le, isOverlong, Nat.mul_zero] at hlong
    exact absurd hlong (by decide)
  simp only [strRepeat, string_of_get? hs, number_of_get? hn]
  show (if Integral.truncate n.toFloat < 0 then _ else _) = Script.crash
  rw [if_neg hnonneg, if_pos hlong]

private theorem arraySlice_disciplined : arraySlice.Disciplined := by
  intro limits args callbacks h
  refine Script.within_ofExcept ?_
  refine (h.array (by decide)).bind fun items => ?_
  refine (h.number (by decide)).bind fun start => ?_
  exact (h.number (by decide)).bind fun stop => .ok _

private theorem arrayReverse_disciplined : arrayReverse.Disciplined := by
  intro limits args callbacks h
  exact Script.within_ofExcept ((h.array (by decide)).bind fun items => .ok _)

/-! ### Functions with a callback -/

/-- The limits leave room for calls of the callback with inputs of the given names. -/
structure Consults (limits : Limits) (names : List String) : Prop where
  errors : ∀ error : RunError, error.isLookup = false → limits.errors error
  calls : ∀ entries : List (String × Json), entries.map (·.1) = names →
    limits.calls "cb" (.ofList entries)

section Consult

variable {limits : Limits}

private theorem consult_within {names : List String} (h : Consults limits names)
    {entries : List (String × Json)} (hnames : entries.map (·.1) = names) :
    (consult entries).Within limits :=
  Script.within_askFor (h.calls entries hnames) fun _ => h.errors _ rfl

private theorem mapItems_within (h : Consults limits ["item"]) (items : List Json) :
    (mapItems items).Within limits := by
  induction items with
  | nil => exact .done []
  | cons item rest ih =>
    refine (consult_within h rfl).bind fun answer => ?_
    exact ih.bind fun answers => .done _

private theorem filterItems_within (h : Consults limits ["item"]) (items : List Json) :
    (filterItems items).Within limits := by
  induction items with
  | nil => exact .done []
  | cons item rest ih =>
    refine (consult_within h rfl).bind fun answer => ?_
    exact ih.bind fun kept => .done _

private theorem findItem_within (h : Consults limits ["item"]) (start : Nat) (items : List Json) :
    (findItem start items).Within limits := by
  induction items generalizing start with
  | nil => exact .done none
  | cons item rest ih =>
    refine (consult_within h rfl).bind fun answer => ?_
    split
    · exact .done _
    · exact ih (start + 1)

private theorem foldItems_within (h : Consults limits ["prev", "item"]) (acc : Json)
    (items : List Json) :
    (foldItems acc items).Within limits := by
  induction items generalizing acc with
  | nil => exact .done acc
  | cons item rest ih => exact (consult_within h rfl).bind fun acc => ih acc

private theorem isGreater_within (h : Consults limits ["itemA", "itemB"]) (a b : Json) :
    (isGreater a b).Within limits := by
  refine (consult_within h rfl).bind fun answer => ?_
  cases answer with
  | number n => exact .done _
  | null | bool _ | string _ | array _ | object _ => exact .fail (h.errors _ rfl)

private theorem mergeWith_within {greater : Json → Json → Script Bool}
    (h : ∀ a b, (greater a b).Within limits) (fuel : Nat) (left right : List Json) :
    (mergeWith greater fuel left right).Within limits := by
  induction fuel generalizing left right with
  | zero => exact .done _
  | succ fuel ih =>
    cases left with
    | nil => exact .done _
    | cons a left =>
      cases right with
      | nil => exact .done _
      | cons b right =>
        refine (h a b).bind fun answer => ?_
        split
        · exact (ih _ _).bind fun rest => .done _
        · exact (ih _ _).bind fun rest => .done _

private theorem sortWithin_within {greater : Json → Json → Script Bool}
    (h : ∀ a b, (greater a b).Within limits) (fuel : Nat) (items : List Json) :
    (sortWithin greater fuel items).Within limits := by
  induction fuel generalizing items with
  | zero => exact .done _
  | succ fuel ih =>
    rw [sortWithin]
    split
    · exact .done _
    · refine (ih _).bind fun left => ?_
      exact (ih _).bind fun right => mergeWith_within h _ left right

end Consult

/-- A function of an array and a callback is disciplined when what it does with the items is. -/
theorem withCallback_disciplined (name : String) (output : Param) (input : List Param)
    (answer : ValueType) {f : List Json → Script Json}
    (hf : ∀ {limits : Limits}, Consults limits (Param.names input) →
      ∀ items, (f items).Within limits) :
    (withCallback name output input answer f).Disciplined := by
  intro limits args callbacks h
  have hconsults : Consults limits (Param.names input) := by
    refine ⟨h.errors, fun entries hnames => h.calls _ _ ⟨_, Record.get?_insert_self .., ?_⟩⟩
    intro name hname
    exact Record.contains_ofList (hnames ▸ hname)
  refine (Script.within_ofExcept (h.array (List.mem_cons_self ..))).bind fun items => ?_
  exact (hf hconsults items).bind fun value => .done _

/-! ### The whole library -/

private theorem control_disciplined : ∀ f ∈ control, f.Disciplined := by
  simp only [control, List.forall_mem_cons]
  exact ⟨valueNum_disciplined, ctrlIf_disciplined, ctrlSplit_disciplined, List.forall_mem_nil _⟩

private theorem comparisons_disciplined : ∀ f ∈ comparisons, f.Disciplined := by
  simp only [comparisons, List.forall_mem_cons]
  refine ⟨?_, ?_, ?_, ?_, ?_, ?_, List.forall_mem_nil _⟩
  all_goals exact comparison_disciplined _ _

/-- The text functions do not crash, except the last. -/
theorem texts_disciplined : ∀ f ∈ texts, f = strRepeat ∨ f.Disciplined := by
  rw [texts]
  refine List.forall_mem_cons.2 ⟨.inr strSplit_disciplined, ?_⟩
  refine List.forall_mem_cons.2 ⟨.inr strJoin_disciplined, ?_⟩
  exact List.forall_mem_singleton.2 (.inl rfl)

private theorem sequences_disciplined : ∀ f ∈ sequences, f.Disciplined := by
  simp only [sequences, List.forall_mem_cons]
  exact ⟨indexed_disciplined _ _ _ _, indexed_disciplined _ _ _ _, arraySlice_disciplined,
    indexed_disciplined _ _ _ _, indexed_disciplined _ _ _ _, arrayReverse_disciplined,
    List.forall_mem_nil _⟩

private theorem higherOrder_disciplined : ∀ f ∈ higherOrder, f.Disciplined := by
  simp only [higherOrder, List.forall_mem_cons]
  refine ⟨?_, ?_, ?_, ?_, ?_, ?_, List.forall_mem_nil _⟩
  all_goals refine withCallback_disciplined _ _ _ _ fun h items => ?_
  · exact (mapItems_within h items).bind fun answers => .done _
  · exact (filterItems_within h items).bind fun kept => .done _
  · exact (findItem_within h 0 items).bind fun found => .done _
  · exact (findItem_within h 0 items).bind fun found => .done _
  · cases items with
    | nil => exact .fail (h.errors _ rfl)
    | cons first rest => exact foldItems_within h first rest
  · exact (sortWithin_within (isGreater_within h) _ items).bind fun sorted => .done _

/-- The arithmetic functions draw no random number, except the last. -/
theorem arithmetic_disciplined : ∀ f ∈ arithmetic, f = random ∨ f.Disciplined := by
  rw [arithmetic]
  iterate 8 refine List.forall_mem_cons.2 ⟨.inr (binary_disciplined _ _), ?_⟩
  iterate 7 refine List.forall_mem_cons.2 ⟨.inr (unary_disciplined _ _ _), ?_⟩
  exact List.forall_mem_singleton.2 (.inl rfl)

/-- **A library function stays within all limits that fit its signature**, if they allow
`math.random` to draw and `str.repeat` to crash over texts that are too long. -/
theorem function_within {f : NativeFunction} (hf : f ∈ functions) {limits : Limits}
    {args : Record Json} (callbacks : List String) (h : limits.Fits f.signature args)
    (hdraws : f.name = random.name → limits.draws)
    (hcrashes : f.name = strRepeat.name → Overlong args → limits.crashes) :
    (f.runner args callbacks).Within limits := by
  simp only [functions, List.mem_append, or_assoc] at hf
  rcases hf with hf | hf | hf | hf | hf | hf
  · exact control_disciplined f hf callbacks h
  · rcases arithmetic_disciplined f hf with rfl | hf
    · exact .random (hdraws rfl) fun x => .done _
    · exact hf callbacks h
  · exact comparisons_disciplined f hf callbacks h
  · rcases texts_disciplined f hf with rfl | hf
    · exact strRepeat_within callbacks h (hcrashes rfl)
    · exact hf callbacks h
  · exact sequences_disciplined f hf callbacks h
  · exact higherOrder_disciplined f hf callbacks h

/-- All functions but `math.random` are deterministic. -/
theorem function_deterministic {f : NativeFunction} (hf : f ∈ functions)
    (hname : f.name ≠ random.name) (args : Record Json) (callbacks : List String) :
    (f.runner args callbacks).Deterministic := by
  refine (function_within hf callbacks ?_ (fun h => absurd h hname)
    fun _ _ => trivial).deterministic
  exact ⟨fun _ _ => trivial, fun _ _ _ => trivial, fun _ _ _ => trivial⟩

/-- **A library function can crash exactly if it is `str.repeat` and its text becomes too long.** -/
theorem function_sturdy {f : NativeFunction} (hf : f ∈ functions) (args : Record Json)
    (callbacks : List String) :
    (f.runner args callbacks).Sturdy ↔ ¬(f.name = strRepeat.name ∧ Overlong args) := by
  have hnames : (functions.map (·.name)).Nodup := by decide +kernel
  have hmem : strRepeat ∈ functions := by simp [functions, texts]
  constructor
  · rintro hsturdy ⟨hname, hlong⟩
    rw [List.inj_on_of_nodup_map hnames hf hmem hname, strRepeat_of_overlong hlong] at hsturdy
    cases hsturdy with
    | crash h => exact h
  · intro hnot
    refine function_within hf callbacks ?_ (fun _ => trivial) fun hname hlong => hnot ⟨hname, hlong⟩
    exact ⟨fun _ _ => trivial, fun _ _ _ => trivial, fun _ _ _ => trivial⟩

/-- The catalog holds the functions of the library under their names. -/
theorem get?_catalog {name : String} {entry : Entry} (h : catalog.get? name = some entry) :
    ∃ f ∈ functions, f.name = name ∧ entry = .native f.signature f.runner := by
  have hfold : ∀ (fs : List NativeFunction) (c : Catalog),
      (fs.foldl (fun c f => c.register f.name (.native f.signature f.runner)) c).get? name =
        some entry →
      (∃ f ∈ fs, f.name = name ∧ entry = .native f.signature f.runner) ∨
        c.get? name = some entry := by
    intro fs
    induction fs with
    | nil => exact fun c hc => .inr hc
    | cons f fs ih =>
      intro c hc
      rcases ih _ hc with ⟨g, hg, hentry⟩ | hregister
      · exact .inl ⟨g, List.mem_cons_of_mem f hg, hentry⟩
      · rw [Catalog.get?_register] at hregister
        split at hregister
        · rename_i hname
          exact .inl ⟨f, List.mem_cons_self .., hname.symm, (Option.some.inj hregister).symm⟩
        · exact .inr hregister
  rcases hfold functions .empty h with hmem | hempty
  · exact hmem
  · cases hempty

/-- The catalog without `math.random` holds all other functions. -/
theorem get?_settled {name : String} {entry : Entry} (h : settled.get? name = some entry) :
    ∃ f ∈ functions, f.name = name ∧ f.name ≠ random.name ∧
      entry = .native f.signature f.runner := by
  rw [Catalog.get?, settled, Record.get?_erase] at h
  split at h
  · cases h
  · rename_i hname
    obtain ⟨f, hf, rfl, hentry⟩ := get?_catalog h
    exact ⟨f, hf, rfl, hname, hentry⟩

end Library

end Dataflow

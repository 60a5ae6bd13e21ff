/-
Sorting an array with a comparator that is a callback.

The comparator may fail, and nothing forces its answers to fit together. Two things are kept apart
here. What the sort does with the comparator is told by an account of its dialogue: each comparison
is of two items, the first that fails ends the sort with its failure, and as long as all answers
come from one function the result is the one that the same algorithm computes with that function.
What the algorithm computes with a function is then a matter of lists: merging two sorted halves is
the same as inserting the items of the first, from its last to its first, into the second, so the
merge sort is the insertion sort, which keeps the order of items that compare as equal.

* `Library.orderedInsert_merge` — an insertion before a merge is an insertion after it;
* `Library.mergeSort_eq_insertionSort` — the algorithm with a function;
* `Library.Account` — what is told by the dialogue of a sort;
* `Library.mergeSort_tells` — every sort has such an account.
-/
import Mathlib
import Dataflow.Proofs.Dialogue
namespace Dataflow

namespace Library

/-! ### With a function -/

section Function

variable {α β : Type}

/-- An item need not go behind another if it is not greater. -/
def Precedes (greater : α → α → Bool) (a b : α) : Prop := greater a b = false

instance (greater : α → α → Bool) : DecidableRel (Precedes greater) := fun a b =>
  inferInstanceAs (Decidable (greater a b = false))

variable {greater : α → α → Bool}

private theorem mergeWith_cons_cons (fuel : Nat) (a b : α) (left right : List α) :
    mergeWith (m := Id) greater (fuel + 1) (a :: left) (b :: right) =
      if Precedes greater a b then
        a :: mergeWith (m := Id) greater fuel left (b :: right)
      else b :: mergeWith (m := Id) greater fuel (a :: left) right := by
  show (if greater a b = true then _ else _) = _
  by_cases h : Precedes greater a b
  · rw [if_pos h, if_neg (by rw [h]; exact Bool.false_ne_true)]
    rfl
  · rw [if_neg h, if_pos (eq_true_of_ne_false h)]
    rfl

/-- With enough fuel, the merge is that of the list library. -/
theorem mergeWith_eq_merge {fuel : Nat} {left right : List α}
    (hfuel : left.length + right.length ≤ fuel) :
    mergeWith (m := Id) greater fuel left right =
      left.merge right fun a b => decide (Precedes greater a b) := by
  induction fuel generalizing left right with
  | zero =>
    have hleft : left = [] := List.eq_nil_of_length_eq_zero (by omega)
    have hright : right = [] := List.eq_nil_of_length_eq_zero (by omega)
    rw [hleft, hright, List.nil_merge]
    rfl
  | succ fuel ih =>
    match left, right with
    | [], right => rw [List.nil_merge]; rfl
    | a :: left, [] => rw [List.merge_right]; rfl
    | a :: left, b :: right =>
      simp only [List.length_cons] at hfuel
      rw [mergeWith_cons_cons, List.cons_merge_cons, ih (by rw [List.length_cons]; omega),
        ih (by rw [List.length_cons]; omega)]
      simp only [decide_eq_true_eq]

section Order

variable [Std.Total (Precedes greater)] [IsTrans α (Precedes greater)]

/-- To insert an item into the first list before the merge is to insert it afterwards. The lists
need not be sorted for this. -/
theorem orderedInsert_merge (a : α) (left right : List α) :
    (left.orderedInsert (Precedes greater) a).merge right
      (fun a b => decide (Precedes greater a b)) =
    (left.merge right fun a b => decide (Precedes greater a b)).orderedInsert
      (Precedes greater) a := by
  induction right generalizing left with
  | nil => rw [List.merge_right, List.merge_right]
  | cons y right ihright =>
    induction left with
    | nil =>
      have hright := ihright []
      rw [List.nil_merge] at hright ⊢
      rw [List.orderedInsert_nil] at hright ⊢
      rw [List.cons_merge_cons, List.orderedInsert_cons, List.nil_merge, hright]
      simp only [decide_eq_true_eq]
    | cons x left ihleft =>
      have hright := ihright (x :: left)
      rw [List.orderedInsert_cons] at hright ⊢
      by_cases hax : Precedes greater a x <;> by_cases hxy : Precedes greater x y
      · -- The item comes first on both sides.
        have hay : Precedes greater a y := IsTrans.trans _ _ _ hax hxy
        simp [hax, hxy, hay]
      · rw [if_pos hax] at hright ⊢
        by_cases hay : Precedes greater a y
        · simp [hxy, hay]
        · simp [hxy, hay, hright]
      · simp [hax, hxy, ihleft]
      · -- What is before `x` is before the item, so `y` comes first on both sides.
        have hxa : Precedes greater x a := (Std.Total.total x a).resolve_right hax
        have hay : ¬ Precedes greater a y := fun hay => hxy (IsTrans.trans _ _ _ hxa hay)
        rw [if_neg hax] at hright ⊢
        simp [hxy, hay, hright]

private theorem insertionSort_merge (left right : List α) :
    (left.insertionSort (Precedes greater)).merge (right.insertionSort (Precedes greater))
      (fun a b => decide (Precedes greater a b)) =
    (left ++ right).insertionSort (Precedes greater) := by
  induction left with
  | nil => exact List.nil_merge _
  | cons a left ih =>
    rw [List.insertionSort_cons, orderedInsert_merge, ih, List.cons_append, List.insertionSort_cons]

end Order

private theorem sortWithin_succ (fuel : Nat) (items : List α) :
    sortWithin (m := Id) greater (fuel + 1) items =
      if items.length ≤ 1 then items
      else (sortWithin (m := Id) greater fuel (items.take (items.length / 2))).merge
        (sortWithin (m := Id) greater fuel (items.drop (items.length / 2)))
        fun a b => decide (Precedes greater a b) := by
  rw [← mergeWith_eq_merge le_rfl]
  rfl

private theorem sortWithin_eq_insertionSort [Std.Total (Precedes greater)]
    [IsTrans α (Precedes greater)] {fuel : Nat} {items : List α} (hfuel : items.length ≤ fuel) :
    sortWithin (m := Id) greater fuel items = items.insertionSort (Precedes greater) := by
  induction fuel generalizing items with
  | zero =>
    rw [List.eq_nil_of_length_eq_zero (Nat.le_zero.1 hfuel)]
    rfl
  | succ fuel ih =>
    rw [sortWithin_succ]
    split
    · rename_i hlength
      match items with
      | [] => rfl
      | [a] => rfl
    · rename_i hlength
      rw [ih (by rw [List.length_take]; omega), ih (by rw [List.length_drop]; omega),
        insertionSort_merge, List.take_append_drop]

/-- The algorithm does not look at the items. -/
theorem sortWithin_map (greater : β → β → Bool) (f : α → β) (fuel : Nat) (items : List α) :
    sortWithin (m := Id) greater fuel (items.map f) =
      (sortWithin (m := Id) (fun a b => greater (f a) (f b)) fuel items).map f := by
  induction fuel generalizing items with
  | zero => rfl
  | succ fuel ih =>
    rw [sortWithin_succ, sortWithin_succ, List.length_map]
    split
    · rfl
    · rw [← List.map_take, ← List.map_drop, ih, ih]
      symm
      apply List.map_merge
      intro a _ b _
      rfl

/-! ### Stable sorts -/

/-- Neither item is greater. -/
def Ties (greater : α → α → Bool) (a b : α) : Prop := Precedes greater a b ∧ Precedes greater b a

instance (greater : α → α → Bool) : DecidableRel (Ties greater) := fun _ _ =>
  inferInstanceAs (Decidable (_ ∧ _))

/-- The second list is the first, stably sorted. -/
structure StablySorted (greater : α → α → Bool) (items sorted : List α) : Prop where
  ordered : sorted.Pairwise (Precedes greater)
  /-- The items that tie with a given one stand in their old order. -/
  stable : ∀ a ∈ items, sorted.filter (Ties greater a) = items.filter (Ties greater a)
  insertion : sorted = items.insertionSort (Precedes greater)

private theorem stablySorted_insertionSort [Std.Total (Precedes greater)]
    [IsTrans α (Precedes greater)] (items : List α) :
    StablySorted greater items (items.insertionSort (Precedes greater)) where
  ordered := List.pairwise_insertionSort _ items
  stable a _ := by
    -- Items that tie are in order as they stand, so sorting keeps them as a sublist.
    have hties : (items.filter (Ties greater a)).Pairwise (Precedes greater) := by
      refine List.pairwise_of_forall_mem_list fun x hx y hy => ?_
      obtain ⟨-, hxa⟩ := of_decide_eq_true (List.mem_filter.1 hx).2
      obtain ⟨hay, -⟩ := of_decide_eq_true (List.mem_filter.1 hy).2
      exact IsTrans.trans _ _ _ hxa hay
    have hsub := (List.sublist_insertionSort hties List.filter_sublist).filter
      (decide <| Ties greater a ·)
    rw [List.filter_filter] at hsub
    simp only [Bool.and_self] at hsub
    exact (hsub.eq_of_length ((List.perm_insertionSort _ items).filter _).length_eq.symm).symm
  insertion := rfl

theorem StablySorted.map {greater : β → β → Bool} {f : α → β} {items sorted : List α}
    (h : StablySorted (fun a b => greater (f a) (f b)) items sorted) :
    StablySorted greater (items.map f) (sorted.map f) where
  ordered := List.pairwise_map.2 h.ordered
  stable a ha := by
    obtain ⟨b, hb, rfl⟩ := List.mem_map.1 ha
    rw [List.filter_map, List.filter_map]
    exact congrArg (List.map f) (h.stable b hb)
  insertion := by
    rw [h.insertion]
    exact List.map_insertionSort _ _ f items fun a _ b _ => Iff.rfl

/-- **The merge sort is stable**, if the items are totally ordered up to ties. -/
theorem mergeSort_stablySorted {items : List α}
    (total : ∀ a ∈ items, ∀ b ∈ items, Precedes greater a b ∨ Precedes greater b a)
    (trans : ∀ a ∈ items, ∀ b ∈ items, ∀ c ∈ items,
      Precedes greater a b → Precedes greater b c → Precedes greater a c) :
    StablySorted greater items (mergeSort (m := Id) greater items) := by
  -- Among the items themselves the order is total and transitive without restriction.
  let among : {a // a ∈ items} → {a // a ∈ items} → Bool := fun a b => greater a b
  have : Std.Total (Precedes among) := ⟨fun a b => total a a.2 b b.2⟩
  have : IsTrans _ (Precedes among) := ⟨fun a b c => trans a a.2 b b.2 c c.2⟩
  have hsorted : StablySorted among items.attach (mergeSort (m := Id) among items.attach) := by
    rw [mergeSort, sortWithin_eq_insertionSort le_rfl]
    exact stablySorted_insertionSort items.attach
  have hmap := hsorted.map (f := Subtype.val)
  rw [mergeSort, ← sortWithin_map greater, List.attach_map_subtype_val, List.length_attach] at hmap
  exact hmap

end Function

/-! ### With a callback -/

open Script

/-- The exchange is a comparison of the two items. -/
structure Compares (e : Exchange) (a b : Json) : Prop where
  callback : e.callback = "cb"
  args : e.args = .ofList [("itemA", a), ("itemB", b)]

/-- Whether the first item of a comparison is greater. The comparison fails if the call does and
if there is no number in its reply. -/
def verdict (e : Exchange) : Except Halt Bool :=
  match e.value with
  | .error halt => .error halt
  | .ok (.number n) => .ok (0.0 < n.toFloat)
  | .ok _ => .error (.failed (.invalidArgument "callback" "num"))

/-- How a comparison failed. -/
def failure? (e : Exchange) : Option Halt :=
  match verdict e with
  | .error halt => some halt
  | .ok _ => none

/-- What the dialogue tells of a computation that only compares items. -/
structure Account {α : Type} (items : List Json) (Post : α → Prop)
    (pure : (Json → Json → Bool) → α) (log : List Exchange) (outcome : Except Halt α) :
    Prop where
  compares : ∀ e ∈ log, ∃ a ∈ items, ∃ b ∈ items, Compares e a b
  /-- The computation fails as the first comparison that fails, and not otherwise. -/
  fails : ∀ halt, outcome = .error halt ↔ log.findSome? failure? = some halt
  post : ∀ a, outcome = .ok a → Post a
  /-- If all comparisons follow a function, so does the computation. -/
  follows : ∀ greater : Json → Json → Bool,
    (∀ e ∈ log, ∀ a b, Compares e a b → verdict e = .ok (greater a b)) →
      outcome = .ok (pure greater)

section Account

variable {α β : Type} {items : List Json} {answer : String → Record Json → Run (Record Json)}

private theorem Account.silent {Post : α → Prop} {a : α} (h : Post a) :
    Account items Post (fun _ => a) [] (.ok a) where
  compares e he := absurd he List.not_mem_nil
  fails halt := ⟨fun h => (by cases h), fun h => (by cases h)⟩
  post b hb := by
    cases hb
    exact h
  follows _ _ := rfl

/-- The account of one computation after another. -/
theorem Account.bind {Post : α → Prop} {Post' : β → Prop} {p : (Json → Json → Bool) → α}
    {q : α → (Json → Json → Bool) → β} {script : Script α} {f : α → Script β}
    (h : Tells answer script (Account items Post p))
    (hf : ∀ a, Post a → Tells answer (f a) (Account items Post' (q a))) :
    Tells answer (script >>= f) (Account items Post' fun greater => q (p greater) greater) := by
  refine h.bind (fun log halt hlog => ?_) fun log a hlog s => ?_
  · refine ⟨hlog.compares, fun halt' => ?_, fun _ h => (by cases h), fun greater hgreater => ?_⟩
    · rw [← hlog.fails halt']
      exact ⟨fun h => congrArg _ (Except.error.inj h), fun h => congrArg _ (Except.error.inj h)⟩
    · cases hlog.follows greater hgreater
  · have hnext := hf a (hlog.post a rfl) s
    have hquiet : log.findSome? failure? = none := by
      cases hlast : log.findSome? failure? with
      | none => rfl
      | some halt => cases (hlog.fails halt).2 hlast
    refine ⟨fun e he => ?_, fun halt => ?_, hnext.post, fun greater hgreater => ?_⟩
    · rcases List.mem_append.1 he with he | he
      · exact hlog.compares e he
      · exact hnext.compares e he
    · rw [hnext.fails, List.findSome?_append, hquiet, Option.none_or]
    · have ha := hlog.follows greater fun e he => hgreater e (List.mem_append_left _ he)
      have hb := hnext.follows greater fun e he => hgreater e (List.mem_append_right _ he)
      rw [hb, Except.ok.inj ha]

private theorem Account.weaken {Post Post' : α → Prop} {p : (Json → Json → Bool) → α}
    {log : List Exchange} {outcome : Except Halt α} (h : Account items Post p log outcome)
    (hpost : ∀ a, Post a → Post' a) : Account items Post' p log outcome :=
  { h with post := fun a ha => hpost a (h.post a ha) }

/-- The account of one comparison. -/
theorem Account.comparison {a b : Json} (ha : a ∈ items) (hb : b ∈ items) {e : Exchange}
    (he : Compares e a b) :
    Account items (fun _ => True) (fun greater => greater a b) [e] (verdict e) where
  compares e' he' := by
    rw [List.mem_singleton.1 he']
    exact ⟨a, ha, b, hb, he⟩
  fails halt := by
    rw [List.findSome?_singleton, failure?]
    cases verdict e with
    | ok greater => exact ⟨fun h => (by cases h), fun h => (by cases h)⟩
    | error halt' => rw [Except.error.injEq, Option.some.injEq]
  post _ _ := trivial
  follows greater h := h e (List.mem_singleton_self e) a b he

private theorem isGreater_tells {a b : Json} (ha : a ∈ items) (hb : b ∈ items) :
    Tells answer (isGreater a b)
      (Account items (fun _ => True) fun greater => greater a b) := by
  have hone : Tells answer (isGreater a b) fun log outcome =>
      ∃ e, Compares e a b ∧ log = [e] ∧ outcome = verdict e := by
    refine (consult_tells _).bind ?_ ?_
    · rintro log halt ⟨e, hcallback, hargs, rfl, hvalue⟩
      exact ⟨e, ⟨hcallback, hargs⟩, rfl, by rw [verdict, ← hvalue]⟩
    · rintro log value ⟨e, hcallback, hargs, rfl, hvalue⟩
      cases value with
      | number n => exact tells_done ⟨e, ⟨hcallback, hargs⟩, rfl, by rw [verdict, ← hvalue]⟩
      | null | bool | string | array | object =>
        exact fun _ => ⟨e, ⟨hcallback, hargs⟩, rfl, by rw [verdict, ← hvalue]; rfl⟩
  intro s
  obtain ⟨e, he, hlog, houtcome⟩ := hone s
  rw [hlog, houtcome]
  exact .comparison ha hb he

private theorem mergeWith_tells {fuel : Nat} {left right : List Json} (hleft : left ⊆ items)
    (hright : right ⊆ items) :
    Tells answer (mergeWith isGreater fuel left right)
      (Account items (List.Perm · (left ++ right)) fun greater =>
        mergeWith (m := Id) greater fuel left right) := by
  induction fuel generalizing left right with
  | zero => exact tells_done (.silent (.refl _))
  | succ fuel ih =>
    match left, right with
    | [], right => exact tells_done (.silent (.refl _))
    | a :: left, [] => exact tells_done (.silent (by rw [List.append_nil]))
    | a :: left, b :: right =>
      obtain ⟨ha, hleft'⟩ := List.cons_subset.1 hleft
      obtain ⟨hb, hright'⟩ := List.cons_subset.1 hright
      refine Account.bind (q := fun greater compare =>
        if greater then b :: mergeWith (m := Id) compare fuel (a :: left) right
        else a :: mergeWith (m := Id) compare fuel left (b :: right))
        (isGreater_tells ha hb) fun greater _ => ?_
      cases greater with
      | true =>
        refine Account.bind (ih hleft hright') fun rest hrest => tells_done (.silent ?_)
        exact (hrest.cons b).trans List.perm_middle.symm
      | false =>
        exact Account.bind (ih hleft' hright) fun rest hrest => tells_done (.silent (hrest.cons a))

private theorem sortWithin_tells {fuel : Nat} {part : List Json} (hpart : part ⊆ items) :
    Tells answer (sortWithin isGreater fuel part)
      (Account items (List.Perm · part) fun greater => sortWithin (m := Id) greater fuel part) := by
  induction fuel generalizing part with
  | zero => exact tells_done (.silent (.refl _))
  | succ fuel ih =>
    unfold sortWithin
    split
    · exact tells_done (.silent (.refl _))
    · have htake := List.Subset.trans (List.take_subset (part.length / 2) part) hpart
      have hdrop := List.Subset.trans (List.drop_subset (part.length / 2) part) hpart
      refine Account.bind (q := fun left compare =>
        let right := sortWithin (m := Id) compare fuel (part.drop (part.length / 2))
        mergeWith (m := Id) compare (left.length + right.length) left right)
        (ih htake) fun left hleft => ?_
      refine Account.bind (q := fun right compare =>
        mergeWith (m := Id) compare (left.length + right.length) left right)
        (ih hdrop) fun right hright => ?_
      intro s
      refine (mergeWith_tells (List.Subset.trans hleft.subset htake)
        (List.Subset.trans hright.subset hdrop) s).weaken
        fun merged hmerged => ?_
      have hparts := hmerged.trans (hleft.append hright)
      rwa [List.take_append_drop] at hparts

/-- What `array.sort` does with an array. -/
theorem arraySort_runner {signature : Signature} {runner : Runner}
    (hsort : catalog.get? "array.sort" = some (.native signature runner)) {args : Record Json}
    (hitems : args.get? "arr" = some (.array items)) (callbacks : List String) :
    runner args callbacks =
      (mergeSort isGreater items >>= fun sorted => .done (Json.array sorted)) >>= fun value =>
        .done (single "arr" value) :=
  runner_of_withCallback "array.sort" ⟨"arr", itemArray⟩
    [⟨"itemA", .auto "I"⟩, ⟨"itemB", .auto "I"⟩] .num rfl hsort hitems callbacks

/-- **The account of a sort**, with what it returns. -/
theorem arraySort_tells {signature : Signature} {runner : Runner}
    (hsort : catalog.get? "array.sort" = some (.native signature runner)) {args : Record Json}
    (hitems : args.get? "arr" = some (.array items)) (callbacks : List String) :
    Tells answer (runner args callbacks)
      (Account items
        (fun outputs => ∃ sorted, outputs = single "arr" (.array sorted) ∧ sorted.Perm items)
        fun greater => single "arr" (.array (mergeSort (m := Id) greater items))) := by
  rw [arraySort_runner hsort hitems]
  have hvalue : Tells answer (mergeSort isGreater items >>= fun sorted => .done (Json.array sorted))
      (Account items (fun value => ∃ sorted, value = Json.array sorted ∧ sorted.Perm items)
        fun greater => Json.array (mergeSort (m := Id) greater items)) :=
    Account.bind (sortWithin_tells (List.Subset.refl items)) fun sorted hperm =>
      tells_done (.silent ⟨sorted, rfl, hperm⟩)
  refine Account.bind hvalue fun value hvalue => tells_done (.silent ?_)
  obtain ⟨sorted, rfl, hperm⟩ := hvalue
  exact ⟨sorted, rfl, hperm⟩

end Account

private theorem failure?_eq_none {e : Exchange} :
    failure? e = none ↔ ∃ greater, verdict e = .ok greater := by
  rw [failure?]
  cases verdict e <;> simp

private theorem failure?_eq_some {e : Exchange} {halt : Halt} :
    failure? e = some halt ↔ verdict e = .error halt := by
  rw [failure?]
  cases verdict e <;> simp

/-- Whether a comparator puts the first item behind the second. -/
def positive (compare : Json → Json → Number) (a b : Json) : Bool := 0.0 < (compare a b).toFloat

/-- **Sorting an array is stable.** Whatever answers the calls, the sort compares items with each
other, fails as the first comparison that fails and returns a permutation if none does; an array of
at most one item is not compared. If the comparisons follow a function and not to be positive is
total and transitive on the items, the result is that of the insertion sort. -/
theorem arraySort_stable {signature : Signature} {runner : Runner}
    (hsort : catalog.get? "array.sort" = some (.native signature runner)) {args : Record Json}
    {items : List Json} (hitems : args.get? "arr" = some (.array items)) (callbacks : List String)
    (answer : String → Record Json → Run (Record Json)) (s : Session) :
    let log := (runner args callbacks).dialogue answer s
    let outcome := ((runner args callbacks).perform answer s).1
    (∀ e ∈ log, ∃ a ∈ items, ∃ b ∈ items, Compares e a b) ∧
    (∀ halt, outcome = .error halt ↔ ∃ before failing after, log = before ++ failing :: after ∧
      (∀ e ∈ before, ∃ greater, verdict e = .ok greater) ∧ verdict failing = .error halt) ∧
    (∀ outputs, outcome = .ok outputs →
      ∃ sorted, outputs = single "arr" (.array sorted) ∧ sorted.Perm items) ∧
    (items.length ≤ 1 → log = [] ∧ outcome = .ok (single "arr" (.array items))) ∧
    ∀ compare : Json → Json → Number,
      (∀ e ∈ log, ∀ a b, Compares e a b → e.value = .ok (.number (compare a b))) →
      ∃ sorted, outcome = .ok (single "arr" (.array sorted)) ∧ sorted.Perm items ∧
        ((∀ a ∈ items, ∀ b ∈ items,
            Precedes (positive compare) a b ∨ Precedes (positive compare) b a) →
          (∀ a ∈ items, ∀ b ∈ items, ∀ c ∈ items, Precedes (positive compare) a b →
            Precedes (positive compare) b c → Precedes (positive compare) a c) →
          StablySorted (positive compare) items sorted) := by
  intro log outcome
  have haccount : Account items _ _ log outcome := arraySort_tells hsort hitems callbacks s
  refine ⟨haccount.compares, fun halt => ?_, haccount.post, fun hlength => ?_,
    fun compare hcompare => ?_⟩
  · rw [haccount.fails, List.findSome?_eq_some_iff]
    simp only [failure?_eq_none, failure?_eq_some, and_comm]
  · have hsilent : mergeSort isGreater items = .done items := by
      match items with
      | [] => rfl
      | [a] => rfl
    simp only [log, outcome, arraySort_runner hsort hitems, hsilent]
    exact ⟨rfl, rfl⟩
  · have houtcome : outcome = .ok _ := haccount.follows (positive compare) fun e he a b hab => by
      rw [verdict, hcompare e he a b hab]
      rfl
    obtain ⟨sorted, hsorted, hperm⟩ := haccount.post _ houtcome
    rw [← Json.array.inj (single_injective hsorted)] at hperm
    exact ⟨_, houtcome, hperm, mergeSort_stablySorted⟩

/-- Callbacks that answer every comparison by a function. -/
def answerBy (compare : Json → Json → Number) (_ : String) (args : Record Json) :
    Run (Record Json) :=
  Run.result (.ofList [("callback",
    .number (compare ((args.get? "itemA").getD .null) ((args.get? "itemB").getD .null)))])

private theorem value_of_answerBy {α : Type} {compare : Json → Json → Number} {script : Script α}
    {s : Session} {e : Exchange} (he : e ∈ script.dialogue (answerBy compare) s) {a b : Json}
    (hab : Compares e a b) : e.value = .ok (.number (compare a b)) := by
  have hpair : Record.ofList [("itemA", a), ("itemB", b)] =
      (Record.empty.insert "itemA" a).insert "itemB" b := rfl
  obtain ⟨s', hreply⟩ := reply_of_mem_dialogue he
  have hvalue : e.reply = .ok (Record.empty.insert "callback" (.number (compare a b))) := by
    rw [hreply, hab.args, hpair, answerBy, Record.get?_insert_self, Record.get?_insert,
      if_neg (by decide), Record.get?_insert_self]
    rfl
  simp only [Exchange.value, hvalue, Record.get?_insert_self]

/-- Arrays by their lengths. -/
def byLength : Json → Json → Number
  | .array a, .array b => .integer (a.length - b.length)
  | _, _ => .integer 0

/-- The shorter array comes first, and the two that are equally long stay as they are. -/
theorem arraySort_stable_lengths :
    let two := Json.array [.bool true, .null]
    let one := Json.array [.null]
    let other := Json.array [.null, .null]
    ∃ signature runner, catalog.get? "array.sort" = some (.native signature runner) ∧
      ((runner (.ofList [("arr", .array [two, one, other])]) ["cb"]).perform
        (answerBy byLength) ⟨none, #[], #[], default⟩).1 =
          .ok (single "arr" (.array [one, two, other])) := by
  intro two one other
  refine ⟨_, _, rfl, ?_⟩
  have hargs : (Record.ofList [("arr", Json.array [two, one, other])]).get? "arr" =
      some (.array [two, one, other]) := Record.get?_insert_self ..
  obtain ⟨-, -, -, -, hfunction⟩ := arraySort_stable rfl hargs ["cb"] (answerBy byLength)
    ⟨none, #[], #[], default⟩
  obtain ⟨sorted, houtcome, -, hsorted⟩ := hfunction byLength fun e he a b => value_of_answerBy he
  have hinsertion := (hsorted (by decide +kernel) (by decide +kernel)).insertion
  have hthree : [two, one, other].insertionSort (Precedes (positive byLength)) =
      [one, two, other] := by decide +kernel
  rw [hinsertion, hthree] at houtcome
  exact houtcome

end Library

end Dataflow

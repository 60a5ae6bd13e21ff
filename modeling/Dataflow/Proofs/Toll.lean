/-
The steps that a run needs.

A frame whose node is not ready costs a step and goes to the end of the line. Until the next firing
this happens at most once to every node, so a run pays one step for each node that fires and at most
one for each pair of nodes of which one has to wait for the other. Nodes that never wait are not put
back, which is why `toll` asks which ones do.

Where nodes may fire again there is a coarser count: a node that is ready for the first time fires
within one round of the line.

* `toll` — one step for each node and one for each pair with a node that waits;
* `Program.Ample` — the steps that are left suffice until nothing is ready any more;
* `Program.Lasting` — they suffice although nodes may fire again.
-/
import Mathlib
import Dataflow.Proofs.Wave
namespace Dataflow

/-- The number of pairs of nodes of which one waits, or both. -/
def waitingPairs (waits : String → Bool) (ids : List String) : Nat :=
  ids.countP (fun id => !waits id) * ids.countP waits + (ids.countP waits).choose 2

/-- One step for each node, and one for each pair of nodes of which one waits. -/
def toll (waits : String → Bool) (ids : List String) : Nat := ids.length + waitingPairs waits ids

/-- A first node pays for itself and for all that can wait before it. -/
theorem toll_cons (waits : String → Bool) (id : String) (ids : List String) :
    ids.countP waits + 1 + toll waits ids ≤ toll waits (id :: ids) := by
  have hcount : ∀ f : String → Bool,
      (id :: ids).countP f = ids.countP f + if f id then 1 else 0 := fun f => List.countP_cons
  rw [toll, toll, waitingPairs, waitingPairs, List.length_cons, hcount, hcount]
  cases hid : waits id with
  | false =>
    simp only [Bool.not_false, Bool.false_eq_true, if_true, if_false, Nat.succ_mul, Nat.add_zero]
    omega
  | true =>
    have hpairs : (ids.countP waits + 1).choose 2 =
        ids.countP waits + (ids.countP waits).choose 2 := by
      rw [Nat.choose_succ_succ' _ 1, Nat.choose_one_right]
    simp only [Bool.not_true, Bool.false_eq_true, if_true, if_false, Nat.mul_succ, Nat.add_zero,
      hpairs]
    omega

/-- Whichever node fires next, the nodes that wait before it are paid for. -/
theorem toll_erase {waits : String → Bool} {ids before : List String} {id : String}
    (hid : id ∈ ids) (hbefore : before.Nodup)
    (hwaits : ∀ other ∈ before, other ∈ ids ∧ other ≠ id ∧ waits other = true) :
    before.length + 1 + toll waits (ids.erase id) ≤ toll waits ids := by
  have hperm := List.perm_cons_erase hid
  have htoll : toll waits ids = toll waits (id :: ids.erase id) := by
    rw [toll, toll, waitingPairs, waitingPairs, hperm.length_eq, hperm.countP_eq, hperm.countP_eq]
  have hlength : before.length ≤ (ids.erase id).countP waits := by
    rw [List.countP_eq_length_filter]
    refine (hbefore.subperm fun other hother => ?_).length_le
    obtain ⟨hmem, hne, hwait⟩ := hwaits other hother
    exact List.mem_filter.2 ⟨(List.mem_erase_of_ne hne).2 hmem, hwait⟩
  have hcons := toll_cons waits id (ids.erase id)
  omega

namespace Program

variable {p : Program} {c : Catalog} {start frames rest : FrameQueue}
  {results : String → Option Outputs} {id : String} {frame : Frame} {given : Outputs}
  {waits : String → Bool} {steps : Nat}

/-- The nodes that have not fired. -/
def unfired (p : Program) (results : String → Option Outputs) : List String :=
  p.ids.filter fun id => (results id).isNone

theorem unfired_update :
    p.unfired (Function.update results id (some given)) = (p.unfired results).erase id := by
  have hd : (p.unfired results).Nodup := List.Nodup.filter _ p.nodes.distinct
  rw [hd.erase_eq_filter, unfired, unfired, List.filter_filter]
  refine List.filter_congr fun other _ => ?_
  by_cases hother : other = id <;> simp [hother]

theorem mem_unfired : id ∈ p.unfired results ↔ (p.node? id).isSome ∧ results id = none := by
  rw [unfired, List.mem_filter, Option.isNone_iff_eq_none, Option.isSome_iff_exists]
  exact and_congr_left fun _ => Table.mem_names

/-- The steps suffice: nothing is ready, or there is a step for each frame before the first that is
ready, for that one, and for all that is left to be fired then. -/
def Ample (p : Program) (c : Catalog) (waits : String → Bool)
    (results : String → Option Outputs) (frames : FrameQueue) (steps : Nat) : Prop :=
  (∀ id, ¬ p.Ready c frames id) ∨
    ∃ before id after, frames.order = before ++ id :: after ∧ p.Ready c frames id ∧
      (∀ other ∈ before, ¬ p.Ready c frames other) ∧
      before.length + 1 + toll waits ((p.unfired results).erase id) ≤ steps

/-- The toll of all nodes that have not fired is enough. -/
theorem Wave.ample (hw : p.Wave c start results frames)
    (hline : ∀ id ∈ frames.order, id ∈ p.unfired results)
    (hwaits : ∀ id ∈ frames.order, ¬ p.Ready c frames id → waits id = true)
    (hsteps : toll waits (p.unfired results) ≤ steps) : p.Ample c waits results frames steps := by
  classical
  by_cases hnone : ∀ id, ¬ p.Ready c frames id
  · exact .inl hnone
  · push Not at hnone
    obtain ⟨other, hready⟩ := hnone
    obtain ⟨node, entry, frame, hcalls, hframe, -⟩ := id hready
    have hmem := (hw.sound.mem_order other).2 ⟨frame, hframe⟩
    have hfound : (frames.order.find? fun id => decide (p.Ready c frames id)).isSome :=
      List.find?_isSome.2 ⟨other, hmem, decide_eq_true hready⟩
    obtain ⟨id, hid⟩ := Option.isSome_iff_exists.1 hfound
    obtain ⟨hfirst, before, after, horder, hbefore⟩ := List.find?_eq_some_iff_append.1 hid
    have hnot : ∀ other ∈ before, ¬ p.Ready c frames other :=
      fun other hother => by simpa using hbefore other hother
    refine .inr ⟨before, id, after, horder, of_decide_eq_true hfirst, hnot, ?_⟩
    have hnodup := hw.sound.nodup
    rw [horder] at hnodup
    refine le_trans (toll_erase (hline _ ?_) (List.nodup_append.1 hnodup).1 ?_) hsteps
    · rw [horder]
      simp
    · intro other hother
      have hwaiting : other ∈ frames.order := by
        rw [horder]
        exact List.mem_append_left _ hother
      refine ⟨hline other hwaiting, ?_, hwaits other hwaiting (hnot other hother)⟩
      exact (List.nodup_append.1 hnodup).2.2 other hother id (List.mem_cons_self ..)

/-- A frame that is put back costs one step and is one frame less before the ready node. -/
theorem Ample.defer (h : p.Ample c waits results frames (steps + 1)) (hsound : frames.Sound)
    (hpop : frames.pop? = some ((id, frame), rest)) (hid : ¬ p.Ready c frames id) :
    p.Ample c waits results (rest.defer id frame) steps := by
  obtain ⟨horder, -, -⟩ := FrameQueue.pop?_eq_some hsound hpop
  have hready : ∀ other, p.Ready c (rest.defer id frame) other ↔ p.Ready c frames other := by
    intro other
    rw [Ready, Ready, FrameQueue.get?_popped_deferred hsound hpop]
  rcases h with hnone | ⟨before, other, after, hsplit, hother, hbefore, hsteps⟩
  · exact .inl fun other hother => hnone other ((hready other).1 hother)
  · cases before with
    | nil =>
      -- The ready node is not the one that is put back, so it is not the first in line.
      rw [horder] at hsplit
      cases hsplit
      exact absurd hother hid
    | cons first before =>
      rw [horder, List.cons_append, List.cons.injEq] at hsplit
      obtain ⟨rfl, hsplit⟩ := hsplit
      refine .inr ⟨before, other, after ++ [id], ?_, (hready other).2 hother, ?_, ?_⟩
      · rw [FrameQueue.order_popped_deferred hsound hpop, hsplit, List.append_assoc,
          List.cons_append]
      · intro third hthird h
        exact hbefore third (List.mem_cons_of_mem _ hthird) ((hready third).1 h)
      · rw [List.length_cons] at hsteps
        omega

/-- A ready node at the head of the line leaves the toll of the others. -/
theorem Ample.toll_le (h : p.Ample c waits results frames (steps + 1)) (hsound : frames.Sound)
    (hpop : frames.pop? = some ((id, frame), rest)) (hid : p.Ready c frames id) :
    toll waits (p.unfired (Function.update results id (some given))) ≤ steps := by
  obtain ⟨horder, -, -⟩ := FrameQueue.pop?_eq_some hsound hpop
  rcases h with hnone | ⟨before, other, after, hsplit, -, hbefore, hsteps⟩
  · exact absurd hid (hnone id)
  · cases before with
    | nil =>
      rw [horder] at hsplit
      cases hsplit
      rw [unfired_update]
      simp only [List.length_nil] at hsteps
      omega
    | cons first before =>
      rw [horder, List.cons_append, List.cons.injEq] at hsplit
      exact absurd (hsplit.1 ▸ hid) (hbefore first (List.mem_cons_self ..))

/-- When steps suffice that are not there, nothing is ready. -/
theorem Ample.not_ready (h : p.Ample c waits results frames 0) : ∀ id, ¬ p.Ready c frames id := by
  rcases h with hnone | ⟨before, id, after, -, -, -, hsteps⟩
  · exact hnone
  · omega

/-- When no frame waits, nothing is ready. -/
theorem Wave.not_ready_of_empty (hw : p.Wave c start results frames) (hpop : frames.pop? = none)
    (id : String) : ¬ p.Ready c frames id := by
  rintro ⟨node, entry, frame, -, hframe, -⟩
  have hmem := (hw.sound.mem_order id).2 ⟨frame, hframe⟩
  rw [FrameQueue.pop?_eq_none hw.sound hpop] at hmem
  cases hmem

end Program

/-! ### Nodes that fire again -/

private theorem List.idxOf_filter_le {l : List String} {f : String → Bool} {a : String}
    (h : f a = true) :
    (l.filter f).idxOf a ≤ l.idxOf a := by
  induction l with
  | nil => exact Nat.le_refl _
  | cons b l ih =>
    by_cases hb : b = a
    · rw [hb, List.filter_cons_of_pos h, List.idxOf_cons_self]
      exact Nat.zero_le _
    · rw [List.idxOf_cons_ne _ hb]
      by_cases hfb : f b = true
      · rw [List.filter_cons_of_pos hfb, List.idxOf_cons_ne _ hb]
        exact Nat.succ_le_succ ih
      · rw [List.filter_cons_of_neg hfb]
        exact Nat.le_succ_of_le ih

namespace FrameQueue

variable {q : FrameQueue} {id : String}

/-- Nobody gets further back in line when others leave it, -/
theorem idxOf_foldl_remove_le {ids : List String} (hid : id ∉ ids) :
    (ids.foldl remove q).order.idxOf id ≤ q.order.idxOf id := by
  induction ids generalizing q with
  | nil => exact Nat.le_refl _
  | cons other rest ih =>
    rw [List.mem_cons, not_or] at hid
    refine Nat.le_trans (ih hid.2) ?_
    rw [remove]
    split
    · exact List.idxOf_filter_le (by simpa using hid.1)
    · exact Nat.le_refl _

/-- or when others join it. -/
theorem idxOf_receiveAll (ds : List Delivery) (hid : id ∈ q.order) :
    (q.receiveAll ds).order.idxOf id = q.order.idxOf id := by
  induction ds generalizing q with
  | nil => rfl
  | cons d rest ih =>
    have horder : (q.receive d).order = q.order ∨ (q.receive d).order = q.order ++ [d.id] := by
      rw [show q.receive d = q.alter d.id _ from rfl, order_alter]
      split
      · exact .inl rfl
      · exact .inr rfl
    rw [show q.receiveAll (d :: rest) = (q.receive d).receiveAll rest from rfl]
    rcases horder with horder | horder
    · rw [ih (horder ▸ hid), horder]
    · rw [ih (by rw [horder]; exact List.mem_append_left _ hid), horder,
        List.idxOf_append_of_mem hid]

/-- So a firing puts nobody further back in line who is not in the body. -/
theorem idxOf_removed_receiveAll_le (hq : q.Sound) {ids : List String} (hids : id ∉ ids)
    (ds : List Delivery) (hid : id ∈ q.order) :
    ((ids.foldl remove q).receiveAll ds).order.idxOf id ≤ q.order.idxOf id := by
  have hmem : id ∈ (ids.foldl remove q).order := by
    rw [(hq.foldl_remove ids).mem_order, get?_foldl_remove, if_neg hids]
    exact (hq.mem_order id).1 hid
  rw [idxOf_receiveAll ds hmem]
  exact idxOf_foldl_remove_le hids

end FrameQueue

namespace Program

variable {p : Program} {c : Catalog} {start frames frames' rest : FrameQueue}
  {results : String → Option Outputs} {id : String} {frame : Frame} {given : Outputs} {steps : Nat}

/-- The steps suffice: nothing is ready for the first time, or there is a step for each frame before
a node that is, for that one, and then a round of the line for each node that has not fired. -/
def Lasting (p : Program) (c : Catalog) (results : String → Option Outputs) (frames : FrameQueue)
    (steps : Nat) : Prop :=
  (∀ id, results id = none → ¬ p.Ready c frames id) ∨
    ∃ id, results id = none ∧ p.Ready c frames id ∧
      frames.order.idxOf id + 1 + p.size * ((p.unfired results).length - 1) ≤ steps

/-- A round of the line for each node that has not fired is enough. -/
theorem Wave.lasting (hw : p.Wave c start results frames)
    (hline : ∀ id ∈ frames.order, (p.node? id).isSome)
    (hsteps : p.size * (p.unfired results).length ≤ steps) : p.Lasting c results frames steps := by
  by_cases hnone : ∀ id, results id = none → ¬ p.Ready c frames id
  · exact .inl hnone
  · push Not at hnone
    obtain ⟨id, hunfired, hready⟩ := hnone
    refine .inr ⟨id, hunfired, hready, ?_⟩
    obtain ⟨node, entry, frame, hcalls, hframe, -⟩ := hready
    have hmem := (hw.sound.mem_order id).2 ⟨frame, hframe⟩
    have hindex := List.idxOf_lt_length_iff.2 hmem
    have hlength : frames.order.length ≤ p.size := by
      have hsub := (hw.sound.nodup.subperm fun id hid =>
        Table.mem_names.2 (Option.isSome_iff_exists.1 (hline id hid))).length_le
      rwa [show p.nodes.names.length = p.size from List.length_map ..] at hsub
    have hpos := List.length_pos_of_mem (mem_unfired.2 ⟨hline id hmem, hunfired⟩)
    have hround : p.size * ((p.unfired results).length - 1) + p.size =
        p.size * (p.unfired results).length := by
      rw [← Nat.mul_succ, Nat.succ_eq_add_one, Nat.sub_add_cancel hpos]
    omega

/-- When steps suffice that are not there, nothing is ready for the first time. -/
theorem Lasting.not_ready (h : p.Lasting c results frames 0) :
    ∀ id, results id = none → ¬ p.Ready c frames id := by
  rcases h with hnone | ⟨id, -, -, hsteps⟩
  · exact hnone
  · omega

/-- After a first firing there is a round left for each node that has not fired. -/
theorem Lasting.rounds (h : p.Lasting c results frames (steps + 1)) (hunfired : results id = none)
    (hready : p.Ready c frames id) :
    p.size * (p.unfired (Function.update results id (some given))).length ≤ steps := by
  rcases h with hnone | ⟨other, -, -, hsteps⟩
  · exact absurd hready (hnone id hunfired)
  · obtain ⟨node, entry, frame, hcalls, -⟩ := hready
    have hmem : id ∈ p.unfired results :=
      mem_unfired.2 ⟨by rw [hcalls.node_eq]; rfl, hunfired⟩
    rw [unfired_update, List.length_erase_of_mem hmem]
    omega

/-- Any other step brings the nodes that are ready closer to the head of the line. -/
theorem Lasting.pass (h : p.Lasting c results frames (steps + 1)) (hsound : frames.Sound)
    (hpop : frames.pop? = some ((id, frame), rest))
    (hid : results id = none → ¬ p.Ready c frames id)
    (hready : ∀ other, results other = none →
      (p.Ready c frames other ↔ p.Ready c frames' other))
    (hindex : ∀ other, results other = none → p.Ready c frames other →
      frames'.order.idxOf other ≤ rest.order.idxOf other) :
    p.Lasting c results frames' steps := by
  rcases h with hnone | ⟨other, hunfired, hother, hsteps⟩
  · exact .inl fun other hunfired hother => hnone other hunfired ((hready other hunfired).2 hother)
  · refine .inr ⟨other, hunfired, (hready other hunfired).1 hother, ?_⟩
    obtain ⟨horder, -, -⟩ := FrameQueue.pop?_eq_some hsound hpop
    have hne : id ≠ other := fun heq => hid (heq ▸ hunfired) (heq ▸ hother)
    have hle := hindex other hunfired hother
    rw [horder, List.idxOf_cons_ne _ hne] at hsteps
    omega

end Program

end Dataflow

/-
The order of a callback's body.

A walk appends what it discovers to the end of the line, so an id is visited in the order in which
edges lead to it: first the edges that feed the callback, then those of each visited id in turn.
Hence what lies nearer to the call site comes first.

* `Callback.targets` — where edges lead, apart from the call site;
* `Callback.ReachIn` — ids that can be reached over a number of ids in between;
* `Callback.BreadthFirst` — what it means for ids to be listed breadth first;
* `Callback.breadthFirst_body` — bodies are.
-/
import Mathlib
import Dataflow.Proofs.Cutting
namespace Dataflow

/-- What comes first without duplicates comes first with them. -/
theorem mem_left_of_sublist_eraseDups {a b : String} {x y : List String}
    (h : [a, b].Sublist (x ++ y).eraseDups) (hb : b ∈ x) : a ∈ x := by
  rw [List.eraseDups_append] at h
  obtain ⟨l, m, hsplit, hl, hm⟩ := List.sublist_append_iff.1 h
  -- What is new in `y` does not contain `b`, so both have to come from `x`.
  have hnot : b ∉ m := by
    intro hmem
    have hnew := List.mem_eraseDups.1 (hm.subset hmem)
    simp [List.removeAll, hb] at hnew
  rcases List.eq_nil_or_concat m with rfl | ⟨m, last, rfl⟩
  · rw [List.append_nil] at hsplit
    have ha : a ∈ l := by simp [← hsplit]
    exact List.mem_eraseDups.1 (hl.subset ha)
  · rw [List.concat_eq_append, ← List.append_assoc] at hsplit
    have hlast : b = last := by
      have := congrArg List.getLast? hsplit
      simpa using this
    exact absurd (by simp [hlast]) hnot

namespace Callback

variable {p : Program} {site id : String} {feeding : List Edge} {visited line : List String}

/-- Where edges lead, apart from the call site. -/
def targets (site : String) (edges : List Edge) : List String :=
  (edges.map (·.target)).filter fun target => target ≠ site

theorem mem_targets {edges : List Edge} :
    id ∈ targets site edges ↔ id ≠ site ∧ ∃ edge ∈ edges, edge.target = id := by
  simp [targets, and_comm]

private theorem targets_append (edges more : List Edge) :
    targets site (edges ++ more) = targets site edges ++ targets site more := by
  simp [targets]

private theorem targets_cons (edge : Edge) (rest : List Edge) :
    targets site (edge :: rest) =
      if edge.target = site then targets site rest else edge.target :: targets site rest := by
  by_cases h : edge.target = site <;> simp [targets, h]

/-- What is discovered are the targets that are new, each once. -/
theorem discover_eq (known : List String) (edges : List Edge) :
    discover site known edges =
      ((targets site edges).filter fun target => target ∉ known).eraseDups := by
  induction edges generalizing known with
  | nil => rfl
  | cons edge rest ih =>
    rw [discover, targets_cons]
    by_cases hsite : edge.target = site
    · rw [if_pos (.inl hsite), if_pos hsite, ih]
    · rw [if_neg hsite, eraseDups_filter_cons]
      by_cases hknown : edge.target ∈ known
      · rw [if_pos (.inr hknown), if_pos hknown, ih]
      · rw [if_neg (by simp [hsite, hknown]), if_neg hknown, ih]

/-- The ids that can be reached from the targets of `feeding` over `n` other ids, without passing
through the call site. -/
inductive ReachIn (p : Program) (site : String) (feeding : List Edge) : Nat → String → Prop where
  | entry {edge : Edge} : edge ∈ feeding → edge.target ≠ site →
    ReachIn p site feeding 0 edge.target
  | next {n : Nat} {id : String} {edge : Edge} : ReachIn p site feeding n id →
    edge ∈ edgesOf p id → edge.target ≠ site → ReachIn p site feeding (n + 1) edge.target

/-- The ids are listed breadth first: in the order in which the edges lead to them, those of
`feeding` before those of the listed ids. So what can be reached over fewer ids comes first. -/
structure BreadthFirst (p : Program) (site : String) (feeding : List Edge) (ids : List String) :
    Prop where
  discovered : ids = (targets site (feeding ++ ids.flatMap (edgesOf p))).eraseDups
  nearer : ids.Pairwise fun a b => ∀ n, ReachIn p site feeding n b →
    ∃ m ≤ n, ReachIn p site feeding m a

/-- During a walk, what was visited and what waits are the targets so far. -/
theorem Walks.discovered {final : List String} (h : Walks p site visited line final)
    (hline : visited ++ line = (targets site (feeding ++ visited.flatMap (edgesOf p))).eraseDups) :
    final = (targets site (feeding ++ final.flatMap (edgesOf p))).eraseDups := by
  induction h with
  | done =>
    rw [List.append_nil] at hline
    exact hline
  | @visit visited line final id _ ih =>
    refine ih ?_
    have htargets : targets site (feeding ++ (visited ++ [id]).flatMap (edgesOf p)) =
        targets site (feeding ++ visited.flatMap (edgesOf p)) ++ targets site (edgesOf p id) := by
      rw [List.flatMap_append, ← List.append_assoc, targets_append]
      simp
    have hknown : ∀ target, target ∈ visited ++ id :: line ↔
        target ∈ targets site (feeding ++ visited.flatMap (edgesOf p)) := by
      intro target
      rw [hline, List.mem_eraseDups]
    have hnew : (targets site (edgesOf p id)).removeAll
          (targets site (feeding ++ visited.flatMap (edgesOf p))) =
        (targets site (edgesOf p id)).filter fun target => target ∉ visited ++ id :: line := by
      refine List.filter_congr fun target _ => ?_
      simp [hknown]
    rw [htargets, List.eraseDups_append, ← hline, hnew, discover_eq]
    simp

theorem ReachIn.reach {n : Nat} (h : ReachIn p site feeding n id) : Reach p site feeding id := by
  induction h with
  | entry hedge hne => exact .entry hedge hne
  | next _ hedge hne ih => exact ih.next hedge hne

/-- What is listed in order of discovery is listed by distance. -/
theorem nearer_of_discovered {ids : List String} (hmem : ∀ id, id ∈ ids ↔ Reach p site feeding id)
    (hids : ids = (targets site (feeding ++ ids.flatMap (edgesOf p))).eraseDups) :
    ids.Pairwise fun a b => ∀ n, ReachIn p site feeding n b →
      ∃ m ≤ n, ReachIn p site feeding m a := by
  have hentry : ∀ a, a ∈ targets site feeding → ReachIn p site feeding 0 a := by
    intro a ha
    obtain ⟨hne, edge, hedge, rfl⟩ := mem_targets.1 ha
    exact .entry hedge hne
  refine List.pairwise_iff_forall_sublist.2 fun {a b} hab n hb => ?_
  -- Whatever edge leads to `b`, an edge before it leads to `a`.
  induction n using Nat.strong_induction_on generalizing a b with
  | _ n ih =>
    have hbefore : ∀ x y, targets site (feeding ++ ids.flatMap (edgesOf p)) = x ++ y →
        b ∈ x → a ∈ x := by
      intro x y hsplit hmem
      rw [hids, hsplit] at hab
      exact mem_left_of_sublist_eraseDups hab hmem
    cases hb with
    | entry hedge hne =>
      have ha := hbefore _ _ (targets_append ..) (mem_targets.2 ⟨hne, _, hedge, rfl⟩)
      exact ⟨0, le_rfl, hentry a ha⟩
    | @next n source edge hsource hedge hne =>
      obtain ⟨before, after, hsplit⟩ := List.append_of_mem ((hmem source).2 hsource.reach)
      have htargets : targets site (feeding ++ ids.flatMap (edgesOf p)) =
          targets site (feeding ++ (before ++ [source]).flatMap (edgesOf p)) ++
            targets site (after.flatMap (edgesOf p)) := by
        rw [← targets_append, hsplit]
        simp
      have ha := hbefore _ _ htargets (mem_targets.2 ⟨hne, edge, by simp [hedge], rfl⟩)
      rw [targets_append, List.mem_append] at ha
      rcases ha with ha | ha
      · exact ⟨0, by omega, hentry a ha⟩
      · obtain ⟨hsite, other, hother, rfl⟩ := mem_targets.1 ha
        obtain ⟨earlier, hearlier, hnext⟩ := List.mem_flatMap.1 hother
        -- The edge to `a` starts no later than the edge to `b`.
        rcases List.mem_append.1 hearlier with hearlier | hearlier
        · have hsub : [earlier, source].Sublist ids := by
            rw [hsplit]
            exact (List.singleton_sublist.2 hearlier).append
              (List.singleton_sublist.2 (List.mem_cons_self ..))
          obtain ⟨m, hm, hreach⟩ := ih n (by omega) hsub hsource
          exact ⟨m + 1, by omega, hreach.next hnext hsite⟩
        · rw [List.mem_singleton] at hearlier
          subst hearlier
          exact ⟨n + 1, le_rfl, hsource.next hnext hsite⟩

/-- **Bodies are listed breadth first.** -/
theorem breadthFirst_body (p : Program) (site : String) (feeding : List Edge) :
    BreadthFirst p site feeding (body p site feeding) := by
  have hids : body p site feeding =
      (targets site (feeding ++ (body p site feeding).flatMap (edgesOf p))).eraseDups :=
    (walks_body p site feeding).discovered (by simp [discover_eq])
  exact ⟨hids, nearer_of_discovered (fun id => mem_body) hids⟩

end Callback

end Dataflow

/-
The body of a callback is what its feeding edges reach.

The walk that lists a body visits every id once and only ids at which an edge arrives, so the steps
it is given are enough: it ends with an empty line. What it has visited then is closed under the
edges, apart from those to the call site.

* `Callback.Reach` — the ids that can be reached without passing through the call site;
* `Callback.Walks` — a walk that is followed until nothing waits;
* `Callback.mem_body` — the body lists exactly these;
* `Callback.size_lt_of_extract` — the program of a closure is smaller than the one it is cut from.
-/
import Mathlib
import Dataflow.Proofs.Cycle
import Dataflow.Proofs.Extraction
namespace Dataflow

namespace Callback

variable {p : Program} {site id : String} {feeding edges : List Edge}
  {body line known : List String}

/-- The ids that can be reached from the targets of `feeding` without passing through the call
site. -/
inductive Reach (p : Program) (site : String) (feeding : List Edge) : String → Prop where
  | entry {edge : Edge} : edge ∈ feeding → edge.target ≠ site → Reach p site feeding edge.target
  | next {id : String} {edge : Edge} : Reach p site feeding id → edge ∈ edgesOf p id →
    edge.target ≠ site → Reach p site feeding edge.target

theorem Reach.ne_site (h : Reach p site feeding id) : id ≠ site := by
  cases h with
  | entry _ hne => exact hne
  | next _ _ hne => exact hne

theorem mem_edgesOf {edge : Edge} :
    edge ∈ edgesOf p id ↔ ∃ node, p.node? id = some node ∧ edge ∈ node.next := by
  rw [edgesOf]
  cases p.node? id with
  | none => simp
  | some node => simp

/-! ### Discovering ids -/

theorem mem_discover : id ∈ discover site known edges ↔
    id ≠ site ∧ id ∉ known ∧ ∃ edge ∈ edges, edge.target = id := by
  induction edges generalizing known with
  | nil => simp [discover]
  | cons edge rest ih =>
    rw [discover]
    by_cases h : edge.target = site ∨ edge.target ∈ known
    · rw [if_pos h, ih]
      constructor
      · rintro ⟨hsite, hknown, other, hother, htarget⟩
        exact ⟨hsite, hknown, other, List.mem_cons_of_mem _ hother, htarget⟩
      · rintro ⟨hsite, hknown, other, hother, rfl⟩
        -- The first edge leads to something that is not new, so it is another one.
        rcases List.mem_cons.1 hother with rfl | hother
        · exact absurd h (by simp [hsite, hknown])
        · exact ⟨hsite, hknown, other, hother, rfl⟩
    · push Not at h
      rw [if_neg (by simp [h]), List.mem_cons, ih]
      constructor
      · rintro (rfl | ⟨hsite, hknown, other, hother, htarget⟩)
        · exact ⟨h.1, h.2, edge, List.mem_cons_self .., rfl⟩
        · exact ⟨hsite, fun hmem => hknown (List.mem_cons_of_mem _ hmem), other,
            List.mem_cons_of_mem _ hother, htarget⟩
      · rintro ⟨hsite, hknown, other, hother, rfl⟩
        by_cases heq : other.target = edge.target
        · exact .inl heq
        · rcases List.mem_cons.1 hother with rfl | hother
          · exact absurd rfl heq
          · exact .inr ⟨hsite, by simp [heq, hknown], other, hother, rfl⟩

private theorem nodup_discover (site : String) (known : List String) (edges : List Edge) :
    (discover site known edges).Nodup := by
  induction edges generalizing known with
  | nil => exact List.nodup_nil
  | cons edge rest ih =>
    rw [discover]
    split
    · exact ih known
    · refine List.nodup_cons.2 ⟨fun hmem => ?_, ih _⟩
      exact (mem_discover.1 hmem).2.1 (List.mem_cons_self ..)

/-! ### The walk -/

/-- What holds during a walk that has visited `body` while `line` waits. -/
structure Walked (p : Program) (site : String) (feeding : List Edge) (body line : List String) :
    Prop where
  nodup : (body ++ line).Nodup
  reach : ∀ id ∈ body ++ line, Reach p site feeding id
  entries : ∀ edge ∈ feeding, edge.target ≠ site → edge.target ∈ body ++ line
  closed : ∀ id ∈ body, ∀ edge ∈ edgesOf p id, edge.target ≠ site → edge.target ∈ body ++ line

theorem Walked.start (p : Program) (site : String) (feeding : List Edge) :
    Walked p site feeding [] (discover site [] feeding) := by
  refine ⟨nodup_discover .., fun id hid => ?_, fun edge hedge hne => ?_, by simp⟩
  · obtain ⟨hsite, -, edge, hedge, rfl⟩ := mem_discover.1 hid
    exact .entry hedge hsite
  · exact mem_discover.2 ⟨hne, List.not_mem_nil, edge, hedge, rfl⟩

theorem Walked.next (h : Walked p site feeding body (id :: line)) :
    Walked p site feeding (body ++ [id])
      (line ++ discover site (body ++ id :: line) (edgesOf p id)) := by
  have hsplit : body ++ [id] ++ (line ++ discover site (body ++ id :: line) (edgesOf p id)) =
      body ++ id :: line ++ discover site (body ++ id :: line) (edgesOf p id) := by simp
  have hid : id ∈ body ++ id :: line := by simp
  refine ⟨?_, fun other hother => ?_, fun edge hedge hne => ?_,
    fun other hother edge hedge hne => ?_⟩
  · rw [hsplit]
    refine List.nodup_append.2 ⟨h.nodup, nodup_discover .., ?_⟩
    rintro a ha b hb rfl
    exact (mem_discover.1 hb).2.1 ha
  · rw [hsplit] at hother
    rcases List.mem_append.1 hother with hother | hother
    · exact h.reach other hother
    · obtain ⟨hsite, -, edge, hedge, rfl⟩ := mem_discover.1 hother
      exact (h.reach id hid).next hedge hsite
  · rw [hsplit]
    exact List.mem_append_left _ (h.entries edge hedge hne)
  · rw [hsplit]
    rcases List.mem_append.1 hother with hother | hother
    · exact List.mem_append_left _ (h.closed other hother edge hedge hne)
    · -- The edges of the visited id lead to what was known or is discovered now.
      rw [List.mem_singleton.1 hother] at hedge
      by_cases hknown : edge.target ∈ body ++ id :: line
      · exact List.mem_append_left _ hknown
      · exact List.mem_append_right _ (mem_discover.2 ⟨hne, hknown, edge, hedge, rfl⟩)

/-- What is reached is the target of some edge. -/
theorem Reach.mem_targets (h : Reach p site feeding id) :
    id ∈ feeding.map (·.target) ++ p.edges.map (·.2.2.target) := by
  cases h with
  | entry hedge _ => exact List.mem_append_left _ (List.mem_map.2 ⟨_, hedge, rfl⟩)
  | @next source edge _ hedge _ =>
    obtain ⟨node, hnode, hnext⟩ := mem_edgesOf.1 hedge
    obtain ⟨i, hi⟩ := Program.exists_mem_edges hnode hnext
    exact List.mem_append_right _ (List.mem_map.2 ⟨(source, i, edge), hi, rfl⟩)

private theorem Walked.length_lt (h : Walked p site feeding body line) :
    (body ++ line).length < walkBound p feeding := by
  have hle := (h.nodup.subperm fun id hid => (h.reach id hid).mem_targets).length_le
  rw [List.length_append, List.length_append, List.length_map, List.length_map] at hle
  rw [List.length_append, walkBound]
  omega

/-- A walk that is followed until nothing waits. -/
inductive Walks (p : Program) (site : String) : (body line final : List String) → Prop where
  | done {body : List String} : Walks p site body [] body
  | visit {body line final : List String} {id : String} :
    Walks p site (body ++ [id]) (line ++ discover site (body ++ id :: line) (edgesOf p id)) final →
    Walks p site body (id :: line) final

/-- A walk with enough steps is followed to its end. -/
theorem Walked.walks {fuel : Nat} (h : Walked p site feeding body line)
    (hfuel : walkBound p feeding ≤ body.length + fuel) :
    Walks p site body line (walk p site fuel body line) := by
  induction fuel generalizing body line with
  | zero =>
    have hlt := h.length_lt
    rw [List.length_append] at hlt
    omega
  | succ fuel ih =>
    cases line with
    | nil => exact .done
    | cons id line =>
      refine .visit (ih h.next ?_)
      rw [List.length_append, List.length_singleton]
      omega

private theorem Walks.walked {final : List String} (h : Walks p site body line final)
    (hwalked : Walked p site feeding body line) : Walked p site feeding final [] := by
  induction h with
  | done => exact hwalked
  | visit _ ih => exact ih hwalked.next

theorem walks_body (p : Program) (site : String) (feeding : List Edge) :
    Walks p site [] (discover site [] feeding) (Callback.body p site feeding) :=
  (Walked.start p site feeding).walks (by simp)

theorem walked_body (p : Program) (site : String) (feeding : List Edge) :
    Walked p site feeding (Callback.body p site feeding) [] :=
  (walks_body p site feeding).walked (.start p site feeding)

/-- **The body lists exactly what the feeding edges reach.** -/
theorem mem_body : id ∈ Callback.body p site feeding ↔ Reach p site feeding id := by
  have hwalked := walked_body p site feeding
  have hentries := hwalked.entries
  have hclosed := hwalked.closed
  have hreach := hwalked.reach
  rw [List.append_nil] at hentries hclosed hreach
  constructor
  · exact hreach id
  · intro h
    induction h with
    | entry hedge hne => exact hentries _ hedge hne
    | next _ hedge hne ih => exact hclosed _ ih _ hedge hne

/-! ### Closures are smaller -/

/-- What extraction puts under a name is a closure over the body of the call site. -/
theorem program_of_extract {signature : Signature} {frames : FrameQueue} {extraction : Extraction}
    (h : extract p site signature frames = .ok extraction) {name : String} {closure : Closure}
    (hclosure : extraction.closures.get? name = some closure) :
    (∃ node, p.node? site = some node) ∧ closure.program.nodes =
      bodyNodes p site (Callback.body p site (feedingEdges p site signature)) := by
  rw [extract] at h
  split at h
  · cases h
    cases hclosure
  · rename_i hsome
    push Not at hsome
    obtain ⟨found, hfound, h⟩ := Except.bind_eq_ok h
    cases h
    rw [Record.get?_ofList_reverse] at hclosure
    obtain ⟨callback, -, hnodes, -⟩ := (closures_declared hfound).2 name closure
      (List.mem_reverse.1 (Entries.mem_of_lookup hclosure))
    exact ⟨by simpa [← Option.ne_none_iff_exists'] using hsome.1, hnodes⟩

/-- The nodes of a closure are nodes of the program, and the call site is not one of them. -/
theorem node_of_closure {signature : Signature} {frames : FrameQueue} {extraction : Extraction}
    (h : extract p site signature frames = .ok extraction) {name : String} {closure : Closure}
    (hclosure : extraction.closures.get? name = some closure) {inner : Node}
    (hinner : closure.program.node? id = some inner) :
    id ≠ site ∧ ∃ node, p.node? id = some node ∧ inner.function = node.function := by
  rw [Program.node?, (program_of_extract h hclosure).2] at hinner
  refine ⟨?_, node_of_bodyNodes hinner⟩
  obtain ⟨other, hother, heq⟩ := List.mem_filterMap.1 (Table.mem_of_get?_ofList hinner)
  obtain ⟨node, -, heq⟩ := Option.map_eq_some_iff.1 heq
  cases heq
  exact (mem_body.1 hother).ne_site

/-- **The program of a closure has fewer nodes than the program it is cut from.** -/
theorem size_lt_of_extract {signature : Signature} {frames : FrameQueue} {extraction : Extraction}
    (h : extract p site signature frames = .ok extraction) {name : String} {closure : Closure}
    (hclosure : extraction.closures.get? name = some closure) : closure.program.size < p.size := by
  have hsize : ∀ q : Program, q.ids.length = q.size := fun q => List.length_map ..
  obtain ⟨⟨node, hnode⟩, -⟩ := program_of_extract h hclosure
  have hsite : site ∈ p.ids := Table.mem_names.2 ⟨node, hnode⟩
  -- All its ids are ids of the program, and the call site is missing.
  have hsub : closure.program.ids ⊆ p.ids.erase site := by
    intro id hid
    obtain ⟨inner, hinner⟩ := Table.mem_names.1 hid
    obtain ⟨hne, outer, houter, -⟩ := node_of_closure h hclosure hinner
    exact (List.mem_erase_of_ne hne).2 (Table.mem_names.2 ⟨outer, houter⟩)
  have hle := (List.Nodup.subperm closure.program.nodes.distinct hsub).length_le
  have hpos := List.length_pos_of_mem hsite
  rw [List.length_erase_of_mem hsite, hsize p] at hle
  rw [hsize p] at hpos
  have hlength : closure.program.ids.length = closure.program.size := hsize _
  have : closure.program.size ≤ p.size - 1 := by
    rw [← hlength]
    exact hle
  omega

end Callback

end Dataflow

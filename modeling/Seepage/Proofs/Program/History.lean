import Seepage.Program.Basic
import Seepage.Proofs.Graph.Assembly

set_option autoImplicit false

namespace Seepage.Program

open List

variable {program : Program} {graph : FileGraph}

inductive Operation where
  | merge (graph : FileGraph)
  | attach (file : Nat) (bindings : List Markup.Binding)
  | link

def Operation.isMerge : Operation → Bool
  | .merge _ => true
  | .attach .. | .link => false

def perform (program : Program) : Operation → Program
  | .merge graph => (program.merge graph).1
  | .attach file bindings => program.attach file bindings
  | .link => program.link

def ofHistory (history : List Operation) : Program :=
  history.foldl perform {}

def EndsLinked (history : List Operation) : Prop :=
  ∃ before after, history = before ++ .link :: after ∧
    ∀ operation ∈ after, operation.isMerge = false

structure Consistent (program : Program) : Prop where
  built : ∀ graph ∈ program.files.toList, graph.Built
  names : (program.files.toList.map FileGraph.file).Nodup

structure Linked (program : Program) : Prop extends Consistent program where
  current : program.links = program.allLinks
  outgoing : program.outgoing =
    .ofList (program.links.map fun edge => (edge.source, edge.target, edge.kind))
  incoming : program.incoming =
    .ofList (program.links.map fun edge => (edge.target, edge.source, edge.kind))

theorem names_merge_known {id : Nat} (known : program.fileId? graph.file = some id) :
    (program.files.toList.set id graph).map FileGraph.file =
      program.files.toList.map FileGraph.file := by
  obtain ⟨bound, same, -⟩ := Array.findIdx?_eq_some_iff_getElem.mp known
  apply ext_getElem?
  intro position
  by_cases here : id = position
  · subst here
    simp [bound, eq_of_beq same]
  · simp [here]

section

variable {program : Program} (consistent : program.Consistent)

include consistent

theorem Consistent.merge (built : graph.Built) : (program.merge graph).1.Consistent := by
  unfold Program.merge
  split
  case h_1 id known =>
    constructor
    · intro other member
      rw [Array.toList_setIfInBounds] at member
      rcases mem_or_eq_of_mem_set member with old | rfl
      · exact consistent.built other old
      · exact built
    · rw [Array.toList_setIfInBounds, names_merge_known known]
      exact consistent.names
  case h_2 unknown =>
    constructor
    · intro other member
      rw [Array.toList_push, mem_append, mem_singleton] at member
      rcases member with old | rfl
      · exact consistent.built other old
      · exact built
    · have fresh : graph.file ∉ program.files.toList.map FileGraph.file := by
        intro present
        obtain ⟨other, member, same⟩ := mem_map.mp present
        have differ := Array.findIdx?_eq_none_iff.mp unknown other (by simpa using member)
        simp [same] at differ
      rw [Array.toList_push, map_append, nodup_append]
      refine ⟨consistent.names, by simp, ?_⟩
      intro name present other own same
      rw [mem_singleton.mp own] at same
      exact fresh (same ▸ present)

theorem Consistent.perform {operation : Operation}
    (built : ∀ graph, operation = .merge graph → graph.Built) :
    (program.perform operation).Consistent := by
  cases operation with
  | merge graph => exact consistent.merge (built graph rfl)
  | attach file bindings => exact ⟨consistent.built, consistent.names⟩
  | link => exact ⟨consistent.built, consistent.names⟩

theorem Consistent.foldl {history : List Operation}
    (built : ∀ graph, .merge graph ∈ history → graph.Built) :
    (history.foldl Program.perform program).Consistent := by
  induction history generalizing program with
  | nil => exact consistent
  | cons operation rest ih =>
    refine ih (consistent.perform ?_) ?_
    · rintro graph rfl
      exact built graph (by simp)
    · intro graph later
      exact built graph (by simp [later])

theorem Consistent.link : program.link.Linked :=
  { built := consistent.built, names := consistent.names, current := rfl, outgoing := rfl,
    incoming := rfl }

end

theorem Linked.perform (linked : program.Linked) {operation : Operation}
    (quiet : operation.isMerge = false) : (program.perform operation).Linked := by
  cases operation with
  | merge graph => cases quiet
  | attach file bindings =>
    exact { built := linked.built, names := linked.names, current := linked.current,
            outgoing := linked.outgoing, incoming := linked.incoming }
  | link => exact linked.toConsistent.link

theorem ofHistory_induction {motive : Program → Prop} {history : List Operation}
    (built : ∀ graph, .merge graph ∈ history → graph.Built) (ends : EndsLinked history)
    (linking : ∀ program : Program, program.Consistent → motive program.link)
    (keeping : ∀ (program : Program) (operation : Operation), operation.isMerge = false →
      motive program → motive (program.perform operation)) : motive (ofHistory history) := by
  obtain ⟨before, after, rfl, quiet⟩ := ends
  have empty : Consistent {} := ⟨by simp, by simp⟩
  have start : (before.foldl Program.perform {}).Consistent :=
    empty.foldl fun graph member => built graph (by simp [member])
  rw [ofHistory, foldl_append, foldl_cons]
  have linked : motive ((before.foldl Program.perform {}).perform .link) := linking _ start
  clear built start
  generalize (before.foldl Program.perform {}).perform .link = program at linked
  induction after generalizing program with
  | nil => exact linked
  | cons operation rest ih =>
    refine ih (fun later member => quiet later (by simp [member])) _ (keeping _ operation ?_ linked)
    exact quiet operation (by simp)

theorem linked_ofHistory {history : List Operation}
    (built : ∀ graph, .merge graph ∈ history → graph.Built) (ends : EndsLinked history) :
    (ofHistory history).Linked :=
  ofHistory_induction built ends (fun _ consistent => consistent.link)
    fun _ _ quiet linked => linked.perform quiet

end Seepage.Program

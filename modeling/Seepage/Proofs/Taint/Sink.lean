import Seepage.Proofs.Program.Flow
import Seepage.Taint.Finding

set_option autoImplicit false

namespace Seepage

open List Program

variable {arg id : Nat} {graph : FileGraph} {name : String}

namespace Arena.WellNumbered

variable {arena : Arena} (well : arena.WellNumbered)

include well

theorem parent_of_mem_callArgs {call : Nat} (member : arg ∈ arena.callArgs call) :
    arena.parent? arg = some call := by
  unfold callArgs at member
  split at member
  · exact well.parent_of_mem_children (mem_of_mem_drop member)
  · cases member

end Arena.WellNumbered

namespace FileGraph

theorem edge_of_mem_callArgs (built : graph.Built) {call : Nat}
    (isCall : graph.arena.kind call = .call) (host : graph.heap.callTargets call = [])
    (member : arg ∈ graph.arena.callArgs call) : Edge.data arg call .callArg ∈ graph.edges := by
  obtain ⟨well, options, made⟩ := built.eq_assemble
  have same : graph.heap.problem.arena = graph.arena := by
    rw [made]
    rfl
  have inHost : Edge.data arg call .callArg ∈ graph.heap.hostEdges call := by
    rw [Alias.Solution.hostEdges, same]
    apply mem_append_left
    exact mem_map_of_mem (mem_append_left _ member)
  have known : call < graph.arena.size := Arena.lt_size_of_kind (by simp [isCall])
  have inCalls : Edge.data arg call .callArg ∈ graph.heap.callEdges := by
    rw [Alias.Solution.callEdges, mem_sortEdges, mem_flatMap, same]
    refine ⟨call, by simp [Arena.ids, known, isCall, Kind.isCallLike], ?_⟩
    simpa [Alias.Solution.callEdgesOf, host] using inHost
  rw [made] at inCalls ⊢
  simp only [assemble, ofEdges, mem_sortEdges, mem_append]
  exact .inl (.inr (.inr inCalls))

end FileGraph

namespace Taint

def IsSink (program : Program) (sinks : ApiFilter) (call : GlobalNode) (name : String) : Prop :=
  ∃ graph, program.graph? call = some graph ∧ graph.arena.kind call.node = .call ∧
    graph.heap.callTargets call.node = [] ∧ graph.arena.calleeName? call.node = some name ∧
    name ∉ registrationCalls ∧ sinks.admits name = true

def IsHit (program : Program) (call node : GlobalNode) : Prop :=
  node = call ∨ node.file = call.file ∧ program.kind node ≠ .call ∧
    node.node ∈ (program.arena call).callArgs call.node

instance (program : Program) (call : GlobalNode) : DecidablePred (IsHit program call) :=
  fun _ => inferInstanceAs (Decidable (_ ∨ _))

theorem hostCallName_eq_some :
    hostCallName? graph id = some name ↔
      graph.arena.kind id = .call ∧ graph.heap.callTargets id = [] ∧
        graph.arena.calleeName? id = some name ∧ name ∉ registrationCalls := by
  unfold hostCallName?
  split
  case isTrue host =>
    simp only [FileGraph.isHostCall, Bool.and_eq_true, decide_eq_true_eq,
      List.isEmpty_iff] at host
    simp [host, Option.filter_eq_some_iff]
  case isFalse other =>
    simp only [FileGraph.isHostCall, Bool.and_eq_true, decide_eq_true_eq,
      List.isEmpty_iff] at other
    simp only [reduceCtorEq, false_iff]
    rintro ⟨isCall, host, -⟩
    exact other ⟨isCall, host⟩

theorem callAt_eq_some {arena : Arena} (well : arena.WellNumbered) {call : Nat}
    (isCall : arena.kind call = .call) :
    callAt? arena id = some call ↔ id = call ∨ arena.kind id ≠ .call ∧ id ∈ arena.callArgs call := by
  unfold callAt?
  split
  case h_1 own => simp [own]
  case h_2 other =>
    simp only [Option.filter_eq_some_iff, Bool.and_eq_true, decide_eq_true_eq,
      contains_iff_mem]
    constructor
    · rintro ⟨-, -, member⟩
      exact .inr ⟨other, member⟩
    · rintro (rfl | ⟨-, member⟩)
      · exact absurd isCall other
      · exact ⟨well.parent_of_mem_callArgs member, isCall, member⟩

theorem sinkAt_eq_some {program : Program} (consistent : program.Consistent) {sinks : ApiFilter}
    {node call : GlobalNode} : sinkAt? program sinks node = some (call, name) ↔
      IsSink program sinks call name ∧ IsHit program call node := by
  obtain ⟨file, id⟩ := node
  obtain ⟨file', callId⟩ := call
  simp only [sinkAt?, bind, pure, Option.bind_eq_some_iff, Option.some.injEq, Prod.mk.injEq,
    GlobalNode.mk.injEq, Option.filter_eq_some_iff, hostCallName_eq_some]
  constructor
  · rintro ⟨graph, found, sink, here, _, ⟨⟨isCall, host, called, unregistered⟩, admitted⟩,
      ⟨rfl, rfl⟩, rfl⟩
    have found' : program.graph? ⟨file, sink⟩ = some graph := found
    obtain ⟨well, -⟩ := (consistent.built_graph found).eq_assemble
    refine ⟨⟨graph, found', isCall, host, called, unregistered, admitted⟩, ?_⟩
    rcases (callAt_eq_some well isCall).mp here with rfl | ⟨other, member⟩
    · exact .inl rfl
    · exact .inr ⟨rfl, by simpa [kind, arena, found] using other,
        by simpa [arena, found'] using member⟩
  · rintro ⟨⟨graph, found, isCall, host, called, unregistered, admitted⟩, hit⟩
    obtain ⟨well, -⟩ := (consistent.built_graph found).eq_assemble
    have same : file = file' := by
      rcases hit with same | ⟨same, -⟩
      · exact (GlobalNode.mk.inj same).1
      · exact same
    subst same
    have found' : program.graph? ⟨file, id⟩ = some graph := found
    refine ⟨graph, found', callId, ?_, name, ⟨⟨isCall, host, called, unregistered⟩, admitted⟩,
      ⟨rfl, rfl⟩, rfl⟩
    refine (callAt_eq_some well isCall).mpr (hit.imp ?_ ?_)
    · intro same
      exact (GlobalNode.mk.inj same).2
    · rintro ⟨-, other, member⟩
      exact ⟨by simpa [kind, arena, found'] using other,
        by simpa [arena, found] using member⟩

section

variable {program : Program} (linked : program.Linked) {sinks : ApiFilter} {call node : GlobalNode}
  {name : String} (sink : IsSink program sinks call name) (hit : IsHit program call node)

include linked sink hit

theorem IsHit.hasFlow (other : node ≠ call) : ∃ kind, program.HasFlow node call kind := by
  obtain ⟨same, -, member⟩ := hit.resolve_left other
  obtain ⟨graph, found, isCall, host, -⟩ := sink
  have known : program.arena call = graph.arena := by simp [arena, found]
  rw [known] at member
  have edge := FileGraph.edge_of_mem_callArgs (linked.built_graph found) isCall host member
  refine ⟨.callArg, .inl ⟨graph, ?_, same.symm, edge⟩⟩
  simpa [graph?, same] using found

theorem IsHit.reaches : program.Reaches node call := by
  by_cases same : node = call
  · exact same ▸ .refl
  · exact .single (linked.flows_iff.mpr (hit.hasFlow linked sink same))

end

end Taint

end Seepage

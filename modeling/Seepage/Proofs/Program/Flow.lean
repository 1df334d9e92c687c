import Mathlib.Logic.Relation
import Seepage.Proofs.Program.History

set_option autoImplicit false

namespace Seepage.Program

open List

variable {program : Program} {id : GlobalNode} {graph : FileGraph} {kind : DataKind}

def Flows (program : Program) (node next : GlobalNode) : Prop :=
  ∃ kind, (next, kind) ∈ program.successors node

def Reaches (program : Program) : GlobalNode → GlobalNode → Prop :=
  Relation.ReflTransGen program.Flows

def HasFlow (program : Program) (node next : GlobalNode) (kind : DataKind) : Prop :=
  (∃ graph, program.graph? node = some graph ∧ next.file = node.file ∧
    Edge.data node.node next.node kind ∈ graph.edges) ∨
  ∃ channel, ⟨node, next, kind, channel⟩ ∈ program.links

theorem Consistent.built_graph (consistent : program.Consistent)
    (found : program.graph? id = some graph) : graph.Built :=
  consistent.built graph (by simpa using Array.mem_of_getElem? found)

theorem mem_local {values : FileGraph → List (Nat × DataKind)} {other : GlobalNode} :
    (other, kind) ∈ (((program.graph? id).map values).getD []).map
        (fun (node, kind) => ((⟨id.file, node⟩ : GlobalNode), kind)) ↔
      ∃ graph, program.graph? id = some graph ∧ other.file = id.file ∧
        (other.node, kind) ∈ values graph := by
  obtain ⟨file, node⟩ := other
  cases program.graph? id with
  | none => simp
  | some graph =>
    simp only [Option.map_some, Option.getD_some, mem_map, Prod.exists, Prod.mk.injEq,
      GlobalNode.mk.injEq, Option.some.injEq, exists_eq_left']
    constructor
    · rintro ⟨_, _, member, ⟨rfl, rfl⟩, rfl⟩
      exact ⟨rfl, member⟩
    · rintro ⟨rfl, member⟩
      exact ⟨_, _, member, ⟨rfl, rfl⟩, rfl⟩

section

variable {program : Program} (linked : program.Linked) {node next : GlobalNode}

include linked

theorem Linked.mem_successors :
    (next, kind) ∈ program.successors node ↔ program.HasFlow node next kind := by
  rw [successors, mem_append, mem_local, linked.outgoing, Adjacency.values_ofList]
  refine or_congr (exists_congr fun graph => and_congr_right fun found => ?_) ?_
  · rw [FileGraph.mem_successors (linked.built_graph found)]
  · simp only [mem_map, mem_filter, decide_eq_true_eq]
    constructor
    · rintro ⟨_, ⟨⟨edge, member, rfl⟩, rfl⟩, ⟨⟩⟩
      exact ⟨edge.channel, member⟩
    · exact fun ⟨channel, member⟩ => ⟨_, ⟨⟨_, member, rfl⟩, rfl⟩, rfl⟩

theorem Linked.mem_predecessors :
    (node, kind) ∈ program.predecessors next ↔ program.HasFlow node next kind := by
  rw [predecessors, mem_append, mem_local, linked.incoming, Adjacency.values_ofList]
  refine or_congr (exists_congr fun graph => ?_) ?_
  · constructor
    · rintro ⟨found, same, member⟩
      refine ⟨by simpa [graph?, same] using found, same.symm, ?_⟩
      exact (FileGraph.mem_predecessors (linked.built_graph found)).mp member
    · rintro ⟨found, same, member⟩
      have here : program.graph? next = some graph := by simpa [graph?, same] using found
      exact ⟨here, same.symm, (FileGraph.mem_predecessors (linked.built_graph here)).mpr member⟩
  · simp only [mem_map, mem_filter, decide_eq_true_eq]
    constructor
    · rintro ⟨_, ⟨⟨edge, member, rfl⟩, rfl⟩, ⟨⟩⟩
      exact ⟨edge.channel, member⟩
    · exact fun ⟨channel, member⟩ => ⟨_, ⟨⟨_, member, rfl⟩, rfl⟩, rfl⟩

theorem Linked.flows_iff : program.Flows node next ↔ ∃ kind, program.HasFlow node next kind :=
  exists_congr fun _ => linked.mem_successors

end

def targets (program : Program) : List GlobalNode :=
  (program.numbered.flatMap fun (file, graph) =>
    graph.edges.map fun edge => ⟨file, edge.target⟩) ++ program.links.map (·.target)

theorem mem_numbered {file : Nat} :
    (file, graph) ∈ program.numbered ↔ program.files[file]? = some graph := by
  simp only [numbered, mem_map, Prod.exists, Prod.mk.injEq, mem_zipIdx_iff_getElem?,
    Array.getElem?_toList]
  constructor
  · rintro ⟨_, _, found, rfl, rfl⟩
    exact found
  · intro found
    exact ⟨_, _, found, rfl, rfl⟩

theorem Linked.mem_targets (linked : program.Linked) {node next : GlobalNode}
    (flows : program.Flows node next) : next ∈ program.targets := by
  obtain ⟨kind, ⟨graph, found, same, edge⟩ | ⟨channel, member⟩⟩ := linked.flows_iff.mp flows
  · apply mem_append_left
    refine mem_flatMap.mpr ⟨(node.file, graph), mem_numbered.mpr found, ?_⟩
    refine mem_map.mpr ⟨_, edge, ?_⟩
    simp [Edge.data, ← same]
  · exact mem_append_right _ (mem_map_of_mem member)

theorem map_numbered (program : Program) : program.numbered.map (·.2) = program.files.toList := by
  simp only [numbered, map_map]
  exact zipIdx_map_fst 0 program.files.toList

theorem length_targets (program : Program) : program.targets.length =
      (program.files.toList.flatMap (·.edges)).length + program.links.length := by
  rw [targets, length_append, ← map_numbered, flatMap_map]
  simp only [length_flatMap, length_map]

end Seepage.Program

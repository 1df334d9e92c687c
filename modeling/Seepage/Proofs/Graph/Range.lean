import Seepage.Proofs.Alias.Range
import Seepage.Proofs.Flow.Contexts
import Seepage.Proofs.Flow.Definitions
import Seepage.Proofs.Graph.Assembly
import Seepage.Proofs.Scope.Range
import Seepage.Proofs.Tree.Positions

set_option autoImplicit false

namespace Seepage

open List

variable {graph : ControlGraph} {vertex id : Nat} {resolution : Resolution} {event : Event}

section

variable {arena : Arena} (well : arena.WellNumbered) (laid : arena.LaidOut)

include well laid

namespace ControlFlow

theorem lt_of_mem_vertices (made : graph ∈ (ofArena arena).graphs)
    (member : vertex ∈ graph.vertices) : vertex < arena.size :=
  ((tied_graph well laid made).1 vertex member).known

omit well laid in
theorem ends_mem_vertices (made : graph ∈ (ofArena arena).graphs) :
    graph.entry ∈ graph.vertices ∧ graph.exit ∈ graph.vertices := by
  obtain ⟨owner, -, rfl⟩ := mem_graphs.mp made
  simp [ControlGraph.ofTree, mem_eraseDups]

omit laid in
theorem inside_branches : ∀ edge ∈ (ofArena arena).branches, (Edge.control edge).Inside arena := by
  intro edge member
  obtain ⟨node, listed, found⟩ := mem_flatMap.mp member
  obtain ⟨tree, inside, rfl⟩ := (Alias.mem_nodes well).mp listed
  have below : ∀ child ∈ tree.label.children, child < arena.size := by
    have same : arena.children tree.label.id = tree.label.children := by
      rw [Arena.children, well.node_eq inside]
    exact fun child held => well.lt_of_mem_children (same ▸ held)
  have own := well.id_lt inside
  unfold branchesOf at found
  split at found
  case h_1 test consequent alternate _ children =>
    rw [children] at below
    rcases mem_pair.mp found with rfl | rfl
    · exact ⟨own, below consequent (by simp)⟩
    · exact ⟨own, below alternate (by simp)⟩
  case h_2 => cases found

theorem inside_controlEdges : ∀ edge ∈ FileGraph.controlEdges (ofArena arena),
    edge.Inside arena := by
  intro edge member
  obtain ⟨flow, listed, rfl⟩ := mem_map.mp member
  rcases mem_append.mp listed with inGraph | branch
  · obtain ⟨graph, made, held⟩ := mem_flatMap.mp inGraph
    obtain ⟨source, target⟩ := (tied_graph well laid made).2 flow held
    exact ⟨lt_of_mem_vertices well laid made source, target.known⟩
  · exact inside_branches well flow branch

theorem lt_of_mem_unreachable (member : id ∈ (ofArena arena).unreachable) : id < arena.size := by
  obtain ⟨graph, made, found⟩ := mem_flatMap.mp member
  exact lt_of_mem_vertices well laid made (mem_filter.mp found).1

theorem lt_of_statementAlong {isVertex : Nat → Bool} {chain : List Nat}
    (known : ∀ id ∈ chain, id < arena.size)
    (found : statementAlong arena isVertex chain = some vertex) : vertex < arena.size := by
  -- up the chain: the answer is a vertex on it or the entry of an owner on it
  induction chain with
  | nil => cases found
  | cons id above ih =>
    obtain ⟨here, there⟩ := forall_mem_cons.mp known
    unfold statementAlong at found
    by_cases own : isVertex id
    · rw [if_pos own] at found
      exact Option.some.inj found ▸ here
    · rw [if_neg own] at found
      cases above with
      | nil => cases found
      | cons parent rest =>
        simp only at found
        by_cases owns : (arena.kind parent).isOwner
        · rw [if_pos owns] at found
          obtain rfl := Option.some.inj found
          obtain ⟨others, children, -, -⟩ :=
            Arena.ends_of_owner well laid (there parent mem_cons_self) owns
          exact well.lt_of_mem_children (children ▸ mem_cons_self)
        · rw [if_neg owns] at found
          exact ih there found

theorem lt_of_statementOf
    (found : (ofArena arena).statementOf id = some vertex) : vertex < arena.size := by
  by_cases known : id < arena.size
  · rw [statementOf_eq well known] at found
    refine lt_of_statementAlong well laid (forall_mem_cons.mpr ⟨known, ?_⟩) found
    exact fun above member => well.lt_of_mem_ancestors member
  · -- nothing evaluates a number that belongs to no node
    have size : (ofArena arena).statements.size = arena.size := by
      simp [ofArena, Arena.nodes, Arena.size]
    rw [statementOf, Array.getD_eq_getD_getElem?,
      Array.getElem?_eq_none (by rw [size]; exact Nat.le_of_not_lt known)] at found
    cases found

end ControlFlow

namespace VariableUse

omit well laid in
theorem exists_of_mem_eventsAt {control : ControlFlow}
    (member : event ∈ (ofArena arena resolution control).eventsAt vertex) :
    ∃ graph ∈ control.graphs, vertex ∈ graph.vertices := by
  have folded : ∀ (graphs : List ControlGraph) (map : Std.TreeMap Nat (List Event)),
      event ∈ (graphs.foldl (fun events graph => graph.vertices.foldl (fun events vertex =>
          events.insert vertex (Event.ofVertex arena resolution control graph.owner vertex))
          events) map).getD vertex [] →
      (∃ graph ∈ graphs, vertex ∈ graph.vertices) ∨ event ∈ map.getD vertex [] := by
    intro graphs
    induction graphs with
    | nil => exact fun map found => .inr found
    | cons graph rest ih =>
      intro map found
      rcases ih _ found with ⟨other, listed, inside⟩ | early
      · exact .inl ⟨other, mem_cons_of_mem _ listed, inside⟩
      · rw [getD_foldl_insert (Event.ofVertex arena resolution control graph.owner)] at early
        by_cases inside : vertex ∈ graph.vertices
        · exact .inl ⟨graph, mem_cons_self, inside⟩
        · rw [if_neg inside] at early
          exact .inr early
  rcases folded control.graphs ∅ member with found | impossible
  · exact found
  · simp at impossible

theorem symbolOf_of_mem_eventsAt (resolution : Resolution) {node symbol : Nat}
    (about : event = .use node symbol ∨ event = .define node symbol)
    (member : event ∈ (ofArena arena resolution (ControlFlow.ofArena arena)).eventsAt vertex) :
    resolution.symbolOf[node]? = some symbol := by
  obtain ⟨graph, made, inside⟩ := exists_of_mem_eventsAt member
  rw [ControlFlow.eventsAt_ofArena well laid resolution made inside] at member
  have proper := Event.proper_ofVertex well laid resolution made inside event member
  rcases about with rfl | rfl
  · exact proper.1
  · exact proper

end VariableUse

namespace Reaching

theorem inside_defUseEdges (ranged : resolution.Ranged arena) :
    ∀ edge ∈ defUseEdges arena resolution, edge.Inside arena := by
  intro edge member
  obtain ⟨graph, made, held⟩ := mem_flatMap.mp member
  obtain ⟨vertex, inside, linked⟩ := mem_flatMap.mp held
  obtain ⟨before, node, symbol, rest, here, definition, source, -, rfl⟩ := mem_links_iff.mp linked
  have isUse : .use node symbol ∈
      (VariableUse.ofArena arena resolution (ControlFlow.ofArena arena)).eventsAt vertex := by
    simp [here]
  have used := VariableUse.symbolOf_of_mem_eventsAt well laid resolution (.inl rfl) isUse
  -- sources are chosen by their symbol, or they are definitions that some vertex makes
  have defined : resolution.symbolOf[definition]? = some symbol := by
    rcases mem_sources.mp source with reaching | ⟨known, -⟩
    · exact beq_iff_eq.mp (mem_filter.mp reaching).2
    · obtain ⟨maker, made'⟩ := VariableUse.mem_definitions.mp known
      exact VariableUse.symbolOf_of_mem_eventsAt well laid resolution (.inr rfl) made'
  exact ⟨(ranged.symbolOf definition symbol defined).1, (ranged.symbolOf node symbol used).1⟩

end Reaching

theorem inside_assemble (options : Alias.Options) :
    ∀ edge ∈ (FileGraph.assemble arena options).edges, edge.Inside arena := by
  intro edge member
  have sound := Alias.Solution.sound_ofArena well (Resolution.ofArena arena) options
  rcases mem_append.mp ((mem_sortEdges _).mp member) with data | control
  · rcases mem_append.mp data with flow | heap
    · rcases mem_append.mp ((mem_sortEdges _).mp flow) with value | link
      · obtain ⟨given, listed, rfl⟩ := mem_map.mp value
        exact inside_valueFlows well given listed
      · rw [flatMap_map] at link
        exact Reaching.inside_defUseEdges well laid (Resolution.ranged_ofArena well) edge link
    · rcases mem_append.mp heap with property | call
      · exact sound.inside_propertyEdges edge property
      · exact sound.inside_callEdges edge call
  · exact ControlFlow.inside_controlEdges well laid edge control

end

namespace FileGraph

structure InRange (graph : FileGraph) : Prop where
  tree : graph.arena.Accessible
  names : graph.resolution.Ranged graph.arena
  owners : ∀ part ∈ graph.control.graphs, part.owner < graph.arena.size ∧
    part.entry ∈ part.vertices ∧ part.exit ∈ part.vertices
  vertices : ∀ part ∈ graph.control.graphs, ∀ vertex ∈ part.vertices, vertex < graph.arena.size
  statements : ∀ id vertex, graph.control.statementOf id = some vertex → vertex < graph.arena.size
  unreachable : ∀ id ∈ graph.control.unreachable, id < graph.arena.size
  heap : ∀ state, Alias.Reached graph.heap.problem state → Alias.Valid graph.arena state ∧
    ∀ location, (state.location location).node < graph.arena.size
  solved : Alias.Reached graph.heap.problem graph.heap.state
  unresolved : ∀ id ∈ graph.heap.opaqueReads, id < graph.arena.size
  edges : ∀ edge ∈ graph.edges, edge.Inside graph.arena

theorem inRange_assemble {arena : Arena} (well : arena.WellNumbered) (laid : arena.LaidOut)
    (options : Alias.Options) : (assemble arena options).InRange := by
  have sound := Alias.Solution.sound_ofArena well (Resolution.ofArena arena) options
  exact
    { tree := Arena.accessible well laid
      names := Resolution.ranged_ofArena well
      owners := fun part known => ⟨ControlFlow.owner_lt well known, ControlFlow.ends_mem_vertices known⟩
      vertices := fun part known vertex member => ControlFlow.lt_of_mem_vertices well laid known member
      statements := fun id vertex found => ControlFlow.lt_of_statementOf well laid found
      unreachable := fun id member => ControlFlow.lt_of_mem_unreachable well laid member
      heap := fun state reached =>
        have valid := reached.valid sound.coherent
        ⟨valid, valid.lt_of_location well⟩
      solved := sound.reached
      unresolved := fun id member => sound.lt_of_mem_opaqueReads member
      edges := inside_assemble well laid options }

theorem Built.inRange {graph : FileGraph} (built : graph.Built) : graph.InRange := by
  obtain ⟨file, arena, options, budget, rest, read, made⟩ := built
  obtain rfl := eq_assemble_of_build made
  exact inRange_assemble (Arena.wellNumbered_ofFile read) (Arena.laidOut_ofFile read) options

end FileGraph

end Seepage

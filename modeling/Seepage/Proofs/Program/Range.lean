import Seepage.Proofs.Graph.Range
import Seepage.Proofs.Program.Links

set_option autoImplicit false

namespace Seepage

open List

variable {found : ChannelEnd} {file : Nat} {link : LinkEdge} {graph : FileGraph} {node : GlobalNode}

namespace FileGraph

section

variable {graph : FileGraph} (built : graph.Built)

include built

theorem Built.well : graph.arena.WellNumbered :=
  built.eq_assemble.1

theorem Built.arena_heap : graph.heap.problem.arena = graph.arena := by
  obtain ⟨-, options, made⟩ := built.eq_assemble
  rw [made]
  rfl

theorem Built.sound : graph.heap.Sound := by
  obtain ⟨well, options, made⟩ := built.eq_assemble
  rw [made]
  exact Alias.Solution.sound_ofArena well (Resolution.ofArena graph.arena) options

theorem Built.lt_of_mem_parts {function part : Nat} {parts : FunctionParts}
    (isFunction : graph.arena.functionParts? function = some parts)
    (member : part ∈ parts.entry :: parts.exit :: parts.params) : part < graph.arena.size := by
  have sound := built.sound
  rw [← built.arena_heap] at isFunction ⊢
  exact sound.lt_of_mem_parts isFunction (.inl member)

theorem Built.lt_of_mem_emits (member : found ∈ graph.emits) : found.node < graph.arena.size := by
  obtain ⟨call, -, -, first, rest, args, -⟩ := mem_emits.mp member
  have sound := built.sound
  rw [← built.arena_heap] at args ⊢
  have isArg : found.node ∈ graph.heap.problem.arena.callArgs call := by simp [args]
  exact (sound.coherent.written?_arg isArg).1

theorem Built.lt_of_mem_listeners (member : found ∈ graph.listeners) :
    found.node < graph.arena.size := by
  obtain ⟨-, -, function, -, parts, isFunction, first⟩ := receives_of_mem_listeners member
  refine built.lt_of_mem_parts isFunction ?_
  simp [mem_of_mem_head? first]

theorem Built.lt_of_mem_registrationLinks (member : link ∈ graph.registrationLinks file) :
    link.source.node < graph.arena.size ∧ link.target.node < graph.arena.size := by
  obtain ⟨⟨name, handler⟩, -, made⟩ := mem_flatMap.mp member
  change link ∈ graph.handlerLinks file handler at made
  unfold handlerLinks at made
  split at made
  case h_1 => cases made
  case h_2 parts isFunction =>
    have inside : ∀ part ∈ parts.entry :: parts.exit :: parts.params, part < graph.arena.size :=
      fun part held => built.lt_of_mem_parts isFunction held
    rcases mem_append.mp made with entering | leaving
    · obtain ⟨param, isParam, rfl⟩ := mem_map.mp entering
      exact ⟨inside _ (by simp), inside _ (by simp [isParam])⟩
    · obtain ⟨result, isResult, rfl⟩ := mem_map.mp leaving
      have tree := built.inRange.tree
      have exits := (tree.exits Arena.root tree.root (by rw [tree.program]; rfl)).1
      refine ⟨?_, built.well.lt_of_child? exits⟩
      rcases mem_cons.mp isResult with rfl | returned
      · exact inside _ (by simp)
      · have sound := built.sound
        rw [← built.arena_heap]
        exact sound.lt_of_mem_returns returned

theorem Built.lt_of_mem_bindingTargets {name : String} {node : Nat}
    (member : node ∈ graph.arena.bindingTargets name) : node < graph.arena.size := by
  obtain ⟨held, listed, rfl⟩ := mem_map.mp member
  obtain ⟨tree, inside, rfl⟩ := (Alias.mem_nodes built.well).mp (mem_filter.mp listed).1
  exact built.well.id_lt inside

end

end FileGraph

namespace Program

variable {program : Program}

theorem contains_iff {id : GlobalNode} :
    program.contains id ↔ ∃ graph, program.graph? id = some graph ∧ id.node < graph.arena.size := by
  simp [contains, graph?, Option.any_eq_true]

section

variable (consistent : program.Consistent)

include consistent

theorem Consistent.contains_registrationLinks (found : program.files[file]? = some graph)
    (member : link ∈ graph.registrationLinks file) :
    program.contains link.source ∧ program.contains link.target := by
  obtain ⟨rfl, here, -⟩ := FileGraph.mem_registrationLinks member
  have built := consistent.built_graph found
  obtain ⟨first, second⟩ := built.lt_of_mem_registrationLinks member
  refine ⟨contains_iff.mpr ⟨graph, found, first⟩, contains_iff.mpr ⟨graph, ?_, second⟩⟩
  rw [graph?, here]
  exact found

theorem Consistent.contains_channelEnds {ends : FileGraph → List ChannelEnd}
    (inside : ∀ graph : FileGraph, graph.Built → ∀ found ∈ ends graph, found.node < graph.arena.size)
    {event : String} (member : (event, node) ∈ program.channelEnds ends) :
    program.contains node := by
  obtain ⟨graph, found, held⟩ := mem_channelEnds.mp member
  exact contains_iff.mpr ⟨graph, found, inside graph (consistent.built_graph found) _ held⟩

theorem Consistent.contains_allLinks (member : link ∈ program.allLinks) :
    program.contains link.source ∧ program.contains link.target := by
  rcases mem_allLinks.mp member with ⟨file, graph, found, registered⟩ | channel
  · exact consistent.contains_registrationLinks found registered
  · obtain ⟨event, -, -, emitted, heard⟩ := mem_channelLinks.mp channel
    exact ⟨consistent.contains_channelEnds (fun graph built _ => built.lt_of_mem_emits) emitted,
      consistent.contains_channelEnds (fun graph built _ => built.lt_of_mem_listeners) heard⟩

theorem Consistent.contains_allMarkupEdges {edge : MarkupEdge}
    (member : edge ∈ program.allMarkupEdges) : program.contains edge.target := by
  obtain ⟨-, graph, -, found, -, isTarget⟩ := mem_allMarkupEdges.mp member
  have built := consistent.built_graph found
  exact contains_iff.mpr ⟨graph, found, built.lt_of_mem_bindingTargets isTarget⟩

end

theorem Linked.contains_of_hasFlow (linked : program.Linked) {next : GlobalNode} {kind : DataKind}
    (flow : program.HasFlow node next kind) : program.contains node ∧ program.contains next := by
  rcases flow with ⟨graph, found, same, edge⟩ | ⟨channel, member⟩
  · obtain ⟨first, second⟩ := (linked.built_graph found).inRange.edges _ edge
    refine ⟨contains_iff.mpr ⟨graph, found, first⟩, contains_iff.mpr ⟨graph, ?_, second⟩⟩
    rw [graph?, same]
    exact found
  · rw [linked.current] at member
    exact linked.toConsistent.contains_allLinks member

theorem contains_markupEdges {history : List Operation}
    (built : ∀ graph, .merge graph ∈ history → graph.Built) (ends : EndsLinked history) :
    ∀ edge ∈ (ofHistory history).markupEdges, (ofHistory history).contains edge.target := by
  have both := ofHistory_induction built ends
    (motive := fun program => program.Linked ∧
      ∀ edge ∈ program.markupEdges, program.contains edge.target)
    (fun program consistent =>
      ⟨consistent.link, fun edge member => consistent.contains_allMarkupEdges member⟩)
    (fun program operation quiet known => by
      refine ⟨known.1.perform quiet, ?_⟩
      cases operation with
      | merge graph => cases quiet
      | attach file bindings => exact known.2
      | link => exact fun edge member => known.1.toConsistent.contains_allMarkupEdges member)
  exact both.2

structure Placed (program : Program) : Prop extends Consistent program where
  attached : ∀ file ∈ program.markup, file < program.files.size

theorem placed_empty : Placed {} where
  built := by simp
  names := by simp
  attached := by simp

theorem merge_lt (program : Program) (graph : FileGraph) :
    (program.merge graph).2 < (program.merge graph).1.files.size ∧
      program.files.size ≤ (program.merge graph).1.files.size := by
  unfold merge
  split
  case h_1 id known =>
    have inside := (Array.findIdx?_eq_some_iff_getElem.mp known).1
    simp [inside]
  case h_2 => simp

theorem markup_merge (program : Program) (graph : FileGraph) :
    (program.merge graph).1.markup = program.markup := by
  unfold merge
  split <;> rfl

theorem Placed.merge (placed : program.Placed) (built : graph.Built) :
    (program.merge graph).1.Placed where
  toConsistent := placed.toConsistent.merge built
  attached file member := by
    rw [markup_merge] at member
    exact Nat.lt_of_lt_of_le (placed.attached file member) (merge_lt program graph).2

theorem Placed.attach (placed : program.Placed) (known : file < program.files.size)
    (bindings : List Markup.Binding) : (program.attach file bindings).Placed where
  built := placed.built
  names := placed.names
  attached other member := by
    rcases Std.TreeMap.mem_insert.mp member with same | old
    · exact Std.LawfulEqOrd.eq_of_compare same ▸ known
    · exact placed.attached other old

structure InRange (program : Program) : Prop where
  files : ∀ (file : Nat) graph, program.files[file]? = some graph → graph.InRange
  fileIds : ∀ name file, program.fileId? name = some file → file < program.files.size
  attached : ∀ file ∈ program.markup, file < program.files.size
  links : ∀ link ∈ program.links, program.contains link.source ∧ program.contains link.target
  markup : ∀ edge ∈ program.markupEdges, program.contains edge.target
  successors : ∀ node next kind, (next, kind) ∈ program.successors node →
    program.contains node ∧ program.contains next
  predecessors : ∀ node next kind, (node, kind) ∈ program.predecessors next →
    program.contains node ∧ program.contains next

theorem Placed.inRange (placed : program.Placed) : program.link.InRange := by
  have linked := placed.toConsistent.link
  exact
    { files := fun file graph found =>
        (linked.built graph (by simpa using Array.mem_of_getElem? found)).inRange
      fileIds := fun name file found => (Array.findIdx?_eq_some_iff_getElem.mp found).1
      attached := placed.attached
      links := fun edge member => linked.toConsistent.contains_allLinks (linked.current ▸ member)
      markup := fun edge member => placed.toConsistent.contains_allMarkupEdges member
      successors := fun node next kind flow =>
        linked.contains_of_hasFlow (linked.mem_successors.mp flow)
      predecessors := fun node next kind flow =>
        linked.contains_of_hasFlow (linked.mem_predecessors.mp flow) }

end Program

end Seepage

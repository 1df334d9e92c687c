import Mathlib.Data.List.Nodup
import Seepage.Proofs.Program.Links

set_option autoImplicit false

namespace Seepage

theorem EdgeKind.rank_injective : ∀ a b : EdgeKind, a.rank = b.rank → a = b := by
  rintro (label | kind) (label' | kind') same
  · cases label <;> cases label' <;> first | rfl | cases same
  · cases label <;> cases kind' <;> cases same
  · cases kind <;> cases label' <;> cases same
  · cases kind <;> cases kind' <;> first | rfl | cases same

theorem linear_edge : LinearTest Edge.le where
  trans a b c := by
    simp only [Edge.le, Bool.or_eq_true, Bool.and_eq_true, decide_eq_true_eq, beq_iff_eq]
    omega
  total a b := by
    simp only [Edge.le, Bool.or_eq_true, Bool.and_eq_true, decide_eq_true_eq, beq_iff_eq]
    omega
  antisymm a b first second := by
    simp only [Edge.le, Bool.or_eq_true, Bool.and_eq_true, decide_eq_true_eq, beq_iff_eq]
      at first second
    obtain ⟨source, target, kind⟩ := a
    obtain ⟨source', target', kind'⟩ := b
    simp only at first second
    obtain rfl : source = source' := by omega
    obtain rfl : target = target' := by omega
    rw [EdgeKind.rank_injective kind kind' (by omega)]

namespace ControlGraph

structure Mirrored (graph : ControlGraph) : Prop where
  distinct : graph.edges.Nodup
  leaving : ∀ vertex edge,
    edge ∈ graph.successors vertex ↔ edge.source = vertex ∧ edge ∈ graph.predecessors edge.target
  entering : ∀ vertex edge,
    edge ∈ graph.predecessors vertex ↔ edge.target = vertex ∧ edge ∈ graph.successors edge.source
  once : ∀ vertex, (graph.successors vertex).Nodup ∧ (graph.predecessors vertex).Nodup

theorem mirrored_of_nodup {graph : ControlGraph} (distinct : graph.edges.Nodup) :
    graph.Mirrored where
  distinct
  leaving vertex edge := by simp [successors, predecessors, and_comm]
  entering vertex edge := by simp [successors, predecessors, and_comm]
  once vertex := ⟨distinct.filter _, distinct.filter _⟩

end ControlGraph

namespace FileGraph

structure Mirrored (graph : FileGraph) : Prop where
  ordered : graph.edges.Pairwise fun edge later => edge.le later ∧ edge ≠ later
  leaving : ∀ node, (graph.successors node).map (fun (next, kind) => Edge.data node next kind) =
    graph.edges.filter fun edge => edge.source = node ∧ edge.dataKind?.isSome
  entering : ∀ node, (graph.predecessors node).map (fun (last, kind) => Edge.data last node kind) =
    graph.edges.filter fun edge => edge.target = node ∧ edge.dataKind?.isSome
  once : ∀ node, (graph.successors node).Nodup ∧ (graph.predecessors node).Nodup
  joined : ∀ node next kind, ((next, kind) ∈ graph.successors node ↔
      Edge.data node next kind ∈ graph.edges) ∧
    ((node, kind) ∈ graph.predecessors next ↔ Edge.data node next kind ∈ graph.edges)

theorem map_neighbours {key other : Edge → Nat} {make : Nat → Nat → DataKind → Edge}
    (whole : ∀ edge kind, edge.dataKind? = some kind → make (key edge) (other edge) kind = edge)
    (edges : List Edge) (node : Nat) :
    (((edges.filterMap fun edge => edge.dataKind?.map fun kind => (key edge, other edge, kind)).filter
        (·.1 = node)).map (·.2)).map (fun (next, kind) => make node next kind) =
      edges.filter fun edge => key edge = node ∧ edge.dataKind?.isSome := by
  induction edges with
  | nil => rfl
  | cons edge rest ih =>
    cases isData : edge.dataKind? with
    | none => simpa [isData] using ih
    | some kind =>
      by_cases same : key edge = node
      · have first := whole edge kind isData
        rw [same] at first
        simpa [isData, same, first] using ih
      · simpa [isData, same] using ih

theorem Built.mirrored {graph : FileGraph} (built : graph.Built) : graph.Mirrored := by
  obtain ⟨-, options, made⟩ := built.eq_assemble
  have distinct : graph.edges.Nodup := by
    rw [made]
    exact nodup_sortDistinct linear_edge _
  have sorted : graph.edges.Pairwise (Edge.le · · = true) := by
    rw [made]
    exact pairwise_sortDistinct linear_edge _
  have leaving (node : Nat) :
      (graph.successors node).map (fun (next, kind) => Edge.data node next kind) =
        graph.edges.filter fun edge => edge.source = node ∧ edge.dataKind?.isSome := by
    have kept : graph.outgoing = .ofList (forward graph.edges) := by rw [made]; rfl
    rw [successors, kept, Adjacency.values_ofList]
    exact map_neighbours (fun edge kind => eq_data) graph.edges node
  have entering (node : Nat) :
      (graph.predecessors node).map (fun (last, kind) => Edge.data last node kind) =
        graph.edges.filter fun edge => edge.target = node ∧ edge.dataKind?.isSome := by
    have kept : graph.incoming = .ofList (backward graph.edges) := by rw [made]; rfl
    rw [predecessors, kept, Adjacency.values_ofList]
    exact @map_neighbours Edge.target Edge.source (fun node last kind => .data last node kind)
      (fun edge kind => eq_data) graph.edges node
  refine ⟨sorted.and distinct, leaving, entering, fun node => ⟨?_, ?_⟩, fun node next kind =>
    ⟨mem_successors built, mem_predecessors built⟩⟩
  · exact .of_map _ (leaving node ▸ distinct.filter _)
  · exact .of_map _ (entering node ▸ distinct.filter _)

theorem Built.mirrored_control {graph : FileGraph} (built : graph.Built) :
    ∀ control ∈ graph.control.graphs, control.Mirrored := by
  obtain ⟨-, options, made⟩ := built.eq_assemble
  have kept : graph.control = .ofArena graph.arena := by rw [made]; rfl
  intro control member
  rw [kept] at member
  obtain ⟨owner, -, rfl⟩ := List.mem_map.mp member
  exact ControlGraph.mirrored_of_nodup (nodup_eraseDups _)

end FileGraph

namespace Program

theorem adjacency_mirrors {history : List Operation}
    (built : ∀ graph, .merge graph ∈ history → graph.Built) (ends : EndsLinked history) :
    (∀ graph, .merge graph ∈ history →
      graph.Mirrored ∧ ∀ control ∈ graph.control.graphs, control.Mirrored) ∧
    ∀ node next kind,
      ((next, kind) ∈ (ofHistory history).successors node ↔
        (ofHistory history).HasFlow node next kind) ∧
      ((node, kind) ∈ (ofHistory history).predecessors next ↔
        (ofHistory history).HasFlow node next kind) := by
  have linked := linked_ofHistory built ends
  refine ⟨fun graph merged => ?_, fun node next kind => ?_⟩
  · exact ⟨(built graph merged).mirrored, (built graph merged).mirrored_control⟩
  · exact ⟨linked.mem_successors, linked.mem_predecessors⟩

-- `bus.emit('news', source());`
def sendingPage : Script.File where
  __ := Script.File.sample [
    .expr (.call (.member (.ident "bus") (.named "emit") false {}) [.literal (.string "news") {},
      .call (.ident "source") [] false {}] false {}) {}]
  name := "sender.js"

-- `bus.on('news', function (text) { sink(text); });`
def hearingPage : Script.File where
  __ := Script.File.sample [
    .expr (.call (.member (.ident "bus") (.named "on") false {}) [.literal (.string "news") {},
      .function none (.mk [.ident "text"] (.block (.mk [.expr (.call (.ident "sink") [.ident "text"]
      false {}) {}] {})) {})] false {}) {}]
  name := "receiver.js"

def sendingGraph : FileGraph :=
  .assemble ((Arena.ofFile sendingPage).toOption.getD default) {}

def hearingGraph : FileGraph :=
  .assemble ((Arena.ofFile hearingPage).toOption.getD default) {}

def relay : List Operation :=
  [.merge sendingGraph, .merge hearingGraph, .link]

theorem built_relay : ∀ graph, .merge graph ∈ relay → graph.Built := by
  intro graph member
  have known : graph = sendingGraph ∨ graph = hearingGraph := by simpa [relay] using member
  rcases known with rfl | rfl
  · exact FileGraph.built_assemble (rfl : Arena.ofFile sendingPage = _) {}
  · exact FileGraph.built_assemble (rfl : Arena.ofFile hearingPage = _) {}

theorem endsLinked_relay : EndsLinked relay :=
  ⟨[.merge sendingGraph, .merge hearingGraph], [], rfl, by simp⟩

theorem files_relay : (ofHistory relay).files = #[sendingGraph, hearingGraph] := by
  have differ : ¬sendingGraph.file = hearingGraph.file := by decide +kernel
  simp [relay, ofHistory, perform, merge, fileId?, link, differ]

theorem graph?_relay (node : Nat) : (ofHistory relay).graph? ⟨0, node⟩ = some sendingGraph ∧
    (ofHistory relay).graph? ⟨1, node⟩ = some hearingGraph := by
  simp [graph?, files_relay]

theorem link_relay :
    ⟨⟨0, 8⟩, ⟨1, 11⟩, .callArg, some "news"⟩ ∈ (ofHistory relay).links := by
  rw [(linked_ofHistory built_relay endsLinked_relay).current, mem_allLinks]
  refine .inr (mem_channelLinks.mpr ⟨"news", rfl, rfl, ?_, ?_⟩) <;>
    rw [mem_channelEnds]
  · exact ⟨sendingGraph, (graph?_relay 8).1, by decide +kernel⟩
  · exact ⟨hearingGraph, (graph?_relay 11).2, by decide +kernel⟩

theorem use_relay : Edge.data 11 16 .defUse ∈ hearingGraph.edges := by
  simp only [hearingGraph, FileGraph.assemble, FileGraph.ofEdges, DataFlow.ofArena,
    DataFlow.ofSolved, mem_sortEdges, List.mem_append, List.flatMap_map]
  exact .inl (.inl (.inr (by decide +kernel)))

theorem adjacency_mirrors_relay :
    (∀ graph, .merge graph ∈ relay → graph.Built) ∧ EndsLinked relay ∧
      (⟨⟨0, 8⟩, .callArg⟩ ∈ (ofHistory relay).predecessors ⟨1, 11⟩) ∧
      (⟨⟨1, 11⟩, .defUse⟩ ∈ (ofHistory relay).predecessors ⟨1, 16⟩) := by
  have mirrors := (adjacency_mirrors built_relay endsLinked_relay).2
  refine ⟨built_relay, endsLinked_relay, (mirrors _ _ _).2.mpr ?_,
    (mirrors _ _ _).2.mpr ?_⟩
  · exact .inr ⟨_, link_relay⟩
  · exact .inl ⟨_, (graph?_relay 11).2, rfl, use_relay⟩

end Program

end Seepage

import Seepage.Proofs.Flow.Links
import Seepage.Proofs.Flow.Statements

set_option autoImplicit false

namespace Seepage

open List ControlGraph

variable {id vertex : Nat} {graph : ControlGraph} {tree child : Syntree}

theorem ControlGraph.owner_ofTree (tree : Syntree) : (ofTree tree).owner = tree.label.id := rfl

namespace Arena.WellNumbered

variable {arena : Arena} (well : arena.WellNumbered)

include well

theorem id_subtree (known : id < arena.size) : (arena.subtree id).label.id = id := by
  obtain ⟨tree, inside, rfl⟩ := well.exists_subtree known
  rw [well.subtree_eq inside]

theorem subtree_mem (known : id < arena.size) : arena.subtree id ∈ arena.tree.subtrees := by
  obtain ⟨tree, inside, rfl⟩ := well.exists_subtree known
  rw [well.subtree_eq inside]
  exact inside

end Arena.WellNumbered

def backTarget (arena : Arena) (loop : Nat) : Nat :=
  match (arena.subtree loop).children with
  | body :: _ => (entryVertex? body).getD loop
  | [] => loop

namespace ControlFlow

variable {arena : Arena}

def owners (arena : Arena) : List Nat :=
  arena.ids.filter fun id => (arena.kind id).isOwner

theorem mem_owners {owner : Nat} :
    owner ∈ owners arena ↔ owner < arena.size ∧ (arena.kind owner).isOwner := by
  simp [owners, Arena.ids]

theorem mem_graphs : graph ∈ (ofArena arena).graphs ↔
      ∃ owner ∈ owners arena, ofTree (arena.subtree owner) = graph :=
  mem_map

theorem nodup_graph (made : graph ∈ (ofArena arena).graphs) : graph.vertices.Nodup := by
  obtain ⟨owner, -, rfl⟩ := mem_graphs.mp made
  exact nodup_vertices _

def isVertex (arena : Arena) (id : Nat) : Bool :=
  let vertexLists : Std.TreeMap Nat (List Nat) :=
    (ofArena arena).graphs.foldl (fun map graph => map.insert graph.owner graph.vertices) ∅
  (vertexLists.getD (arena.owner id) []).contains id

variable (well : arena.WellNumbered)

include well

theorem isVertex_iff : isVertex arena id ↔
    ∃ graph ∈ (ofArena arena).graphs, graph.owner = arena.owner id ∧ id ∈ graph.vertices := by
  have folded : ∀ (keys : List Nat) (map : Std.TreeMap Nat (List Nat)),
      (∀ key ∈ keys, key < arena.size) →
      (keys.map fun owner => ofTree (arena.subtree owner)).foldl
          (fun map graph => map.insert graph.owner graph.vertices) map =
        keys.foldl (fun map key =>
          map.insert key (ofTree (arena.subtree key)).vertices) map := by
    intro keys
    induction keys with
    | nil => intro map _; rfl
    | cons key rest ih =>
      intro map known
      obtain ⟨first, others⟩ := forall_mem_cons.mp known
      rw [map_cons, foldl_cons, foldl_cons, ih _ others, owner_ofTree,
        well.id_subtree first]
  have graphs : (ofArena arena).graphs =
    (owners arena).map fun owner => ofTree (arena.subtree owner) := rfl
  rw [isVertex, graphs, folded _ _ fun key member => (mem_owners.mp member).1]
  simp only [getD_foldl_insert (fun key => (ofTree (arena.subtree key)).vertices)]
  constructor
  · intro member
    split at member
    case isTrue owns =>
      refine ⟨_, mem_map.mpr ⟨_, owns, rfl⟩, ?_, by simpa using member⟩
      rw [owner_ofTree, well.id_subtree (mem_owners.mp owns).1]
    case isFalse => simp at member
  · rintro ⟨graph, made, owned, member⟩
    obtain ⟨owner, owns, rfl⟩ := mem_map.mp made
    rw [owner_ofTree, well.id_subtree (mem_owners.mp owns).1] at owned
    rw [← owned, if_pos owns]
    simpa using member

theorem statementOf_eq (known : id < arena.size) : (ofArena arena).statementOf id =
      statementAlong arena (isVertex arena) (id :: arena.ancestors id) := by
  obtain ⟨tree, inside, rfl⟩ := well.exists_subtree known
  have stored : arena.subtrees[tree.label.id]? = some tree := by
    have found := well.subtree_eq inside
    rw [Arena.subtree, Array.getD_eq_getD_getElem?, Array.getElem?_eq_getElem known] at found
    rw [Array.getElem?_eq_getElem known]
    exact congrArg some found
  rw [well.ancestors_eq inside]
  simp only [statementOf, ofArena, Arena.nodes, Array.getD_eq_getD_getElem?,
    getElem?_toArray, getElem?_map, Array.getElem?_toList, stored, Option.map_some,
    Option.getD_some]
  rfl

theorem statementOf_vertex (made : graph ∈ (ofArena arena).graphs)
    (member : vertex ∈ graph.vertices) (owned : arena.Owned graph.owner vertex) :
    (ofArena arena).statementOf vertex = some vertex := by
  have isVertex : isVertex arena vertex :=
    (isVertex_iff well).mpr ⟨graph, made, owned.owned.symm, member⟩
  rw [statementOf_eq well owned.known]
  exact if_pos isVertex

theorem statementOf_child (inside : tree ∈ arena.tree.subtrees) (below : child ∈ tree.children)
    (plain : tree.label.kind.isOwner = false) (inner : ¬isVertex arena child.label.id) :
    (ofArena arena).statementOf child.label.id = (ofArena arena).statementOf tree.label.id := by
  have deeper := Rose.child_inside below inside
  rw [statementOf_eq well (well.id_lt deeper), statementOf_eq well (well.id_lt inside),
    well.ancestors_eq deeper, well.ancestors_eq inside, well.ancestors_child inside below,
    statementAlong, if_neg inner]
  simp only [well.kind_eq inside, plain]
  rfl

theorem statementOf_owned (inside : tree ∈ arena.tree.subtrees) (below : child ∈ tree.children)
    (owns : tree.label.kind.isOwner) (inner : ¬isVertex arena child.label.id) :
    (ofArena arena).statementOf child.label.id = some (arena.entryOf tree.label.id) := by
  have deeper := Rose.child_inside below inside
  rw [statementOf_eq well (well.id_lt deeper), well.ancestors_eq deeper,
    well.ancestors_child inside below, statementAlong, if_neg inner]
  simp only [well.kind_eq inside, owns, if_true]

theorem exists_tree (made : graph ∈ (ofArena arena).graphs) :
    ∃ tree ∈ arena.tree.subtrees, tree.label.kind.isOwner ∧ ofTree tree = graph := by
  obtain ⟨owner, owns, rfl⟩ := mem_graphs.mp made
  obtain ⟨known, isOwner⟩ := mem_owners.mp owns
  obtain ⟨tree, inside, rfl⟩ := well.exists_subtree known
  rw [well.kind_eq inside] at isOwner
  exact ⟨tree, inside, isOwner, by rw [well.subtree_eq inside]⟩

theorem owner_lt (made : graph ∈ (ofArena arena).graphs) : graph.owner < arena.size := by
  obtain ⟨tree, inside, -, rfl⟩ := exists_tree well made
  exact well.id_lt inside

variable (laid : arena.LaidOut)

include laid

theorem tied_graph (made : graph ∈ (ofArena arena).graphs) :
    (∀ vertex ∈ graph.vertices, arena.Owned graph.owner vertex) ∧
      ∀ edge ∈ graph.edges, edge.source ∈ graph.vertices ∧ arena.Owned graph.owner edge.target := by
  obtain ⟨tree, inside, isOwner, rfl⟩ := exists_tree well made
  exact tied_ofTree well laid inside isOwner

theorem graph_unique {other : ControlGraph} (made : graph ∈ (ofArena arena).graphs)
    (made' : other ∈ (ofArena arena).graphs) (member : vertex ∈ graph.vertices)
    (member' : vertex ∈ other.vertices) : graph = other := by
  have first := ((tied_graph well laid made).1 vertex member).owned
  have second := ((tied_graph well laid made').1 vertex member').owned
  obtain ⟨owner, owns, rfl⟩ := mem_graphs.mp made
  obtain ⟨owner', owns', rfl⟩ := mem_graphs.mp made'
  rw [owner_ofTree, well.id_subtree (mem_owners.mp owns).1] at first
  rw [owner_ofTree, well.id_subtree (mem_owners.mp owns').1] at second
  rw [← first, ← second]

theorem eventsAt_ofArena (resolution : Resolution)
    (made : graph ∈ (ofArena arena).graphs) (member : vertex ∈ graph.vertices) :
    (VariableUse.ofArena arena resolution (ofArena arena)).eventsAt vertex =
      Event.ofVertex arena resolution (ofArena arena) graph.owner vertex := by
  let events := Event.ofVertex arena resolution (ofArena arena) graph.owner vertex
  have folded : ∀ (graphs : List ControlGraph) (map : Std.TreeMap Nat (List Event)),
      (∀ other ∈ graphs, vertex ∈ other.vertices → other = graph) →
      graph ∈ graphs ∨ map.getD vertex [] = events →
      (graphs.foldl (fun events graph => graph.vertices.foldl (fun events vertex => events.insert
          vertex (Event.ofVertex arena resolution (ofArena arena) graph.owner vertex)) events)
          map).getD vertex [] = events := by
    intro graphs
    induction graphs with
    | nil =>
      rintro map - (absent | stored)
      · cases absent
      · exact stored
    | cons other rest ih =>
      intro map unique found
      obtain ⟨here, there⟩ := forall_mem_cons.mp unique
      apply ih _ there
      rw [getD_foldl_insert (Event.ofVertex arena resolution (ofArena arena) other.owner)]
      by_cases inside : vertex ∈ other.vertices
      · rw [if_pos inside, here inside]
        exact .inr rfl
      · rw [if_neg inside]
        rcases found with listed | stored
        · rcases mem_cons.mp listed with rfl | later
          · exact absurd member inside
          · exact .inl later
        · exact .inr stored
  refine folded (ofArena arena).graphs ∅ (fun other made' member' => ?_) (.inl made)
  exact graph_unique well laid made' made member' member

end ControlFlow

end Seepage

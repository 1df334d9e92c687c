import Mathlib.Data.Set.Finite.List
import Mathlib.Logic.Relation
import Mathlib.Order.Preorder.Finite
import Seepage.Proofs.Flow.Edges
import Seepage.Proofs.Flow.Locality
import Seepage.Proofs.Flow.Vertices

set_option autoImplicit false

namespace Seepage

open List ControlGraph
open Rose hiding node

def Arena.Turns (arena : Arena) (id : Nat) : Prop :=
  ∃ loop < arena.size, (arena.node loop).Turns id

section

variable {arena : Arena} (well : arena.WellNumbered) {tree : Syntree}

theorem Syntree.AreNumbered.row {ancestors : List Nat} {start : Nat} {trees : List Syntree}
    (numbered : Syntree.AreNumbered ancestors start trees) :
    Row (·.label.id) (fun tree => tree.label.id + tree.size) start trees
      (start + sizeAll trees) := by
  induction trees generalizing start with
  | nil => exact Nat.le_refl _
  | cons tree rest ih =>
    obtain ⟨first, others⟩ := numbered
    obtain rfl := first.label_id
    rw [sizeAll, ← Nat.add_assoc]
    exact ⟨Nat.le_refl _, Nat.le_add_right .., ih others⟩

include well

theorem Arena.WellNumbered.row (inside : tree ∈ arena.tree.subtrees) :
    Row (·.label.id) (fun tree => tree.label.id + tree.size) (tree.label.id + 1) tree.children
      (tree.label.id + tree.size) := by
  have numbered := well.numbered.subtree inside
  obtain ⟨node, children⟩ := tree
  rw [Rose.size, ← Nat.add_assoc]
  exact Syntree.AreNumbered.row numbered.2.2.2

theorem Arena.WellNumbered.lt_of_holds (inside : tree ∈ arena.tree.subtrees) {id : Nat}
    (holds : tree.Holds id) : id < tree.label.id + tree.size := by
  obtain ⟨part, member, rfl⟩ := holds
  have listed : part.label.id ∈ tree.subtrees.map (·.label.id) := mem_map_of_mem member
  rw [Syntree.ids_subtrees (well.numbered.subtree inside), mem_range'_1] at listed
  exact listed.2

end

def onward {arena : Arena} (well : arena.WellNumbered) (exit : Nat) : Interior exit where
  placed _ := True
  left point id := id < point ∧ id ≠ exit
  aimed point id := point ≤ id ∨ id = exit ∨ arena.Turns id
  drawn edge := edge.source ≠ exit ∧ (edge.source < edge.target ∨ edge.target = exit ∨
    arena.Turns edge.source ∨ arena.Turns edge.target)
  leads _ _ source target :=
    ⟨source.2, target.imp (Nat.lt_of_lt_of_le source.1) (.imp_right .inr)⟩
  later order source := ⟨Nat.lt_of_lt_of_le source.1 order, source.2⟩
  earlier order target := target.imp_left (Nat.le_trans order)
  within tree := tree ∈ arena.tree.subtrees ∧ exit < tree.label.id
  apart _ := False
  held _ := True
  first tree := tree.label.id
  last tree := tree.label.id + tree.size
  step := 1
  ordered inside := well.row inside.1
  tries := tries_nothing
  root inside := ⟨trivial, fun _ => ⟨⟨Nat.lt_succ_self _, inside.2.ne'⟩, .inl (Nat.le_refl _)⟩⟩
  child inside _ _ child below := ⟨mem_subtrees_of_child below inside.1,
    inside.2.trans (well.lt_of_below inside.1 below ⟨child, child.self_mem_subtrees, rfl⟩)⟩
  parts {node children} _ _ _ := fun ⟨inside, behind⟩ _ id member => by
    have named : node.children = children.map (·.label.id) :=
      well.linked inside _ (self_mem_subtrees _)
    rw [named] at member
    obtain ⟨child, below, rfl⟩ := mem_map.mp member
    have later := well.lt_of_below inside below ⟨child, child.self_mem_subtrees, rfl⟩
    have early := well.lt_of_holds inside ⟨child, child_mem_subtrees below, rfl⟩
    exact ⟨trivial, fun _ => ⟨⟨early, (behind.trans later).ne'⟩, .inl later.le⟩⟩
  guarded := fun ⟨inside, behind⟩ _ _ child below part inner => by
    have deeper := child_mem_subtrees inner
    exact ⟨subtrees_trans deeper (mem_subtrees_of_child below inside),
      behind.trans (well.lt_of_below inside below ⟨part, deeper, rfl⟩)⟩
  turning inside _ turns _ _ :=
    .inr (.inr ⟨_, well.id_lt inside.1, by rwa [well.node_eq inside.1]⟩)
  again {node stmt rest} := fun ⟨inside, _⟩ isLoop _ _ _ _ _ => by
    cases found : entryVertex? stmt with
    | none =>
      refine .inr (.inr ⟨_, well.id_lt inside, ?_⟩)
      rw [well.node_eq inside]
      simp [Node.Turns, Rose.label, isLoop]
    | some id =>
      obtain ⟨inner, deeper, rfl⟩ := exists_of_entryVertex? (fun known _ _ under =>
        mem_subtrees_of_child under known) stmt.self_mem_subtrees found
      exact .inl (well.lt_of_below inside mem_cons_self ⟨inner, deeper, rfl⟩)
  raises {node block target rest _ _} := fun ⟨inside, behind⟩ _ _ _ _ _ vertex member _ _ => by
    obtain ⟨-, -, order, -⟩ := well.row inside
    have below := mem_subtrees_of_child mem_cons_self inside
    have holds := holds_of_mem_flow (well.linked below) member
    have later := well.lt_of_below inside mem_cons_self holds
    exact ⟨(behind.trans later).ne', .inl ((well.lt_of_holds below holds).trans_le order)⟩
  rethrows {node block handler finalizer} := fun ⟨inside, behind⟩ _ _ _ vertex member _ _ => by
    obtain ⟨-, -, -, -, order, -⟩ := well.row inside
    have listed : handler ∈ [block, handler, finalizer] := by simp
    have below := mem_subtrees_of_child listed inside
    have holds := holds_of_mem_flowHandler (well.linked below) member
    have later := well.lt_of_below inside listed holds
    exact ⟨(behind.trans later).ne', .inl ((well.lt_of_holds below holds).trans_le order)⟩

namespace ControlGraph

def Reaches (graph : ControlGraph) : Nat → Nat → Prop :=
  Relation.ReflTransGen (Joins graph.edges)

section

variable {graph : ControlGraph} {vertex : Nat}

theorem exists_closed (graph : ControlGraph) (vertex : Nat) : ∃ head, graph.Reaches head vertex ∧
    ∀ above, graph.Reaches above head → graph.Reaches head above := by
  have finite : {head | graph.Reaches head vertex}.Finite := by
    refine (vertex :: graph.edges.map (·.source)).finite_toSet.subset fun head reaches => ?_
    rcases reaches.cases_head with rfl | ⟨next, ⟨label, drawn⟩, -⟩
    · exact mem_cons_self
    · exact mem_cons_of_mem _ (mem_map_of_mem drawn)
  obtain ⟨head, reaches, least⟩ :=
    finite.exists_minimalFor (fun head => {above | graph.Reaches above head}) _ ⟨vertex, .refl⟩
  exact ⟨head, reaches, fun above before => least (before.trans reaches)
    (fun other known => known.trans before) .refl⟩

theorem eq_of_reaches (alone : ∀ edge ∈ graph.edges, edge.target = vertex → edge.source = vertex)
    {head : Nat} (reaches : graph.Reaches head vertex) : head = vertex := by
  induction reaches using Relation.ReflTransGen.head_induction_on with
  | refl => rfl
  | head step _ ih =>
    obtain ⟨label, drawn⟩ := step
    exact alone _ drawn ih

theorem exists_least (graph : ControlGraph) (vertex : Nat) : ∃ head, graph.Reaches head vertex ∧
    ∀ above, graph.Reaches above head → graph.Reaches head above ∧ head ≤ above := by
  classical
  obtain ⟨top, reaches, closed⟩ := exists_closed graph vertex
  have some : ∃ head, graph.Reaches head top := ⟨top, .refl⟩
  have first := Nat.find_spec some
  exact ⟨_, first.trans reaches, fun above before => ⟨first.trans (closed above (before.trans first)),
    Nat.find_min' some (before.trans first)⟩⟩

end

end ControlGraph

namespace ControlFlow

variable {file : Script.File} {arena : Arena}

theorem onward_graph (well : arena.WellNumbered) (laid : arena.LaidOut) {graph : ControlGraph}
    (made : graph ∈ (ofArena arena).graphs) :
    ∀ edge ∈ graph.edges, (onward well graph.exit).drawn edge := by
  obtain ⟨tree, inside, isOwner, rfl⟩ := exists_tree well made
  obtain ⟨first, last, rest, parts, -, -⟩ := laid.exists_ends inside isOwner
  have numbered := well.linked inside tree tree.self_mem_subtrees
  have isExit : (ofTree tree).exit = last.label.id := by
    simp [ofTree, numbered, parts]
  obtain ⟨-, -, order, -, row⟩ := parts ▸ well.row inside
  have below : ∀ child ∈ tree.children.drop 2, (onward well last.label.id).within child := by
    intro child member
    have later := (row.mem (by rwa [parts] at member)).1
    exact ⟨child_inside (mem_of_mem_drop member) inside,
      Nat.lt_of_lt_of_le (Nat.lt_add_of_pos_right last.size_pos) later⟩
  have start : first.label.id < last.label.id :=
    Nat.lt_of_lt_of_le (Nat.lt_add_of_pos_right first.size_pos) order
  have every : ∀ stmt, Flows (onward well last.label.id) 0 stmt :=
    flows fun _ special => False.elim special
  have tied := tied_body every below (by rw [parts]; exact row) (.inr (.inl rfl))
    (@Exits.tied_singleton _ _ .fallthrough ⟨Nat.lt_add_right _ start, start.ne⟩) fun _ _ => trivial
  rw [isExit]
  intro edge member
  rcases (mem_edges_ofTree parts numbered).mp member with inner | leaves
  · exact tied.emitted.edges edge inner
  · exact @drawn_connect ((onward well _).at _) _ _ tied.exits (.inr (.inl rfl)) edge leaves

theorem dead_code_has_head (read : Arena.ofFile file = .ok arena) {graph : ControlGraph}
    (made : graph ∈ (ofArena arena).graphs) :
    (∀ vertex ∈ graph.vertices, vertex ≠ graph.exit → ¬graph.Reaches graph.entry vertex →
      ∃ head, graph.Reaches head vertex ∧ (head ∈ (ofArena arena).unreachable ∨
        (graph.predecessors head = [] ∧
          ((arena.kind head).isFunction ∨ arena.kind head = .empty)) ∨
        (arena.Turns head ∧ Relation.TransGen (Joins graph.edges) head head ∧
          ∀ above, graph.Reaches above head → graph.Reaches head above))) ∧
    ∀ vertex ∈ graph.vertices, vertex ∈ (ofArena arena).unreachable →
      ¬graph.Reaches graph.entry vertex := by
  obtain ⟨well, laid⟩ := Arena.shaped_ofFile read
  constructor
  · intro vertex member other dead
    obtain ⟨head, reaches, least⟩ := graph.exists_least vertex
    obtain ⟨listed, inner⟩ : head ∈ graph.vertices ∧ head ≠ graph.exit := by
      rcases reaches.cases_head with rfl | ⟨next, ⟨label, drawn⟩, -⟩
      · exact ⟨member, other⟩
      · exact ⟨((tied_graph well laid made).2 _ drawn).1, (onward_graph well laid made _ drawn).1⟩
    by_cases free : graph.predecessors head = []
    · refine ⟨head, reaches, ?_⟩
      by_cases quiet : (arena.kind head).isFunction ∨ arena.kind head = .empty
      · exact .inr (.inl ⟨free, quiet⟩)
      · have away : head ≠ graph.entry := by
          rintro rfl
          exact dead reaches
        refine .inl (mem_flatMap.mpr ⟨graph, made, mem_filter.mpr ⟨listed, ?_⟩⟩)
        simpa [free, away, inner] using not_or.mp quiet
    · -- Nothing before the head leads to it, so a loop does.
      obtain ⟨⟨before, target, label⟩, into⟩ := exists_mem_of_ne_nil _ free
      obtain ⟨drawn, isTarget⟩ := mem_filter.mp into
      obtain rfl : target = head := beq_iff_eq.mp isTarget
      have step : Joins graph.edges before target := ⟨label, drawn⟩
      obtain ⟨back, order⟩ := least before (.single step)
      have turns := ((onward_graph well laid made _ drawn).2.resolve_left
        (Nat.not_lt.mpr order)).resolve_left inner
      rcases turns with turns | turns
      · exact ⟨before, .head step reaches, .inr (.inr ⟨turns, .head' step back,
          fun above known => .head step (least above (known.tail step)).1⟩)⟩
      · exact ⟨target, reaches, .inr (.inr ⟨turns, .tail' back step,
          fun above known => (least above known).1⟩)⟩
  · intro vertex member listed reaches
    obtain ⟨other, made', reported⟩ := mem_flatMap.mp listed
    obtain ⟨inner, quiet⟩ := mem_filter.mp reported
    obtain rfl := graph_unique well laid made made' member inner
    simp only [Bool.and_eq_true, bne_iff_ne, List.isEmpty_iff] at quiet
    obtain ⟨⟨⟨⟨away, -⟩, free⟩, -⟩, -⟩ := quiet
    rcases reaches.cases_tail with same | ⟨before, -, label, drawn⟩
    · exact away same
    · have into : ⟨before, vertex, label⟩ ∈ graph.predecessors vertex :=
        mem_filter.mpr ⟨drawn, beq_self_eq_true vertex⟩
      rw [free] at into
      cases into

-- A loop behind a statement that always leaves: `throw x; while (x) {}`.
def deadLoop : Script.File := .sample [
  .throwStmt (.ident "x") {},
  .whileStmt (.ident "x") (.block (.mk [] {})) {}]

theorem dead_code_has_head_deadLoop :
    ∃ arena, Arena.ofFile deadLoop = .ok arena ∧ ∃ graph ∈ (ofArena arena).graphs,
      ¬graph.Reaches graph.entry 5 ∧ (5 ∈ (ofArena arena).unreachable ∨
        graph.predecessors 5 = [] ∨ arena.Turns 5) := by
  refine ⟨_, rfl, _, List.mem_singleton_self _,
    (and_iff_left_of_imp fun dead => ?_).mpr fun reaches => ?_⟩
  · obtain ⟨head, reaches, known⟩ := (dead_code_has_head (show Arena.ofFile deadLoop = _ from rfl)
      (List.mem_singleton_self _)).1 5 (by decide +kernel) (by decide +kernel) dead
    cases eq_of_reaches (by decide +kernel) reaches
    exact known.imp_right (.imp And.left And.left)
  · cases eq_of_reaches (by decide +kernel) reaches

theorem deadLoop_not_reported :
    ∃ arena, Arena.ofFile deadLoop = .ok arena ∧ ∃ graph ∈ (ofArena arena).graphs,
      5 ∈ graph.vertices ∧ 5 ≠ graph.exit ∧ ¬graph.Reaches graph.entry 5 ∧
        ∀ head, graph.Reaches head 5 →
          head ∉ (ofArena arena).unreachable ∧ graph.predecessors head ≠ [] := by
  refine ⟨_, rfl, _, List.mem_singleton_self _, by decide +kernel, by decide +kernel,
    fun reaches => ?_, fun head reaches => ?_⟩ <;>
    cases eq_of_reaches (by decide +kernel) reaches
  decide +kernel

end ControlFlow

end Seepage

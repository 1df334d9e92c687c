import Seepage.Proofs.Flow.Standing
import Seepage.Proofs.Flow.Vertices

set_option autoImplicit false

namespace Seepage

open List ControlGraph
open Rose hiding node

variable {id position : Nat} {arena : Arena} {tree : Syntree}

section

variable {arena : Arena} (well : arena.WellNumbered) (laid : arena.LaidOut) {tree : Syntree}
  (inside : tree ∈ arena.tree.subtrees)

include well inside

include laid

theorem Arena.owner_mem_ancestors (below : tree.label.id ≠ Arena.root) :
    arena.owner tree.label.id ∈ arena.ancestors tree.label.id ∧
      (arena.kind (arena.owner tree.label.id)).isOwner := by
  have topmost : arena.tree.label.id ∈ arena.ancestors tree.label.id := by
    obtain rfl | ⟨child, member, deeper⟩ := Rose.mem_subtrees.mp inside
    · exact absurd well.id_tree below
    · exact (well.mem_ancestors_iff inside).mpr
        ⟨arena.tree, arena.tree.self_mem_subtrees, rfl, child, member, tree, deeper, rfl⟩
  have owns : (arena.kind arena.tree.label.id).isOwner := by
    rw [well.kind_eq arena.tree.self_mem_subtrees, laid.program]
    rfl
  rw [Arena.owner]
  cases found : (arena.ancestors tree.label.id).find? fun above => (arena.kind above).isOwner with
  | none => exact absurd owns (find?_eq_none.mp found _ topmost)
  | some owner =>
    have isOwner := find?_some found
    exact ⟨mem_of_find?_eq_some found, isOwner⟩

theorem Arena.owner_eq_iff (owns : tree.label.kind.isOwner) (known : id < arena.size)
    (below : id ≠ Arena.root) : arena.owner id = tree.label.id ↔
      ∃ child ∈ tree.children, child.Holds id ∧ arena.owner id = arena.owner child.label.id := by
  have owner (child : Syntree) (member : child ∈ tree.children) :
      arena.owner child.label.id = tree.label.id := by
    rw [well.owner_child inside member, if_pos owns]
  constructor
  · intro owned
    obtain ⟨part, within, rfl⟩ := well.exists_subtree known
    have above := (Arena.owner_mem_ancestors well laid within below).1
    obtain ⟨top, upper, same, child, member, holds⟩ := (well.mem_ancestors_iff within).mp above
    rw [owned] at same
    obtain rfl := well.eq_of_id upper inside same
    exact ⟨child, member, holds, owned.trans (owner child member).symm⟩
  · rintro ⟨child, member, -, owned⟩
    exact owned.trans (owner child member)

end

theorem Arena.lt_size_of_stands (stands : arena.stands id) : id < arena.size := by
  by_contra outside
  rw [Arena.stands, Arena.parent?, Arena.ancestors, Arena.node,
    Arena.subtree_of_size_le (Nat.le_of_not_lt outside)] at stands
  cases stands

theorem Arena.WellNumbered.stands_ne_root (well : arena.WellNumbered)
    (stands : arena.stands id) : id ≠ Arena.root := by
  rintro rfl
  rw [Arena.stands, Arena.parent?, ← well.id_tree, well.ancestors_eq arena.tree.self_mem_subtrees,
    well.ancestors_tree] at stands
  cases stands

def Kind.bodyAt : Kind → Nat
  | .function _ _ paramCount _ => 2 + paramCount
  | _ => 2

theorem Kind.quiet_front {kind : Kind} (owns : kind.isOwner) (front : position < kind.bodyAt) :
    (∀ outer, (kind.seat outer position).isQuiet) ∧ ∀ part, kind.stands position part = false := by
  cases kind with
  | program =>
    have marker (outer : Seat) : Kind.program.seat outer position = .marker position := if_pos front
    simp [marker, Kind.stands, Seat.isQuiet]
  | function name form paramCount exprBody =>
    by_cases early : position < 2
    · have marker (outer : Seat) :
          (Kind.function name form paramCount exprBody).seat outer position = .marker position := if_pos early
      simp [marker, Kind.stands, Seat.isQuiet]
    · have param (outer : Seat) :
          (Kind.function name form paramCount exprBody).seat outer position = .param :=
        (if_neg early).trans (if_pos front)
      simp [param, Kind.stands, Seat.isQuiet]
  | _ => cases owns

section

variable {tree : Syntree} {seat : Seat} (seated : Syntree.Seated seat tree) (linked : tree.Linked)

include linked

theorem emits_below : ∀ child ∈ tree.children, ∀ part ∈ child.subtrees,
    Syntree.Seated .statement part → Emits part.label.kind.isPlain part := by
  intro child below part within statement
  refine emits statement fun lower inside => linked lower ?_
  exact subtrees_trans inside (subtrees_trans within (child_mem_subtrees below))

include seated

theorem mem_functionBody {body : Syntree} (isFunction : tree.label.kind.isFunction)
    (found : tree.children[tree.label.kind.bodyAt]? = some body) (exit : Nat) (start : Exits)
    (id : Nat) : id ∈ (if body.label.kind = .block then flowAll exit [] body.children start
      else .simple body.label.id start).emitted.vertices ↔
        id ∈ places (tree.label.kind.stands tree.label.kind.bodyAt body.label.kind) body := by
  have place (outer : Seat) : tree.label.kind.seat outer tree.label.kind.bodyAt = .body := by
    cases kind : tree.label.kind with
    | function name form paramCount exprBody =>
      exact (if_neg (by simp only [Kind.bodyAt]; omega)).trans (if_neg (Nat.lt_irrefl _))
    | _ => rw [kind] at isFunction; cases isFunction
  have part := seated.child found
  have member := mem_of_getElem? found
  simp only [place, Kind.stands] at part ⊢
  split
  case isTrue isBlock =>
    obtain ⟨node, stmts⟩ := body
    simp only [Rose.label] at isBlock
    have inner := mem_flowAll_drop part isBlock (emits_below fun lower inside =>
      linked lower (subtrees_trans inside (child_mem_subtrees member)))
      0 (by simp) (fun _ => rfl)
    rw [drop_zero] at inner
    simp [Rose.children, Rose.label, places, isBlock, Kind.isBlock, Kind.isOwner, inner]
  case isFalse noBlock =>
    have silent : body.label.kind.isBlock = false := by
      rw [Bool.eq_false_iff]
      exact fun isBlock => noBlock (Kind.eq_block isBlock)
    have admitted := part.admits
    simp only [Seat.admits, silent, Bool.false_or] at admitted
    rw [places_still part (@Kind.hasPlaces_of_isQuiet _ .value rfl admitted), silent]
    simp [Piece.simple]

theorem mem_body (owns : tree.label.kind.isOwner) (exit : Nat) (start : Exits) (id : Nat) :
    id ∈ (body exit tree start).emitted.vertices ↔
      id ∈ placesFrom tree.label.kind 0 tree.children := by
  obtain ⟨node, children⟩ := tree
  have front (position : Nat) (bound : position < node.kind.bodyAt) :
      (∀ outer, (node.kind.seat outer position).isQuiet) ∧
        ∀ part, node.kind.stands position part = false := Kind.quiet_front owns bound
  rw [body]
  cases kind : node.kind with
  | program =>
    simp only [Rose.label, kind]
    refine mem_flowAll_drop seated kind (emits_below linked) 2 (fun position bound => ?_)
      (fun position => if_neg (by omega)) exit [] start id
    have quiet := front position (kind ▸ bound)
    rw [kind] at quiet
    exact ⟨quiet.1 seat, quiet.2⟩
  | function name form paramCount exprBody =>
    have silent (position : Nat) (bound : position < 2 + paramCount) (child : Syntree)
        (found : children[position]? = some child) :
        places ((Kind.function name form paramCount exprBody).stands (0 + position)
          child.label.kind) child = [] := by
      have quiet := front position (kind ▸ bound)
      rw [kind] at quiet
      rw [Nat.zero_add]
      exact places_silent seated kind position found (quiet.1 seat) (quiet.2 _)
    simp only [Rose.label, Rose.children, kind]
    rw [placesFrom_drop _ silent]
    have most := (Kind.counts_iff.mp seated.counts).2 (3 + paramCount) (by rw [Rose.label, kind]; rfl)
    simp only [Rose.children] at most
    cases found : children[2 + paramCount]? with
    | none =>
      rw [drop_eq_nil_of_le (List.getElem?_eq_none_iff.mp found)]
      simp [placesFrom]
    | some body =>
      obtain ⟨bound, same⟩ := List.getElem?_eq_some_iff.mp found
      have at_ : (Rose.node node children).label.kind.bodyAt = 2 + paramCount := by
        rw [Rose.label, kind]
        rfl
      have inner := mem_functionBody seated linked (by rw [Rose.label, kind]; rfl) (at_ ▸ found)
        exit start id
      rw [at_, Rose.label, kind] at inner
      rw [drop_eq_getElem_cons bound, same, drop_eq_nil_of_le (by omega)]
      simpa [placesFrom, Rose.label, Rose.children] using inner
  | _ => rw [Rose.label, kind] at owns; cases owns

end

namespace ControlFlow

section

variable {arena : Arena} (well : arena.WellNumbered) (laid : arena.LaidOut)

include well laid

theorem mem_body_iff (inside : tree ∈ arena.tree.subtrees)
    (owns : tree.label.kind.isOwner) {exit : Nat} {start : Exits} :
    id ∈ (body exit tree start).emitted.vertices ↔
      arena.owner id = tree.label.id ∧ arena.stands id := by
  obtain ⟨seat, part⟩ := laid.seated.subtree inside
  rw [mem_body part (well.linked inside) owns, well.mem_placesFrom_children inside]
  constructor
  · rintro ⟨child, member, there⟩
    obtain ⟨-, owned, stands⟩ := (well.mem_places (child_inside member inside)
      (well.owner_lt_child inside member)).mp there
    rw [well.owner_child inside member, if_pos owns] at owned
    exact ⟨owned, stands⟩
  · rintro ⟨owned, stands⟩
    obtain ⟨child, member, holds, same⟩ := (Arena.owner_eq_iff well laid inside owns
      (Arena.lt_size_of_stands stands) (well.stands_ne_root stands)).mp owned
    exact ⟨child, member, (well.mem_places (child_inside member inside)
      (well.owner_lt_child inside member)).mpr ⟨holds, same, stands⟩⟩

omit laid in
theorem not_stands_front {child : Syntree} (inside : tree ∈ arena.tree.subtrees)
    (owns : tree.label.kind.isOwner) (front : position < tree.label.kind.bodyAt)
    (found : tree.children[position]? = some child) : ¬arena.stands child.label.id := by
  rw [well.stands_child inside found, (Kind.quiet_front owns front).2]
  decide

theorem ends_ofTree (inside : tree ∈ arena.tree.subtrees)
    (owns : tree.label.kind.isOwner) : (ofTree tree).entry = arena.entryOf tree.label.id ∧
      (ofTree tree).exit = arena.exitOf tree.label.id ∧
      (ofTree tree).exit ≠ (ofTree tree).entry ∧
      ¬arena.stands (ofTree tree).entry ∧
      ¬arena.stands (ofTree tree).exit := by
  obtain ⟨entry, exit, others, parts, isEntry, isExit⟩ := laid.exists_ends inside owns
  have linked : tree.label.children = tree.children.map (·.label.id) :=
    well.linked inside tree tree.self_mem_subtrees
  have first : (ofTree tree).entry = entry.label.id := by
    simp [ofTree, linked, parts]
  have second : (ofTree tree).exit = exit.label.id := by
    simp [ofTree, linked, parts]
  have front : 2 ≤ tree.label.kind.bodyAt := by
    cases tree.label.kind <;> simp [Kind.bodyAt]
  rw [first, second]
  refine ⟨?_, ?_, ?_, ?_, ?_⟩
  · simp [Arena.entryOf, Arena.child?, well.children_eq inside, parts]
  · simp [Arena.exitOf, Arena.child?, well.children_eq inside, parts]
  · intro same
    have kinds := congrArg arena.kind same
    rw [well.kind_eq (child_inside (by simp [parts]) inside),
      well.kind_eq (child_inside (by simp [parts]) inside), isEntry, isExit] at kinds
    cases kinds
  · exact not_stands_front well inside owns (Nat.lt_of_lt_of_le Nat.zero_lt_two front)
      (by rw [parts]; rfl)
  · exact not_stands_front well inside owns (Nat.lt_of_lt_of_le Nat.one_lt_two front)
      (by rw [parts]; rfl)

theorem vertices_graph {graph : ControlGraph} (made : graph ∈ (ofArena arena).graphs) :
    ∃ rest, graph.vertices = arena.entryOf graph.owner :: arena.exitOf graph.owner :: rest ∧
      ∀ id, id ∈ rest ↔ arena.owner id = graph.owner ∧ arena.stands id := by
  obtain ⟨tree, inside, isOwner, rfl⟩ := exists_tree well made
  rw [owner_ofTree]
  obtain ⟨isEntry, isExit, apart, noEntry, noExit⟩ := ends_ofTree well laid inside isOwner
  rw [← isEntry, ← isExit]
  generalize sameEntry : (ofTree tree).entry = entry at *
  generalize sameExit : (ofTree tree).exit = exit at *
  have whole : (ofTree tree).vertices = (entry :: exit ::
      (body exit tree [(entry, .fallthrough)]).emitted.vertices).eraseDups := by
    rw [← sameEntry, ← sameExit]
    rfl
  rw [whole, eraseDups_cons, filter_cons_of_pos (by simpa using apart),
    eraseDups_cons]
  refine ⟨_, rfl, fun id => ?_⟩
  simp only [mem_eraseDups, mem_filter, mem_body_iff well laid inside isOwner]
  constructor
  · rintro ⟨⟨place, -⟩, -⟩
    exact place
  · rintro ⟨owned, stands⟩
    have first : id ≠ entry := by
      rintro rfl
      exact noEntry stands
    have last : id ≠ exit := by
      rintro rfl
      exact noExit stands
    exact ⟨⟨⟨owned, stands⟩, by simpa using first⟩, by simpa using last⟩

omit laid in
theorem exists_graph (inside : tree ∈ arena.tree.subtrees) (owns : tree.label.kind.isOwner) :
    ∃ graph ∈ (ofArena arena).graphs, graph.owner = tree.label.id := by
  have owner : tree.label.id ∈ owners arena :=
    mem_owners.mpr ⟨well.id_lt inside, by rw [well.kind_eq inside]; exact owns⟩
  refine ⟨_, mem_graphs.mpr ⟨tree.label.id, owner, rfl⟩, ?_⟩
  rw [well.subtree_eq inside, owner_ofTree]

omit laid in
theorem map_owner_graphs : (ofArena arena).graphs.map (·.owner) = owners arena := by
  have graphs : (ofArena arena).graphs =
    (owners arena).map fun owner => ofTree (arena.subtree owner) := rfl
  rw [graphs, map_map]
  refine (map_congr_left fun owner member => ?_).trans (map_id _)
  exact well.id_subtree (mem_owners.mp member).1

theorem disjoint_graphs : (ofArena arena).graphs.Pairwise fun graph other =>
    graph.vertices.Disjoint other.vertices := by
  have distinct : (ofArena arena).graphs.Nodup := by
    refine List.Nodup.of_map (·.owner) ?_
    rw [map_owner_graphs well]
    exact nodup_range.filter _
  refine distinct.pairwise_of_forall_ne fun graph made other made' apart vertex listed listed' => ?_
  exact apart (graph_unique well laid made made' listed listed')

theorem exists_statementOf (inside : tree ∈ arena.tree.subtrees) :
    tree.label.id ≠ Arena.root → ∃ graph ∈ (ofArena arena).graphs,
      graph.owner = arena.owner tree.label.id ∧ ∃ vertex ∈ graph.vertices,
        (ofArena arena).statementOf tree.label.id = some vertex ∧
        (vertex = tree.label.id ∨ vertex ∈ arena.ancestors tree.label.id ∨
          vertex = arena.entryOf graph.owner) := by
  refine downward inside (fun below => absurd well.id_tree below) ?_
  intro parent above ih child member _
  have deeper := child_inside member above
  have ancestors : arena.ancestors child.label.id = parent.label.id :: arena.ancestors parent.label.id := by
    rw [well.ancestors_eq deeper, well.ancestors_child above member, well.ancestors_eq above]
  by_cases vertex : isVertex arena child.label.id
  · obtain ⟨graph, made, owned, listed⟩ := (isVertex_iff well).mp vertex
    refine ⟨graph, made, owned, child.label.id, listed, ?_, .inl rfl⟩
    rw [statementOf_eq well (well.id_lt deeper)]
    exact if_pos vertex
  · have owner := well.owner_child above member
    cases owns : parent.label.kind.isOwner with
    | true =>
      rw [owns] at owner
      obtain ⟨graph, made, same⟩ := exists_graph well above owns
      obtain ⟨rest, vertices, -⟩ := vertices_graph well laid made
      refine ⟨graph, made, same.trans owner.symm, arena.entryOf graph.owner,
        vertices ▸ mem_cons_self, ?_, .inr (.inr rfl)⟩
      rw [statementOf_owned well above member owns vertex, same]
    | false =>
      rw [owns] at owner
      have lower : parent.label.id ≠ Arena.root := by
        intro isRoot
        obtain rfl := well.eq_of_id above arena.tree.self_mem_subtrees (isRoot.trans well.id_tree.symm)
        rw [laid.program] at owns
        cases owns
      obtain ⟨graph, made, same, vertex', listed, found, place⟩ := ih lower
      refine ⟨graph, made, same.trans owner.symm, vertex', listed, ?_, ?_⟩
      · rw [statementOf_child well above member owns vertex, found]
      · rw [ancestors]
        obtain rfl | upper | entry := place
        · exact .inr (.inl mem_cons_self)
        · exact .inr (.inl (mem_cons_of_mem _ upper))
        · exact .inr (.inr entry)

end

section

variable {file : Script.File} {arena : Arena}

theorem places_divided (read : Arena.ofFile file = .ok arena) :
    (ofArena arena).graphs.map (·.owner) = owners arena ∧
    (∀ graph ∈ (ofArena arena).graphs, graph.vertices.Nodup ∧
      ∃ rest, graph.vertices = arena.entryOf graph.owner :: arena.exitOf graph.owner :: rest ∧
        ∀ id, id ∈ rest ↔ arena.owner id = graph.owner ∧ arena.stands id) ∧
    (ofArena arena).graphs.Pairwise (fun graph other => graph.vertices.Disjoint other.vertices) ∧
    ∀ id < arena.size, id ≠ Arena.root → ∃ graph ∈ (ofArena arena).graphs,
      graph.owner = arena.owner id ∧ ∃ vertex ∈ graph.vertices,
        (ofArena arena).statementOf id = some vertex ∧
        (vertex = id ∨ vertex ∈ arena.ancestors id ∨ vertex = arena.entryOf graph.owner) := by
  obtain ⟨well, laid⟩ := Arena.shaped_ofFile read
  refine ⟨map_owner_graphs well, fun graph made =>
    ⟨nodup_graph made, vertices_graph well laid made⟩, disjoint_graphs well laid, ?_⟩
  intro id known below
  obtain ⟨tree, inside, rfl⟩ := well.exists_subtree known
  exact exists_statementOf well laid inside below

end

-- `try { for (i = 0; ; i++) { } } finally { x => x; }`
def cleanedLoop : Script.File := .sample [
  .tryStmt (.mk [.forStmt (some (.expr (.assign "=" (.ident "i") (.literal (.number "0") {}) {})))
    none (some (.update "++" false (.ident "i") {})) (.block (.mk [] {})) {}] {}) .absent (some (.mk
    [.expr (.arrow (.mk [.ident "x"] (.expr (.ident "x")) {})) {}] {})) {}]

theorem places_divided_cleanedLoop :
    ∃ arena, Arena.ofFile cleanedLoop = .ok arena ∧
      (ofArena arena).graphs.map (·.owner) = [0, 14] ∧
      (∀ graph ∈ (ofArena arena).graphs, ∃ rest,
        graph.vertices = arena.entryOf graph.owner :: arena.exitOf graph.owner :: rest ∧
          ∀ id, id ∈ rest ↔ arena.owner id = graph.owner ∧ arena.stands id) ∧
      arena.ids.filter arena.stands = [3, 5, 6, 9, 12, 13, 18] := by
  refine ⟨_, rfl, ?_⟩
  have divided := places_divided (show Arena.ofFile cleanedLoop = .ok _ from rfl)
  exact ⟨by decide +kernel, fun graph made => (divided.2.1 graph made).2, by decide +kernel⟩

end ControlFlow

end Seepage

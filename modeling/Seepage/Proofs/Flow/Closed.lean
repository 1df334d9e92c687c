import Seepage.Proofs.Structured.Landing

set_option autoImplicit false

namespace Seepage

variable {tree : Syntree}

def Kind.isLabel : Kind → Bool
  | .labeled _ => true
  | _ => false

section

variable {arena : Arena} (well : arena.WellNumbered) (laid : arena.LaidOut)

theorem firstVertexAny?_eq {trees : List Syntree}
    (each : ∀ tree ∈ trees, (∀ id ∈ entryVertex? tree, ¬(arena.kind id).isLabel) →
      firstVertex? tree = entryVertex? tree)
    (plain : ∀ id ∈ entryVertexAny? trees, ¬(arena.kind id).isLabel) :
    firstVertexAny? trees = entryVertexAny? trees := by
  induction trees with
  | nil => rfl
  | cons tree rest ih =>
    obtain ⟨here, there⟩ := List.forall_mem_cons.mp each
    rw [entryVertexAny?] at plain
    rw [firstVertexAny?, entryVertexAny?]
    cases found : entryVertex? tree with
    | some id =>
      have first := here fun other same => plain other (Option.or_eq_some_iff.mpr (.inl same))
      rw [first, found, Option.some_or, Option.some_or]
    | none =>
      have first := here fun other same => by rw [found] at same; cases same
      rw [found] at plain
      rw [first, found]
      exact ih there plain

include well

theorem firstVertex?_eq (inside : tree ∈ arena.tree.subtrees)
    (plain : ∀ id ∈ entryVertex? tree, ¬(arena.kind id).isLabel) :
    firstVertex? tree = entryVertex? tree := by
  induction tree using Rose.byChildren with
  | node node children ih =>
    have below {child : Syntree} (member : child ∈ children) :=
      ih child member (Rose.mem_subtrees_of_child member inside)
    unfold entryVertex? at plain ⊢
    split at plain
    case h_1 isBlock =>
      unfold firstVertex?
      simp only [isBlock]
      exact firstVertexAny?_eq (fun child member => below member) plain
    case h_2 isFor =>
      unfold firstVertex?
      simp only [isFor]
    case h_3 body rest isLoop =>
      have first := below List.mem_cons_self fun id found =>
        plain id (Option.or_eq_some_iff.mpr (.inl found))
      unfold firstVertex?
      simp only [isLoop, first]
    case h_4 label body rest isLabel =>
      have first := below List.mem_cons_self fun id found =>
        plain id (Option.or_eq_some_iff.mpr (.inl found))
      unfold firstVertex?
      simp only [isLabel, first]
      cases found : entryVertex? body with
      | some id => rfl
      | none =>
        have kind : arena.kind node.id = .labeled label := (well.kind_eq inside).trans isLabel
        exact absurd (by rw [kind]; rfl) (plain node.id (by rw [found]; rfl))
    case h_5 block for_ loop label =>
      unfold firstVertex?
      split
      case h_1 isBlock => exact (block isBlock).elim
      case h_2 isFor => exact (for_ _ _ _ _ isFor rfl).elim
      case h_3 isLoop => exact (loop _ _ isLoop rfl).elim
      case h_4 isLabel => exact (label _ _ _ isLabel rfl).elim
      case h_5 => rfl

def ReachesFirst (stmt : Syntree) (next first : Nat) : Prop :=
  ∃ vertex? : Option Nat, first = vertex?.getD next ∧
    ∀ exit frames labels, Enters (flow exit frames labels stmt) vertex?

include laid

theorem ControlGraph.turns_ofTree (inside : tree ∈ arena.tree.subtrees)
    (owns : tree.label.kind.isOwner) : ∀ vertex ∈ (ofTree tree).vertices,
      arena.kind vertex = .doWhile →
        ⟨vertex, backTarget arena vertex, .loopBack⟩ ∈ (ofTree tree).edges := fun vertex member =>
  ((Structured.Landing.lands_ofTree well laid inside owns).1 vertex member).2

theorem ControlGraph.closed_ofTree (inside : tree ∈ arena.tree.subtrees)
    (owns : tree.label.kind.isOwner)
    (plain : ∀ loop ∈ (ofTree tree).vertices, arena.kind loop = .doWhile →
      ∀ body ∈ (arena.subtree loop).children.head?, ∀ id ∈ entryVertex? body,
        ¬(arena.kind id).isLabel) : ∀ edge ∈ (ofTree tree).edges,
      edge.source ∈ (ofTree tree).vertices ∧ edge.target ∈ (ofTree tree).vertices := by
  obtain ⟨first, last, rest, parts, -, -⟩ := laid.exists_ends inside owns
  have numbered := well.linked inside tree tree.self_mem_subtrees
  let interior := ownedInterior well laid tree.label.id last.label.id (· ∈ (ofTree tree).vertices)
    (· ∈ (ofTree tree).vertices) (fun _ _ known => known) (by
      intro node stmt rest held isLoop own frames labels preds known
      have below := Rose.mem_subtrees_of_child List.mem_cons_self held.inside
      have head : stmt ∈ (arena.subtree node.id).children.head? := by
        rw [show arena.subtree node.id = .node node (stmt :: rest) from well.subtree_eq held.inside]
        rfl
      have same := firstVertex?_eq well below
        (plain node.id own ((well.kind_eq held.inside).trans isLoop) stmt head)
      have enters := enters_flow (well.linked below) last.label.id frames labels
      rw [same] at enters
      cases found : entryVertex? stmt with
      | none => exact own
      | some id =>
        rw [found] at enters
        refine known id ?_
        rw [enters.2 preds]
        exact enters.1)
  have every : ∀ stmt, Flows interior 0 stmt := flows fun _ special => False.elim special
  exact (tied_ends every (held_of_owner well inside owns) parts rfl numbered (Row.still _) id
    fun _ known => known).2

end

namespace ControlFlow

variable {file : Script.File} {arena : Arena}

theorem graph_closed (read : Arena.ofFile file = .ok arena) {graph : ControlGraph}
    (made : graph ∈ (ofArena arena).graphs)
    (plain : ∀ loop ∈ graph.vertices, arena.kind loop = .doWhile →
      ∀ body ∈ (arena.subtree loop).children.head?, ∀ id ∈ entryVertex? body,
        ¬(arena.kind id).isLabel) :
    (∀ edge ∈ graph.edges, edge.source ∈ graph.vertices ∧ edge.target ∈ graph.vertices) ∧
      ∀ loop ∈ graph.vertices, arena.kind loop = .doWhile →
        ∃ body ∈ (arena.subtree loop).children.head?, ∃ first,
          ReachesFirst body loop first ∧ ⟨loop, first, .loopBack⟩ ∈ graph.edges := by
  obtain ⟨well, laid⟩ := Arena.shaped_ofFile read
  obtain ⟨tree, inside, isOwner, rfl⟩ := exists_tree well made
  refine ⟨ControlGraph.closed_ofTree well laid inside isOwner plain, fun loop member isLoop => ?_⟩
  have back := ControlGraph.turns_ofTree well laid inside isOwner loop member isLoop
  obtain ⟨⟨node, children⟩, here, rfl⟩ :=
    well.exists_subtree (Arena.lt_size_of_kind (by rw [isLoop]; simp))
  have found : arena.subtree node.id = .node node children := well.subtree_eq here
  have kind : node.kind = .doWhile := (well.kind_eq here).symm.trans isLoop
  have layout := laid.layout here
  rw [kind] at layout
  cases children with
  | nil => cases layout
  | cons body rest =>
    have below := Rose.mem_subtrees_of_child List.mem_cons_self here
    have head : body ∈ (arena.subtree node.id).children.head? := by rw [found]; rfl
    have target : backTarget arena node.id = (entryVertex? body).getD node.id := by
      simp only [backTarget, found, Rose.children]
    refine ⟨body, head, _, ⟨entryVertex? body, rfl, ?_⟩, target ▸ back⟩
    rw [← firstVertex?_eq well below (plain node.id member isLoop body head)]
    exact enters_flow (well.linked below)

-- A loop whose body starts with a label: `do l: { if (a) break l; b(); } while (c);`.
def labelledBody : Script.File := .sample [
  .doWhile (.labeled "l" (.block (.mk [.ifThen (.ident "a") (.breakStmt (some "l") {}) {}, .expr
    (.call (.ident "b") [] false {}) {}] {})) {}) (.ident "c") {}]

theorem graph_closed_labelledBody :
    ∃ arena, Arena.ofFile labelledBody = .ok arena ∧ ∃ graph ∈ (ofArena arena).graphs,
      (∀ edge ∈ graph.edges, edge.source ∈ graph.vertices ∧ edge.target ∈ graph.vertices) ∧
        3 ∈ graph.vertices ∧ arena.kind 3 = .doWhile ∧
          ∃ body ∈ (arena.subtree 3).children.head?, ∃ first,
            ReachesFirst body 3 first ∧ ⟨3, first, .loopBack⟩ ∈ graph.edges := by
  refine ⟨_, rfl, _, List.mem_singleton_self _, ?_⟩
  have closed := graph_closed (show Arena.ofFile labelledBody = .ok _ from rfl)
    (List.mem_singleton_self _) (by decide +kernel)
  exact ⟨closed.1, by decide +kernel, rfl, closed.2 3 (by decide +kernel) rfl⟩

-- The same around nothing: `do a: {} while (x);`.
def emptyBody : Script.File := .sample [
  .doWhile (.labeled "a" (.block (.mk [] {})) {}) (.ident "x") {}]

theorem graph_not_closed_emptyBody :
    ∃ arena, Arena.ofFile emptyBody = .ok arena ∧ ∃ graph ∈ (ofArena arena).graphs,
      ⟨3, 4, .loopBack⟩ ∈ graph.edges ∧ 4 ∉ graph.vertices := by
  refine ⟨_, rfl, _, List.mem_singleton_self _, ?_⟩
  decide +kernel

end ControlFlow

end Seepage

import Seepage.Proofs.Flow.Edges
import Seepage.Proofs.Flow.Locality
import Seepage.Proofs.Flow.Vertices

set_option autoImplicit false

namespace Seepage

open List
open Rose hiding node

variable {id : Nat} {parent child : Syntree} {handler : Option Nat}

def Guards (tree : Syntree) (id : Nat) : Prop :=
  ∃ part ∈ tree.children.dropLast, part.Holds id

instance (tree : Syntree) (id : Nat) : Decidable (Guards tree id) :=
  inferInstanceAs (Decidable (∃ part ∈ tree.children.dropLast, part.Holds id))

inductive Protects (tree : Syntree) (target : Nat) : Syntree → Prop where
  | block {node : Node} {block next : Syntree} {rest : List Syntree} {hasHandler hasFinalizer : Bool}
    (isTry : node.kind = .tryStmt hasHandler hasFinalizer) (inside : tree ∈ block.subtrees)
    (isNext : next.label.id = target) : Protects tree target (.node node (block :: next :: rest))
  | handler {node : Node} {block handler finalizer : Syntree}
    (isTry : node.kind = .tryStmt true true) (inside : tree ∈ handler.subtrees)
    (isNext : finalizer.label.id = target) :
    Protects tree target (.node node [block, handler, finalizer])

theorem form_of_finalizer {node : Node} (children : List Syntree) {hasHandler : Bool}
    (isTry : node.kind = .tryStmt hasHandler true) :
    (∃ block handler final stmts, children = block :: (Option.toList handler ++ [.node final stmts]) ∧
      handler.isSome = hasHandler) ∨ steers node.kind children = false := by
  cases form node children with
  | finalized same => exact .inl ⟨_, _, _, _, rfl, by simpa using same.symm.trans isTry⟩
  | simple plain => exact .inr plain
  | _ => simp_all

section

variable {arena : Arena} (well : arena.WellNumbered) {tree : Syntree}
  (inside : tree ∈ arena.tree.subtrees)

include well inside

theorem lt_of_guards (guards : Guards tree id) : tree.label.id < id := by
  obtain ⟨part, listed, holds⟩ := guards
  exact well.lt_of_below inside (dropLast_subset _ listed) holds

theorem guards_parent (known : parent ∈ arena.tree.subtrees) (below : child ∈ parent.children)
    (guards : Guards tree child.label.id) : Guards tree parent.label.id ∨ parent = tree := by
  obtain ⟨part, listed, holds⟩ := guards
  have direct := dropLast_subset _ listed
  have within := child_inside direct inside
  have deeper := child_inside below known
  rcases exists_parent (well.mem_of_holds deeper within holds) with rfl | ⟨above, under, member⟩
  · exact .inr (well.parent_unique known inside below direct)
  · obtain rfl := well.parent_unique known (subtrees_trans under within) below member
    exact .inl ⟨part, listed, parent, under, rfl⟩

theorem mem_of_guards {outer part : Syntree} (known : outer ∈ arena.tree.subtrees)
    (below : part ∈ outer.children) (unguarded : ¬Guards tree outer.label.id) (other : outer ≠ tree)
    (holds : part.Holds id) (guards : Guards tree id) : tree ∈ part.subtrees := by
  have above : ¬Guards tree part.label.id := fun deeper =>
    (guards_parent well inside known below deeper).elim unguarded other
  obtain ⟨common, here, rfl⟩ := holds
  obtain ⟨own, listed, holds'⟩ := guards
  have direct := dropLast_subset _ listed
  have first := child_inside below known
  have second := child_inside direct inside
  have there := well.mem_of_holds (subtrees_trans here first) second holds'
  rcases well.nested first second here there with lower | upper
  · exact absurd ⟨own, listed, part, lower, rfl⟩ above
  · rcases exists_parent upper with rfl | ⟨parent, under, member⟩
    · exact absurd ⟨_, listed, _, self_mem_subtrees _, rfl⟩ above
    · exact well.parent_unique inside (subtrees_trans under first) direct member ▸ under

theorem unguarded_child (known : parent ∈ arena.tree.subtrees)
    (below : child ∈ parent.children) (unguarded : ¬Guards tree parent.label.id)
    (other : parent ≠ tree) : ¬Guards tree child.label.id := fun guards =>
  (guards_parent well inside known below guards).elim unguarded other

theorem unguarded_last {finalizer : Syntree} (last : tree.children.getLast? = some finalizer) :
    ¬Guards tree finalizer.label.id := by
  rintro ⟨part, listed, holds⟩
  have distinct := well.nodup_children inside
  obtain ⟨guarded, parts⟩ := getLast?_eq_some_iff.mp last
  rw [parts, dropLast_concat] at listed
  rw [parts, nodup_append] at distinct
  have same : part = finalizer := well.sibling_unique inside (by simp [parts, listed])
    (by simp [parts]) holds ⟨finalizer, self_mem_subtrees _, rfl⟩
  exact distinct.2.2 part listed finalizer (by simp) same

end

def guardedInterior (exit : Nat) {tree : Syntree} (linked : tree.Linked) (finalizer : Nat) :
    Interior exit where
  placed _ := True
  left _ _ := True
  aimed _ id := Guards tree id ∨ id = finalizer
  drawn edge := Guards tree edge.target ∨ edge.target = finalizer
  leads _ _ _ target := target
  within part := ∃ own ∈ tree.children.dropLast, part ∈ own.subtrees
  apart _ := False
  held _ := True
  tries := tries_nothing
  root := fun ⟨own, listed, inside⟩ =>
    ⟨trivial, fun _ => ⟨trivial, .inl ⟨own, listed, _, inside, rfl⟩⟩⟩
  child := fun ⟨own, listed, inside⟩ _ _ _ below =>
    ⟨own, listed, mem_subtrees_of_child below inside⟩
  parts {node children} _ _ _ := fun ⟨own, listed, inside⟩ _ id member => by
    have direct := child_mem_subtrees (dropLast_subset _ listed)
    have named : node.children = children.map (·.label.id) :=
      linked _ (subtrees_trans inside direct)
    rw [named] at member
    obtain ⟨child, below, rfl⟩ := mem_map.mp member
    have deeper := mem_subtrees_of_child below inside
    exact ⟨trivial, fun _ => ⟨trivial, .inl ⟨own, listed, child, deeper, rfl⟩⟩⟩
  guarded := fun ⟨own, listed, inside⟩ _ _ _ below _ inner =>
    ⟨own, listed, child_inside inner (mem_subtrees_of_child below inside)⟩
  again {node stmt _} := fun ⟨own, listed, inside⟩ _ _ _ _ _ _ => by
    have below : stmt ∈ own.subtrees := mem_subtrees_of_child mem_cons_self inside
    cases found : entryVertex? stmt with
    | none => exact .inl ⟨own, listed, _, inside, rfl⟩
    | some id =>
      obtain ⟨inner, deeper, rfl⟩ := exists_of_entryVertex?
        (fun known _ _ under => mem_subtrees_of_child under known) below found
      exact .inl ⟨own, listed, inner, deeper, rfl⟩
  raises _ _ _ _ _ _ _ _ _ target := target
  rethrows _ _ _ _ _ _ _ target := target

theorem around_guarded {exit : Nat} {tree : Syntree} (linked : tree.Linked) (finalizer : Nat)
    (listed : ∀ id ∈ handler, Guards tree id) (handling : Bool) (frames : List Frame) :
    Around ((guardedInterior exit linked finalizer).at 0) exit (frames.length + 1)
      (⟨.guarded handler (some finalizer) handling, []⟩ :: frames) :=
  .wall rfl ⟨fun _ id isHandler => .inl (listed id isHandler), fun _ isFinal =>
    .inr (Option.some.inj isFinal).symm⟩ rfl rfl

section

variable {arena : Arena} (well : arena.WellNumbered) (laid : arena.LaidOut) {tree : Syntree}
  (inside : tree ∈ arena.tree.subtrees) {hasHandler : Bool}
  (isTry : tree.label.kind = .tryStmt hasHandler true)

def outsideInterior (owner exit finalizer : Nat) : Interior exit where
  placed _ := True
  left _ id := ¬Guards tree id
  aimed _ _ := True
  drawn edge := Guards tree edge.source → Guards tree edge.target ∨ edge.target = finalizer ∨
    edge.label = .exception ∧ ∃ outer ∈ arena.tree.subtrees,
      arena.owner outer.label.id = owner ∧ Protects tree edge.target outer
  leads _ _ source _ := fun guards => absurd guards source
  within part := Held arena owner part ∧ ¬Guards tree part.label.id
  apart part := part = tree
  held _ := True
  tries := fun same => ⟨hasHandler, true, same ▸ isTry⟩
  root := fun ⟨_, unguarded⟩ => ⟨trivial, fun _ => ⟨unguarded, trivial⟩⟩
  child := fun ⟨held, unguarded⟩ other open_ child below =>
    ⟨held.child well open_ child below,
      unguarded_child well inside held.inside below unguarded other⟩
  parts {node children} _ _ _ := fun ⟨held, unguarded⟩ isFor id member => by
    have named : node.children = children.map (·.label.id) :=
      well.linked held.inside _ (self_mem_subtrees _)
    have other : Rose.node node children ≠ tree := by
      rintro rfl
      exact absurd (isFor.symm.trans isTry) (by simp)
    rw [named] at member
    obtain ⟨child, below, rfl⟩ := mem_map.mp member
    exact ⟨trivial, fun _ =>
      ⟨unguarded_child well inside held.inside below unguarded other, trivial⟩⟩
  guarded {node children _ _} := fun ⟨held, unguarded⟩ other isTry' child below part inner => by
    have known := mem_subtrees_of_child below held.inside
    have layout := laid.layout held.inside
    rw [isTry'] at layout
    have isGuard := Kind.isGuard_of_tryStmt layout (mem_map_of_mem below)
    have other' : child ≠ tree := by
      rintro rfl
      simp [isTry, Kind.isBlock, Kind.isCatch] at isGuard
    exact ⟨held.guarded well laid isTry' child below part inner,
      unguarded_child well inside known inner
        (unguarded_child well inside held.inside below unguarded other) other'⟩
  again _ _ _ _ _ _ _ := trivial
  raises {node block target rest _ _} := fun ⟨held, unguarded⟩ other isTry' _ _ _ vertex member _ _
      guards => by
    have below : block ∈ (Rose.node node (block :: target :: rest)).children := mem_cons_self
    have linked := well.linked (mem_subtrees_of_child below held.inside)
    have around := mem_of_guards well inside held.inside below unguarded other
      (holds_of_mem_flow linked member) guards
    exact .inr (.inr ⟨rfl, _, held.inside, held.root.owned, .block isTry' around rfl⟩)
  rethrows {node block handler last} := fun ⟨held, unguarded⟩ other isTry' _ vertex member _ _
      guards => by
    have below : handler ∈ (Rose.node node [block, handler, last]).children := by
      simp [Rose.children]
    have linked := well.linked (mem_subtrees_of_child below held.inside)
    have around := mem_of_guards well inside held.inside below unguarded other
      (holds_of_mem_flowHandler linked member) guards
    exact .inr (.inr ⟨rfl, _, held.inside, held.root.owned, .handler isTry' around rfl⟩)

variable {owner exit finalizer : Nat}

theorem Emitted.Tied.outside {linked : tree.Linked} {emitted : Emitted} {count : Nat}
    (tied : emitted.Tied ((guardedInterior exit linked finalizer).at 0) (count + 1) (count + 1)) :
    emitted.Tied ((outsideInterior well laid inside isTry owner exit finalizer).at 0) 0 count where
  vertices _ _ := trivial
  edges edge member := fun _ => (tied.edges edge member).imp_right .inl
  breaks jump member :=
    ⟨Nat.zero_le _, fun out => absurd (tied.breaks jump member).1 (by omega)⟩
  resumes jump member := by
    refine ⟨(tied.resumes jump member).1, ?_⟩
    cases jump.2 with
    | leave depth => exact .inr (Nat.zero_le depth)
    | again depth target => exact .inr ⟨Nat.zero_le depth, fun _ => trivial⟩

variable (owner exit finalizer) (frames : List Frame)

theorem tied_guarded (caught : ∀ id ∈ handler, Guards tree id)
    {block : Syntree} (listed : block ∈ tree.children.dropLast) (preds : Exits) :
    (flow exit (⟨.guarded handler (some finalizer) false, []⟩ :: frames) [] block preds).emitted.Tied
      ((outsideInterior well laid inside isTry owner exit finalizer).at 0) 0 frames.length := by
  have linked := well.linked inside
  have every : Flows (guardedInterior exit linked finalizer) (frames.length + 1) block :=
    flows (fun _ special => False.elim special) block
  have tied := every ⟨block, listed, block.self_mem_subtrees⟩ _ [] preds
    (around_guarded linked finalizer caught false frames) (fun _ _ => trivial) fun _ _ => trivial
  exact tied.emitted.outside well laid inside isTry

theorem tied_catching {handler : Syntree} (listed : handler ∈ tree.children.dropLast)
    (caught : ∀ id ∈ some handler.label.id, Guards tree id) :
    (flowHandler exit (⟨.guarded (some handler.label.id) (some finalizer) true, []⟩ :: frames)
      handler).emitted.Tied
        ((outsideInterior well laid inside isTry owner exit finalizer).at 0) 0 frames.length := by
  have linked := well.linked inside
  have every (part : Syntree) :
      Flows (guardedInterior exit linked finalizer) (frames.length + 1) part :=
    flows (fun _ special => False.elim special) part
  have tied := tied_flowHandler (fun part _ => every part)
    (fun part below => ⟨handler, listed, child_mem_subtrees below⟩) (Row.still _)
    (around_guarded linked finalizer caught true frames) trivial fun _ _ => trivial
  exact tied.emitted.outside well laid inside isTry

theorem drawn_into {target : Nat} (into : Guards tree target ∨ target = finalizer) :
    (∀ vertices, ∀ edge ∈ raising vertices target,
      (outsideInterior well laid inside isTry owner exit finalizer).drawn edge) ∧
    ∀ exits, ∀ edge ∈ connect exits target,
      (outsideInterior well laid inside isTry owner exit finalizer).drawn edge :=
  ⟨fun _ => forall_mem_map.mpr fun _ _ _ => into.imp_right .inl,
    fun _ => forall_mem_map.mpr fun _ _ _ => into.imp_right .inl⟩

end

section

variable {arena : Arena} (well : arena.WellNumbered) (laid : arena.LaidOut) {node : Node}
  {children : List Syntree} (inside : Rose.node node children ∈ arena.tree.subtrees)
  {hasHandler : Bool} (isTry : node.kind = .tryStmt hasHandler true) {finalizer : Node}
  {stmts : List Syntree} (isLast : children.getLast? = some (.node finalizer stmts))
  {owner exit : Nat}

include isLast

theorem tied_final (held : Held arena owner (.node node children)) (each : ∀ stmt ∈ stmts,
      Flows (outsideInterior well laid inside isTry owner exit finalizer.id) 0 stmt)
    {frames : List Frame} (around : Around
      ((outsideInterior well laid inside isTry owner exit finalizer.id).at 0) exit 0 frames) :
    (flowAll exit frames stmts [(finalizer.id, .fallthrough)]).Tied
      ((outsideInterior well laid inside isTry owner exit finalizer.id).at 0) 0 frames.length := by
  have below : .node finalizer stmts ∈ (Rose.node node children).children :=
    mem_of_getLast? isLast
  have unguarded : ¬Guards (.node node children) finalizer.id := unguarded_last well inside isLast
  have known := mem_subtrees_of_child below inside
  have later : node.id < finalizer.id :=
    well.lt_of_below inside below ⟨_, self_mem_subtrees _, rfl⟩
  have other : Rose.node finalizer stmts ≠ Rose.node node children := by
    rintro ⟨⟩
    exact Nat.lt_irrefl _ later
  refine tied_flowAll each (fun stmt member => ⟨?_, ?_⟩) (Row.still _) around
    (Exits.tied_singleton unguarded) fun _ _ => trivial
  · exact held.guarded well laid isTry _ below stmt member
  · exact unguarded_child well inside known member unguarded other

theorem flows_guarding (each : ∀ child ∈ children, ∀ part ∈ child.subtrees,
      Flows (outsideInterior well laid inside isTry owner exit finalizer.id) 0 part) :
    Flows (outsideInterior well laid inside isTry owner exit finalizer.id) 0
      (.node node children) := by
  have final : ∀ stmt ∈ stmts,
      Flows (outsideInterior well laid inside isTry owner exit finalizer.id) 0 stmt :=
    fun stmt member => each _ (mem_of_getLast? isLast) stmt
      (mem_subtrees_of_child member (self_mem_subtrees _))
  intro within frames labels preds around sources known
  have head := tied_own within trivial sources 0 0 frames.length
  have after := tied_final well laid inside isTry isLast within.1 final around
  have into {target : Nat} (leads : Guards (.node node children) target ∨ target = finalizer.id) :=
    drawn_into well laid inside isTry owner exit finalizer.id leads
  rcases form_of_finalizer children isTry with ⟨block, handler, final', stmts', rfl, rfl⟩ | plain
  · rw [← cons_append, getLast?_concat] at isLast
    cases isLast
    have listed {part : Syntree} (member : part ∈ block :: handler.toList) :
        part ∈ (block :: (handler.toList ++ [.node finalizer stmts])).dropLast := by
      rwa [← cons_append, dropLast_concat]
    have caught : ∀ id ∈ handler.map (·.label.id),
        Guards (.node node (block :: (handler.toList ++ [.node finalizer stmts]))) id := by
      intro id isHandler
      obtain ⟨top, rfl, rfl⟩ := Option.map_eq_some_iff.mp isHandler
      exact ⟨top, listed (by simp), top, top.self_mem_subtrees, rfl⟩
    have guarded : (guardedFlow exit frames node.id block handler (some finalizer.id)).emitted.Tied
        ((outsideInterior well laid inside isTry owner exit finalizer.id).at 0) 0
        frames.length := by
      have body := tied_guarded well laid inside isTry owner exit finalizer.id frames caught
        (listed mem_cons_self) [(node.id, .fallthrough)]
      cases handler with
      | none => exact body
      | some handler =>
        have catching := tied_catching well laid inside isTry owner exit finalizer.id frames
          (listed (by simp)) caught
        simp only [guardedFlow, Emitted.tied_append]
        exact ⟨⟨⟨body, Emitted.tied_ofEdges ((into (.inl (caught _ rfl))).1 _)⟩,
          Emitted.tied_vertex trivial⟩, catching⟩
    obtain ⟨leaves, resumes⟩ := tied_resume around guarded after.exits
    rw [flow_finalized _ _ _ _ _ _ _ _ isTry]
    refine ⟨?_, after.exits⟩
    simp only [Emitted.tied_append]
    exact ⟨⟨⟨⟨⟨⟨⟨head, Emitted.tied_vertex trivial⟩, guarded⟩,
      Emitted.tied_ofEdges ((into (.inr rfl)).1 _)⟩, Emitted.tied_ofEdges ((into (.inr rfl)).2 _)⟩,
      after.emitted⟩, leaves⟩, resumes⟩
  · exact flows_simple plain within frames labels preds around sources known

end

section

variable {arena : Arena} (well : arena.WellNumbered) {tree : Syntree}
  (inside : tree ∈ arena.tree.subtrees)

include well inside

theorem owner_le : arena.owner tree.label.id ≤ tree.label.id := by
  rw [Arena.owner, well.ancestors_eq inside]
  cases found : tree.label.ancestors.find? fun above => (arena.kind above).isOwner with
  | none => exact Nat.zero_le _
  | some above =>
    exact Nat.le_of_lt (well.ancestors_lt inside above (mem_of_find?_eq_some found))

variable {top : Syntree} (known : top ∈ arena.tree.subtrees) (owns : top.label.kind.isOwner)
  (owned : arena.owner tree.label.id = top.label.id) {hasHandler : Bool}
  (isTry : tree.label.kind = .tryStmt hasHandler true)

include known owns owned isTry

theorem unguarded_of_owner (below : child ∈ top.children) : ¬Guards tree child.label.id := by
  have first : top.label.id ≤ tree.label.id := owned ▸ owner_le well inside
  refine unguarded_child well inside known below (fun guards => ?_) ?_
  · exact absurd (lt_of_guards well inside guards) (Nat.not_lt.mpr first)
  · rintro rfl
    rw [isTry] at owns
    cases owns

theorem ControlGraph.guarded_ofTree (laid : arena.LaidOut) {finalizer : Syntree}
    (isLast : tree.children.getLast? = some finalizer) {edge : ControlEdge}
    (drawn : edge ∈ (ofTree top).edges) : (outsideInterior well laid inside isTry top.label.id
      (ofTree top).exit finalizer.label.id).drawn edge := by
  obtain ⟨first, last, rest, parts, -, -⟩ := laid.exists_ends known owns
  have numbered := well.linked known top top.self_mem_subtrees
  have isExit : last.label.id = (ofTree top).exit := by simp [ofTree, numbered, parts]
  obtain ⟨node, children⟩ := tree
  obtain ⟨final, stmts⟩ := finalizer
  have every : ∀ stmt, Flows (outsideInterior well laid inside isTry top.label.id (ofTree top).exit
      final.id) 0 stmt := by
    refine flows fun part special each => ?_
    obtain rfl : part = .node node children := special
    exact flows_guarding well laid inside isTry isLast each
  exact (tied_ends every (fun child below => ⟨held_of_owner well known owns child below,
    unguarded_of_owner well inside known owns owned isTry below⟩) parts isExit numbered
    (Row.still _) id fun _ _ => trivial).2 edge drawn

end

def TakenOver (arena : Arena) (tree : Syntree) (edge : ControlEdge) : Prop :=
  edge.label = .exception ∧ ∃ outer ∈ arena.tree.subtrees,
    arena.owner outer.label.id = arena.owner tree.label.id ∧ Protects tree edge.target outer

theorem mem_of_isChain {step : Nat → Nat → Prop} {within : Nat → Prop} {way : Nat}
    (leaves : ∀ source target, step source target → within source → within target ∨ target = way)
    {first : Nat} {path : List Nat} (chain : (first :: path).IsChain step) (start : within first)
    (out : ∃ vertex ∈ path, ¬within vertex) : way ∈ path := by
  induction path generalizing first with
  | nil =>
    obtain ⟨_, absent, _⟩ := out
    cases absent
  | cons next rest ih =>
    obtain ⟨here, there⟩ := isChain_cons_cons.mp chain
    rcases leaves first next here start with deeper | rfl
    · obtain ⟨vertex, member, free⟩ := out
      rcases mem_cons.mp member with rfl | later
      · exact absurd deeper free
      · exact mem_cons_of_mem _ (ih there deeper ⟨vertex, later, free⟩)
    · exact mem_cons_self

namespace ControlFlow

variable {file : Script.File} {arena : Arena}

theorem leaves_through_finalizer (read : Arena.ofFile file = .ok arena) {graph : ControlGraph}
    (made : graph ∈ (ofArena arena).graphs) {tree finalizer : Syntree}
    (inside : tree ∈ arena.tree.subtrees) (owned : arena.owner tree.label.id = graph.owner)
    {hasHandler : Bool} (isTry : tree.label.kind = .tryStmt hasHandler true)
    (isLast : tree.children.getLast? = some finalizer) :
    (∀ edge ∈ graph.edges, Guards tree edge.source → ¬Guards tree edge.target →
      edge.target = finalizer.label.id ∨ TakenOver arena tree edge) ∧
    ∀ first path, (first :: path).IsChain (fun source target => ∃ edge ∈ graph.edges,
        edge.source = source ∧ edge.target = target ∧ ¬TakenOver arena tree edge) →
      Guards tree first → (∃ vertex ∈ path, ¬Guards tree vertex) → finalizer.label.id ∈ path := by
  obtain ⟨well, laid⟩ := Arena.shaped_ofFile read
  have edges : ∀ edge ∈ graph.edges, Guards tree edge.source → ¬Guards tree edge.target →
      edge.target = finalizer.label.id ∨ TakenOver arena tree edge := by
    obtain ⟨top, within, isOwner, rfl⟩ := exists_tree well made
    intro edge drawn guards free
    rcases ControlGraph.guarded_ofTree well inside within isOwner owned isTry laid isLast drawn
      guards with deeper | final | ⟨raised, outer, around, same, protects⟩
    · exact absurd deeper free
    · exact .inl final
    · exact .inr ⟨raised, outer, around, same.trans owned.symm, protects⟩
  refine ⟨edges, fun first path chain start out => mem_of_isChain ?_ chain start out⟩
  rintro _ _ ⟨edge, member, rfl, rfl, free⟩ guards
  by_cases deeper : Guards tree edge.target
  · exact .inl deeper
  · exact .inr ((edges edge member guards deeper).resolve_right free)

-- Two jumps out of a loop, past a finalizer: `while (a) { try { if (b) break; c(); } catch (e) {
-- continue; } finally { d(); } } e();`.
def guardedLoop : Script.File := .sample [
  .whileStmt (.ident "a") (.block (.mk [.tryStmt (.mk [.ifThen (.ident "b") (.breakStmt none {}) {},
    .expr (.call (.ident "c") [] false {}) {}] {}) (.binding (.ident "e") (.mk [.continueStmt none
    {}] {}) {}) (some (.mk [.expr (.call (.ident "d") [] false {}) {}] {})) {}] {})) {},
  .expr (.call (.ident "e") [] false {}) {}]

theorem leaves_through_finalizer_guardedLoop :
    ∃ arena, Arena.ofFile guardedLoop = .ok arena ∧ ∃ graph ∈ (ofArena arena).graphs,
      ∃ tree ∈ arena.tree.subtrees, Guards tree 10 ∧ ¬Guards tree 22 ∧
        (∀ edge ∈ graph.edges, Guards tree edge.source → ¬Guards tree edge.target →
          edge.target = 18 ∨ TakenOver arena tree edge) ∧
        ∀ path, (10 :: path).IsChain (fun source target => ∃ edge ∈ graph.edges,
            edge.source = source ∧ edge.target = target ∧ ¬TakenOver arena tree edge) →
          22 ∈ path → 18 ∈ path := by
  have read : Arena.ofFile guardedLoop = .ok _ := rfl
  have inside := (Arena.wellNumbered_ofFile read).subtree_mem (show 6 < _ by decide +kernel)
  have through := leaves_through_finalizer read (List.mem_singleton_self _) inside rfl rfl rfl
  exact ⟨_, read, _, List.mem_singleton_self _, _, inside, by decide +kernel, by decide +kernel,
    through.1, fun path chain member =>
      through.2 10 path chain (by decide +kernel) ⟨22, member, by decide +kernel⟩⟩

-- A handler around a statement with a finalizer: `try { try { a(); } finally { b(); } } catch (e) {
-- c(); }`.
def guardedTwice : Script.File := .sample [
  .tryStmt (.mk [.tryStmt (.mk [.expr (.call (.ident "a") [] false {}) {}] {}) .absent (some (.mk
    [.expr (.call (.ident "b") [] false {}) {}] {})) {}] {}) (.binding (.ident "e") (.mk [.expr
    (.call (.ident "c") [] false {}) {}] {}) {}) none {}]

theorem bypasses_finalizer_guardedTwice :
    ∃ arena, Arena.ofFile guardedTwice = .ok arena ∧ ∃ graph ∈ (ofArena arena).graphs,
      ∃ tree finalizer, tree ∈ arena.tree.subtrees ∧ tree.label.kind = .tryStmt false true ∧
        tree.children.getLast? = some finalizer ∧ finalizer.label.id = 10 ∧
        ⟨7, 14, .exception⟩ ∈ graph.edges ∧ Guards tree 7 ∧ ¬Guards tree 14 := by
  have read : Arena.ofFile guardedTwice = .ok _ := rfl
  have inside := (Arena.wellNumbered_ofFile read).subtree_mem (show 5 < _ by decide +kernel)
  refine ⟨_, read, _, List.mem_singleton_self _, _, _, inside, rfl, rfl, rfl, ?_⟩
  decide +kernel

end ControlFlow

end Seepage

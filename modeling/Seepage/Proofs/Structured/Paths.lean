import Mathlib.Data.List.Chain
import Seepage.Proofs.Flow.Vertices
import Seepage.Proofs.Structured.Drawing
import Seepage.Proofs.Tree.Nesting

set_option autoImplicit false

namespace Seepage.Structured

open List ControlGraph
open Rose hiding node

variable {tree entry : Syntree} {trees rest children : List Syntree} {hasTest hasUpdate : Bool}
  {node : Node} {walk : List Nat} {arena : Arena}

def occurrences (id : Nat) (trees : List Syntree) : Nat :=
  ((subtreesAll trees).map (·.label.id)).count id

section

variable (id : Nat)

theorem occurrences_cons (tree : Syntree) (rest : List Syntree) :
    occurrences id (tree :: rest) = occurrences id [tree] + occurrences id rest := by
  simp [occurrences, subtreesAll]

theorem occurrences_node (node : Node) (children : List Syntree) :
    occurrences id [.node node children] = [node.id].count id + occurrences id children := by
  simp [occurrences, subtreesAll, Rose.subtrees, Rose.label, count_cons, Nat.add_comm]

theorem occurrences_le_of_mem (member : tree ∈ trees) :
    occurrences id [tree] ≤ occurrences id trees := by
  induction trees with
  | nil => cases member
  | cons other rest ih =>
    rw [occurrences_cons id other]
    rcases mem_cons.mp member with rfl | later
    · exact Nat.le_add_right _ _
    · exact Nat.le_add_left_of_le (ih later)

theorem count_root_le (tree : Syntree) : [tree.label.id].count id ≤ occurrences id [tree] := by
  obtain ⟨node, children⟩ := tree
  rw [occurrences_node]
  exact Nat.le_add_right _ _

variable {id}

def Covers (id : Nat) (tree : Syntree) : Prop :=
  ∀ labels, (Code.ofTree labels tree).vertices.count id ≤ occurrences id [tree]

theorem count_ofAll (each : ∀ tree ∈ trees, Covers id tree) :
    (Code.ofAll trees).vertices.count id ≤ occurrences id trees := by
  induction trees with
  | nil => exact Nat.zero_le _
  | cons tree rest ih =>
    obtain ⟨here, there⟩ := forall_mem_cons.mp each
    rw [Code.ofAll, Code.vertices, count_append, occurrences_cons]
    exact Nat.add_le_add (here []) (ih there)

theorem count_ofLast (each : ∀ tree ∈ trees, Covers id tree) :
    (Code.ofLast trees).vertices.count id ≤ occurrences id trees := by
  induction trees with
  | nil => exact Nat.zero_le _
  | cons tree rest ih =>
    obtain ⟨here, there⟩ := forall_mem_cons.mp each
    rw [occurrences_cons]
    cases rest with
    | nil => exact Nat.le_add_right_of_le (here [])
    | cons next rest => exact Nat.le_add_left_of_le (ih there)

theorem count_ofCases {cases : List Syntree}
    (each : ∀ tree ∈ cases, ∀ part ∈ tree.children, Covers id part) :
    (Code.ofCases cases).vertices.count id ≤ occurrences id cases := by
  induction cases with
  | nil => exact Nat.zero_le _
  | cons tree rest ih =>
    obtain ⟨here, there⟩ := forall_mem_cons.mp each
    have later := ih there
    obtain ⟨node, parts⟩ := tree
    rw [occurrences_cons, occurrences_node]
    unfold Code.ofCases
    split
    case h_1 =>
      have body := count_ofAll here
      simp only [Rose.children, Code.vertices, count_cons, count_append,
        count_nil] at body ⊢
      omega
    case h_2 value stmts _ =>
      have body := count_ofAll (forall_mem_cons.mp here).2
      rw [occurrences_cons]
      simp only [Code.vertices, count_cons, count_append, count_nil]
      omega
    case h_3 => omega

theorem Code.ofLast_cons (tree : Syntree) (more : rest ≠ []) :
    Code.ofLast (tree :: rest) = Code.ofLast rest := by
  cases rest with
  | nil => exact absurd rfl more
  | cons next rest => rfl

theorem count_turn (each : ∀ tree ∈ trees, Covers id tree) {position : Nat}
    {step : Syntree} (found : trees[position]? = some step) (inner : position + 1 < trees.length) :
    [step.label.id].count id + (Code.ofLast trees).vertices.count id ≤ occurrences id trees := by
  induction trees generalizing position with
  | nil => cases found
  | cons tree rest ih =>
    obtain ⟨here, there⟩ := forall_mem_cons.mp each
    have more : rest ≠ [] := by
      rintro rfl
      simp at inner
    rw [Code.ofLast_cons tree more, occurrences_cons]
    cases position with
    | zero =>
      cases found
      exact Nat.add_le_add (count_root_le id _) (count_ofLast there)
    | succ position =>
      exact Nat.le_add_left_of_le (ih there found (Nat.lt_of_succ_lt_succ inner))

theorem count_loop (each : ∀ tree ∈ trees, Covers id tree)
    (length : trees.length = hasTest.toNat + hasUpdate.toNat + 1) (labels : List String)
    (head : Nat) :
    (Code.loop labels head hasTest ((if hasUpdate then trees[hasTest.toNat]? else none).map
      (·.label.id)) (.ofLast trees)).vertices.count id ≤
        [head].count id + occurrences id trees := by
  rw [Code.vertices, count_cons, count_append, Nat.add_comm, ← count_singleton]
  refine Nat.add_le_add_left ?_ _
  cases hasUpdate with
  | false => simpa using count_ofLast each
  | true =>
    have known : hasTest.toNat < trees.length := by omega
    have found := getElem?_eq_getElem known
    rw [found]
    exact count_turn each found (by simp at length; omega)

theorem covers_for {hasInit : Bool}
    (isFor : node.kind = .forStmt hasInit hasTest hasUpdate) {parts : List Syntree}
    (length : parts.length = hasInit.toNat + hasTest.toNat + hasUpdate.toNat + 1)
    (each : ∀ part ∈ parts, Covers id part) : Covers id (.node node parts) := by
  intro labels
  rw [occurrences_node, Code.ofTree_def]
  simp only [isFor]
  cases hasInit with
  | false =>
    rw [Bool.toNat_false, Nat.zero_add] at length ⊢
    exact count_loop each length labels node.id
  | true =>
    cases parts with
    | nil => simp at length
    | cons init rest =>
      obtain ⟨here, there⟩ := forall_mem_cons.mp each
      have first := count_root_le id init
      have length : rest.length = hasTest.toNat + hasUpdate.toNat + 1 := by
        simp at length
        omega
      have counted := count_loop there length labels node.id
      have more : rest ≠ [] := by
        rintro rfl
        cases length
      rw [Code.ofLast_cons init more, occurrences_cons, Bool.toNat_true, Nat.add_comm 1]
      simp only [getElem?_cons_succ, if_true, head?_cons]
      rw [Code.vertices, count_append, Nat.add_left_comm]
      exact Nat.add_le_add first counted

theorem covers_single
    (single : ∀ labels, (Code.ofTree labels (.node node children)).vertices = [node.id]) :
    Covers id (.node node children) := by
  intro labels
  rw [single, occurrences_node]
  exact Nat.le_add_right _ _

theorem covers_node (layout : node.kind.fits (children.map (·.label.kind)))
    (each : ∀ child ∈ children, ∀ part ∈ child.subtrees, Covers id part) :
    Covers id (.node node children) := by
  have parts : ∀ child ∈ children, Covers id child := fun child below =>
    each child below child child.self_mem_subtrees
  cases form node children with
  | forLoop isFor =>
    rw [isFor] at layout
    simp only [Kind.fits, length_map, Bool.and_eq_true, beq_iff_eq] at layout
    exact covers_for isFor layout.1 parts
  | block isBlock =>
    intro labels
    rw [occurrences_node, Code.ofTree_def]
    simp only [isBlock]
    exact Nat.le_add_left_of_le (count_ofAll parts)
  | @choose _ test consequent alternate isIf =>
    intro labels
    have yes := parts consequent (by simp) []
    have no := count_ofLast fun stmt (below : stmt ∈ alternate.toList) => parts stmt (by simp [below])
    rw [occurrences_node, occurrences_cons id test, occurrences_cons id consequent,
      Code.ofTree_choose isIf]
    simp only [Code.vertices, count_cons, count_append, count_nil]
    omega
  | loop isLoop =>
    intro labels
    have body := count_ofLast parts
    rw [occurrences_node]
    rcases isLoop with isLoop | isLoop | isLoop <;>
    · simp only [Code.ofTree, isLoop, Code.vertices, count_cons, count_nil,
        Option.toList_none, nil_append]
      omega
  | @labelled label body rest isLabel =>
    intro labels
    have inner := parts body mem_cons_self (labels ++ [label])
    rw [occurrences_node, occurrences_cons, Code.ofTree_def]
    simp only [isLabel, Code.vertices]
    omega
  | @switch subject cases isSwitch =>
    intro labels
    have inner := count_ofCases fun case member part below =>
      each case (mem_cons_of_mem _ member) part (child_mem_subtrees below)
    rw [occurrences_node, occurrences_cons]
    simp only [Code.ofTree, isSwitch, Code.vertices, count_cons, count_nil]
    omega
  | with_ isWith =>
    intro labels
    have body := count_ofLast parts
    rw [occurrences_node]
    simp only [Code.ofTree, isWith, Code.vertices, count_append]
    omega
  | breaks single | continues single | returns single | throws single | doWhile single
  | guarded single | finalized single =>
    refine covers_single fun labels => ?_
    rw [Code.ofTree_def]
    simp only [single, Code.vertices]
  | simple plain =>
    refine covers_single fun labels => ?_
    rw [Code.ofTree_simple plain, Code.vertices]

end

section

variable {arena : Arena} (laid : arena.LaidOut)

include laid

theorem covers (inside : tree ∈ arena.tree.subtrees) (id : Nat) : Covers id tree := by
  induction tree using bySubtrees with
  | node node children ih =>
    exact covers_node (laid.layout inside) fun child below part deeper => ih child below part deeper
      (subtrees_trans deeper (mem_subtrees_of_child below inside))

theorem count_ofOwner (inside : tree ∈ arena.tree.subtrees) (id : Nat) :
    (Code.ofOwner tree).vertices.count id ≤ occurrences id (tree.children.drop 2) := by
  have parts {trees : List Syntree} (within : ∀ part ∈ trees, part ∈ tree.subtrees) :
      (Code.ofAll trees).vertices.count id ≤ occurrences id trees :=
    count_ofAll fun part member => covers laid (subtrees_trans (within part member) inside) id
  unfold Code.ofOwner
  split
  case h_1 paramCount _ _ =>
    rcases found : tree.children[2 + paramCount]? with _ | body
    · exact Nat.zero_le _
    · have behind : body ∈ tree.children.drop 2 := by
        refine mem_of_getElem? (i := paramCount) ?_
        rw [getElem?_drop, found]
      have below := child_mem_subtrees (mem_of_mem_drop behind)
      have whole := occurrences_le_of_mem id behind
      by_cases isBlock : body.label.kind = .block
      · simp only [isBlock, if_true]
        obtain ⟨node, stmts⟩ := body
        rw [occurrences_node] at whole
        have inner := parts fun stmt member => mem_subtrees_of_child member below
        exact Nat.le_trans inner (Nat.le_trans (Nat.le_add_left _ _) whole)
      · simp only [isBlock, if_false]
        exact Nat.le_trans (count_root_le id body) whole
  case h_2 =>
    exact parts fun part member => child_mem_subtrees (mem_of_mem_drop member)

theorem nodup_ofOwner (well : arena.WellNumbered) {exit : Syntree}
    (inside : tree ∈ arena.tree.subtrees) (parts : tree.children = entry :: exit :: rest) :
    (entry.label.id :: exit.label.id :: (Code.ofOwner tree).vertices).Nodup := by
  rw [nodup_iff_count_le_one]
  intro id
  have distinct := nodup_iff_count_le_one.mp (well.nodup_ids inside) id
  have body := count_ofOwner laid inside id
  have first := count_root_le id entry
  have last := count_root_le id exit
  obtain ⟨node, children⟩ := tree
  obtain rfl : children = entry :: exit :: rest := parts
  have whole : occurrences id [.node node (entry :: exit :: rest)] ≤ 1 := by
    simpa [occurrences, subtreesAll] using distinct
  simp only [Rose.children, drop_succ_cons, drop_zero] at body
  rw [occurrences_node, occurrences_cons id entry, occurrences_cons id exit] at whole
  simp only [count_cons, count_nil] at first last ⊢
  omega

end

section

variable {step : Nat → Nat → Prop} {exit : Nat}

theorem walk_iff_isChain {source : Nat} : Walk step exit source walk ↔
    (walk ++ [exit]).head? = some source ∧ (walk ++ [exit]).IsChain step := by
  induction walk generalizing source with
  | nil =>
    constructor
    · rintro ⟨⟩
      exact ⟨rfl, .singleton exit⟩
    · rintro ⟨⟨⟩, -⟩
      exact .done
  | cons vertex rest ih =>
    constructor
    · rintro (_ | ⟨leads, more⟩)
      obtain ⟨first, chain⟩ := ih.mp more
      refine ⟨rfl, isChain_cons.mpr ⟨?_, chain⟩⟩
      simpa [first] using leads
    · rintro ⟨⟨⟩, chain⟩
      obtain ⟨leads, chain⟩ := isChain_cons.mp chain
      cases first : (rest ++ [exit]).head? with
      | none => simp at first
      | some next => exact .next (leads next first) (ih.mpr ⟨first, chain⟩)

end

theorem joins_ofTree (well : arena.WellNumbered) {exit : Syntree}
    (inside : tree ∈ arena.tree.subtrees) (owns : tree.label.kind.isOwner)
    (plain : ∀ id < arena.size, arena.owner id = tree.label.id → isStructured (arena.kind id))
    (parts : tree.children = entry :: exit :: rest) (source target : Nat) :
    Joins (ofTree tree).edges source target ↔
      (Code.seq (.visit entry.label.id) (.ofOwner tree)).Goes (Scope.env [] exit.label.id)
        exit.label.id source target := by
  have numbered := well.linked inside tree tree.self_mem_subtrees
  have draws := draws_body well plain exit.label.id inside owns rfl
    [(entry.label.id, .fallthrough)] source target
  have joins : Joins (ofTree tree).edges source target ↔ PieceLeads [] exit.label.id
      (body exit.label.id tree [(entry.label.id, .fallthrough)]) source target := by
    simp only [Joins, mem_edges_ofTree parts numbered, exists_or, PieceLeads,
      EmittedLeads, Scope.after?, reverse_nil, getElem?_nil, Option.map_none,
      reduceCtorEq, and_false, exists_false, or_false]
    rw [← joins_connect]
    rfl
  rw [joins, draws, isOpen_single]
  rfl

structure IsPath (graph : ControlGraph) (path : List Nat) : Prop where
  first : path.head? = some graph.entry
  last : path.getLast? = some graph.exit
  joined : path.IsChain (Joins graph.edges)

theorem isPath_iff_walk {graph : ControlGraph} {path : List Nat} : IsPath graph path ↔
    ∃ walk, Walk (Joins graph.edges) graph.exit graph.entry walk ∧ path = walk ++ [graph.exit] := by
  constructor
  · rintro ⟨first, last, joined⟩
    obtain ⟨walk, rfl⟩ := getLast?_eq_some_iff.mp last
    exact ⟨walk, walk_iff_isChain.mpr ⟨first, joined⟩, rfl⟩
  · rintro ⟨walk, walks, rfl⟩
    obtain ⟨first, joined⟩ := walk_iff_isChain.mp walks
    exact ⟨first, getLast?_concat, joined⟩

theorem runs_entry_iff {code : Code} {entry : Nat} :
    (∃ ending, Runs (.seq (.visit entry) code) walk ending) ↔
      ∃ trace ending, Runs code trace ending ∧ walk = entry :: trace := by
  constructor
  · rintro ⟨ending, runs⟩
    cases runs with
    | seq here there =>
      cases here
      exact ⟨_, ending, there, rfl⟩
    | abrupt here jumps =>
      cases here
      exact absurd rfl jumps
  · rintro ⟨trace, ending, runs, rfl⟩
    exact ⟨ending, .seq .visit runs⟩

theorem isPath_ofTree (well : arena.WellNumbered) (laid : arena.LaidOut)
    (inside : tree ∈ arena.tree.subtrees) (owns : tree.label.kind.isOwner)
    (plain : ∀ id < arena.size, arena.owner id = tree.label.id → isStructured (arena.kind id))
    (path : List Nat) : IsPath (ofTree tree) path ↔
      ∃ trace ending, Runs (.ofOwner tree) trace ending ∧
        path = (ofTree tree).entry :: (trace ++ [(ofTree tree).exit]) := by
  obtain ⟨entry, exit, rest, parts, -, -⟩ := laid.exists_ends inside owns
  have numbered := well.linked inside tree tree.self_mem_subtrees
  have isEntry : (ofTree tree).entry = entry.label.id := by
    simp [ofTree, numbered, parts]
  have isExit : (ofTree tree).exit = exit.label.id := by
    simp [ofTree, numbered, parts]
  have distinct := nodup_ofOwner laid well inside parts
  simp only [nodup_cons, mem_cons, not_or] at distinct
  obtain ⟨⟨different, fresh⟩, inner, distinct⟩ := distinct
  have walks := walk_iff_runs (fun ending => by cases ending <;> rfl)
    (joins_ofTree well inside owns plain parts) (nodup_cons.mpr ⟨fresh, distinct⟩)
    (fun member => (mem_cons.mp member).elim (fun same => different same.symm) inner)
  rw [isPath_iff_walk, isEntry, isExit]
  constructor
  · rintro ⟨walk, walked, rfl⟩
    obtain ⟨trace, ending, runs, rfl⟩ := runs_entry_iff.mp ((walks walk).mp walked)
    exact ⟨trace, ending, runs, rfl⟩
  · rintro ⟨trace, ending, runs, rfl⟩
    exact ⟨_, (walks _).mpr (runs_entry_iff.mpr ⟨trace, ending, runs, rfl⟩), rfl⟩

theorem isPath_iff_runs {file : Script.File} {arena : Arena} (read : Arena.ofFile file = .ok arena)
    {graph : ControlGraph} (made : graph ∈ (ControlFlow.ofArena arena).graphs)
    (plain : ∀ id < arena.size, arena.owner id = graph.owner → isStructured (arena.kind id)) :
    (∀ path, IsPath graph path ↔
      ∃ trace ending, Runs (.ofOwner (arena.subtree graph.owner)) trace ending ∧
        path = graph.entry :: (trace ++ [graph.exit])) ∧
    ((Code.ofOwner (arena.subtree graph.owner)).targeted [] [] →
      ∀ trace ending, Runs (.ofOwner (arena.subtree graph.owner)) trace ending →
        ending = .normal ∨ ending = .departed) := by
  obtain ⟨well, laid⟩ := Arena.shaped_ofFile read
  constructor
  · obtain ⟨tree, inside, isOwner, rfl⟩ := ControlFlow.exists_tree well made
    rw [ControlGraph.owner_ofTree] at plain ⊢
    rw [well.subtree_eq inside]
    exact isPath_ofTree well laid inside isOwner plain
  · intro targeted trace ending runs
    have within := runs.within targeted
    cases ending <;> simp [Ending.within] at within ⊢

-- Jumps to a labelled loop from inside a choice: `l: for (a; b; c) { switch (d) { case e: continue
-- l; default: if (f) break l; } } while (g) h();`.
def labelledLoop : Script.File := .sample [
  .labeled "l" (.forStmt (some (.expr (.ident "a"))) (some (.ident "b")) (some (.ident "c")) (.block
    (.mk [.switchStmt (.ident "d") [.mk (some (.ident "e")) [.continueStmt (some "l") {}] {}, .mk
    none [.ifThen (.ident "f") (.breakStmt (some "l") {}) {}] {}] {}] {})) {}) {},
  .whileStmt (.ident "g") (.expr (.call (.ident "h") [] false {}) {}) {}]

theorem isPath_iff_runs_labelledLoop : ∃ arena, Arena.ofFile labelledLoop = .ok arena ∧
      ∃ graph ∈ (ControlFlow.ofArena arena).graphs,
        (∀ path, IsPath graph path ↔
          ∃ trace ending, Runs (.ofOwner (arena.subtree graph.owner)) trace ending ∧
            path = graph.entry :: (trace ++ [graph.exit])) ∧
        ∃ ending, Runs (.ofOwner (arena.subtree graph.owner))
          [5, 4, 9, 11, 13, 7, 4, 9, 14, 15, 17, 18] ending ∧
            (ending = .normal ∨ ending = .departed) := by
  have read : Arena.ofFile labelledLoop = .ok _ := rfl
  obtain ⟨paths, endings⟩ := isPath_iff_runs read (List.mem_singleton_self _) (by decide +kernel)
  refine ⟨_, read, _, List.mem_singleton_self _, paths, ?_⟩
  obtain ⟨trace, ending, runs, same⟩ :=
    (paths [1, 5, 4, 9, 11, 13, 7, 4, 9, 14, 15, 17, 18, 2]).mp ⟨rfl, rfl, by decide +kernel⟩
  obtain rfl : [5, 4, 9, 11, 13, 7, 4, 9, 14, 15, 17, 18] = trace :=
    List.append_cancel_right (List.cons.inj same).2
  exact ⟨ending, runs, endings (by decide +kernel) _ ending runs⟩

end Seepage.Structured

import Seepage.Proofs.Flow.Events
import Seepage.Proofs.Flow.Partition
import Seepage.Proofs.Scope.Recording
import Seepage.Proofs.Sorting
import Seepage.Proofs.Tree.Positions

set_option autoImplicit false

namespace Seepage

open List ControlFlow Arena

variable {position vertex : Nat} {event : Event} {op name : String} {rest : List Syntree}
  {head object : Syntree} {graph : ControlGraph} {kind : Kind} {outer seat : Seat}

def Kind.targets (kind : Kind) (position : Nat) : Bool :=
  match kind with
  | .assign _ | .declarator _ | .assignPattern | .forIn | .forOf => position == 0
  | .catchClause hasParam => position < hasParam.toNat
  | .function _ _ paramCount _ => 2 ≤ position && position < 2 + paramCount
  | .arrayPattern | .rest => true
  | _ => false

namespace Arena

def isTarget (arena : Arena) (id : Nat) : Bool :=
  (arena.parent? id).any fun parent =>
    (arena.kind parent).targets ((arena.children parent).idxOf id) ||
      (arena.parent? parent).any (fun above => arena.kind above = .objectPattern) &&
        arena.propertyValue? parent = some id

def isLoopValue (arena : Arena) (id : Nat) : Bool :=
  (arena.parent? id).any fun declarator =>
    arena.kind declarator = .declarator true && arena.child? declarator 1 = some id &&
      (arena.parent? declarator).any fun head => (arena.parent? head).any fun loop =>
        (arena.kind loop = .forIn || arena.kind loop = .forOf) && arena.child? loop 0 = some head

def inLoopValue (arena : Arena) (id : Nat) : Bool :=
  (id :: arena.ancestors id).any arena.isLoopValue

end Arena

theorem pair_cases {α : Type} {first second item : α} {rest : List α}
    (found : (first :: second :: rest)[position]? = some item)
    (few : (first :: second :: rest).length ≤ 2) :
    position = 0 ∧ item = first ∨ position = 1 ∧ item = second := by
  obtain rfl : rest = [] := by simpa using few
  rcases position with _ | _ | position
  · exact .inl ⟨rfl, by simpa using found.symm⟩
  · exact .inr ⟨rfl, by simpa using found.symm⟩
  · simp at found

namespace Event

section

variable {resolution : Resolution} {control : ControlFlow} {vertex : Nat}

theorem mem_ofTrees {mode : Mode} {trees : List Syntree} {tree : Syntree} (listed : tree ∈ trees)
    (member : event ∈ ofTree resolution control vertex mode tree) :
    event ∈ ofTrees resolution control vertex mode trees := by
  induction trees with
  | nil => cases listed
  | cons first rest ih =>
    rw [ofTrees, mem_append]
    rcases mem_cons.mp listed with rfl | later
    · exact .inl member
    · exact .inr (ih later)

def Leads (mode : Mode) (kind : Kind) (position : Nat) : Mode → Prop
  | .expr => True
  | .pattern _ => kind.targets position ∨ (∃ defines, mode = .member defines) ∧
      ((∃ name, kind = .property (.named name)) ∧ position = 0 ∨
        kind = .property .computed ∧ position = 1)
  | .member _ => kind = .objectPattern

theorem exists_mode {mode : Mode} {node : Node} {children : List Syntree}
    (counted : node.kind.counts children.length)
    (here : node.id = vertex ∨ control.statementOf node.id = some vertex)
    (plain : node.kind.isFunction = false) (nothing : ∀ source, node.kind ≠ .importDecl source)
    {position : Nat} {child : Syntree} (found : children[position]? = some child) :
    ∃ next, (∀ event ∈ ofTree resolution control vertex next child,
      event ∈ ofTree resolution control vertex mode (.node node children)) ∧
        Leads mode node.kind position next := by
  obtain ⟨least, most⟩ := Kind.counts_iff.mp counted
  obtain ⟨bound, -⟩ := List.getElem?_eq_some_iff.mp found
  have member := mem_of_getElem? found
  generalize same : ofTree resolution control vertex mode (.node node children) = events
  unfold ofTree at same
  split at same
  case h_1 isProperty =>
    refine ⟨_, fun event inner => same ▸ mem_ofTrees member inner, ?_⟩
    have few := most 1 (by rw [isProperty]; rfl)
    exact .inr ⟨⟨_, rfl⟩, .inl ⟨⟨_, isProperty⟩, by omega⟩⟩
  case h_2 key values isProperty =>
    have few := most 2 (by rw [isProperty]; rfl)
    cases position with
    | zero =>
      obtain rfl : key = child := by simpa using found
      exact ⟨.expr, fun event inner => same ▸ mem_append_left _ inner, trivial⟩
    | succ position =>
      refine ⟨_, fun event inner => same ▸ mem_append_right _
        (mem_ofTrees (mem_of_getElem? (i := position) (by simpa using found)) inner), ?_⟩
      exact .inr ⟨⟨_, rfl⟩, .inr ⟨isProperty, by omega⟩⟩
  case h_3 => cases bound
  case h_4 =>
    split at same
    case h_1 isIdent _ _ =>
      have few := most 0 (by rw [isIdent]; rfl)
      omega
    case h_2 isPattern _ _ =>
      exact ⟨_, fun event inner => same ▸ mem_ofTrees member inner, isPattern⟩
    case h_3 isPattern _ _ =>
      refine ⟨_, fun event inner => same ▸ mem_ofTrees member inner, .inl ?_⟩
      rw [isPattern]
      rfl
    case h_4 isPattern _ _ =>
      have few := most 2 (by rw [isPattern]; rfl)
      rcases pair_cases found few with ⟨rfl, rfl⟩ | ⟨rfl, rfl⟩
      · refine ⟨_, fun event inner => same ▸ mem_append_right _ inner, .inl ?_⟩
        rw [isPattern]
        rfl
      · exact ⟨.expr, fun event inner => same ▸ mem_append_left _ inner, trivial⟩
    case h_5 isRest _ _ =>
      have few := most 1 (by rw [isRest]; rfl)
      obtain rfl : position = 0 := by omega
      obtain rfl := Option.some.inj found
      refine ⟨_, fun event inner => same ▸ inner, .inl ?_⟩
      rw [isRest]
      rfl
    case h_6 =>
      have evaluated : ¬(node.id != vertex && control.statementOf node.id != some vertex) := by
        simpa [Decidable.or_iff_not_imp_left] using here
      rw [if_neg evaluated] at same
      split at same
      case h_1 isFunction _ _ _ _ =>
        rw [isFunction] at plain
        cases plain
      case h_2 => exact ⟨.expr, fun event inner => same ▸ mem_append_left _
        (mem_ofTrees member inner), trivial⟩
      case h_3 isDeclarator _ _ _ _ =>
        have few := most 2 (by rw [isDeclarator]; rfl)
        rcases pair_cases found few with ⟨rfl, rfl⟩ | ⟨rfl, rfl⟩
        · refine ⟨_, fun event inner => same ▸ mem_append_right _ inner, .inl ?_⟩
          rw [isDeclarator]
          rfl
        · exact ⟨.expr, fun event inner => same ▸ mem_append_left _ inner, trivial⟩
      case h_4 isDeclarator _ _ _ _ =>
        have few := most 1 (by rw [isDeclarator]; rfl)
        obtain rfl : position = 0 := by omega
        obtain rfl := Option.some.inj found
        refine ⟨_, fun event inner => same ▸ inner, .inl ?_⟩
        rw [isDeclarator]
        rfl
      case h_5 isImport _ _ _ _ => exact absurd isImport (nothing _)
      case h_6 isAssign _ _ _ _ =>
        have few := most 2 (by rw [isAssign]; rfl)
        rcases pair_cases found few with ⟨rfl, rfl⟩ | ⟨rfl, rfl⟩
        · refine ⟨_, fun event inner => same ▸ mem_append_right _ inner, ?_⟩
          split
          · trivial
          · rw [isAssign]
            exact .inl rfl
        · exact ⟨.expr, fun event inner => same ▸ mem_append_left _
            (mem_append_right _ inner), trivial⟩
      case h_7 isIdent _ _ _ _ =>
        have few := most 0 (by rw [isIdent]; rfl)
        omega
      case h_8 => exact ⟨.expr, fun event inner => same ▸ mem_ofTrees member inner, trivial⟩

theorem mem_ofTree_updated {mode : Mode} {node : Node} (isAssign : node.kind = .assign op)
    (changes : op ≠ "=") (here : node.id = vertex ∨ control.statementOf node.id = some vertex)
    {target value : Syntree} {role : Role} (isIdent : target.label.kind = .ident name role)
    (member : event ∈ usage resolution target.label.id) :
    event ∈ ofTree resolution control vertex mode (.node node (target :: value :: rest)) := by
  have evaluated : ¬(node.id != vertex && control.statementOf node.id != some vertex) := by
    simpa [Decidable.or_iff_not_imp_left] using here
  unfold ofTree
  cases mode <;>
    simp only [isAssign, Mode.defines?, if_neg evaluated] <;>
    exact mem_append_left _ (mem_append_left _ (by simpa [isIdent, changes] using member))

end

end Event

namespace Arena

variable {arena : Arena} (well : arena.WellNumbered) {tree child : Syntree}
  (inside : tree ∈ arena.tree.subtrees) {position : Nat}
  (found : tree.children[position]? = some child)

include well inside found

theorem child?_eq : arena.child? tree.label.id position = some child.label.id := by
  rw [child?, well.children_eq inside, getElem?_map, found, Option.map_some]

theorem isTarget_child : arena.isTarget child.label.id =
    (tree.label.kind.targets position ||
      (arena.parent? tree.label.id).any (fun above => arena.kind above = .objectPattern) &&
        arena.propertyValue? tree.label.id = some child.label.id) := by
  rw [isTarget, well.parent_child inside (mem_of_getElem? found), Option.any_some,
    well.idxOf_child inside found, well.kind_eq inside]

theorem inLoopValue_child (held : arena.inLoopValue tree.label.id) :
    arena.inLoopValue child.label.id := by
  have below := mem_of_getElem? found
  rw [inLoopValue, well.ancestors_eq (Rose.child_inside below inside),
    well.ancestors_child inside below, ← well.ancestors_eq inside]
  exact Bool.or_eq_true_iff.mpr (.inr held)

def Fits (arena : Arena) (id : Nat) : Event.Mode → Prop
  | .expr => True
  | .pattern _ => arena.isTarget id
  | .member _ => (arena.parent? id).any fun above => arena.kind above = .objectPattern

theorem fits_of_leads {mode next : Event.Mode} (fits : arena.Fits tree.label.id mode)
    (leads : Event.Leads mode tree.label.kind position next) : arena.Fits child.label.id next := by
  have below := mem_of_getElem? found
  cases next with
  | expr => trivial
  | member =>
    rw [Fits, well.parent_child inside below, Option.any_some, well.kind_eq inside]
    exact decide_eq_true leads
  | pattern =>
    rw [Fits, isTarget_child well inside found, Bool.or_eq_true, Bool.and_eq_true]
    rcases leads with targets | ⟨⟨defines, rfl⟩, isValue⟩
    · exact .inl targets
    · refine .inr ⟨fits, decide_eq_true ?_⟩
      have isChild := child?_eq well inside found
      rcases isValue with ⟨⟨name, isNamed⟩, rfl⟩ | ⟨isComputed, rfl⟩
      · simp only [propertyValue?, well.kind_eq inside, isNamed, isChild]
      · simp only [propertyValue?, well.kind_eq inside, isComputed, isChild]

end Arena

namespace Kind

def binds : Kind → Bool
  | .forIn | .forOf | .catchClause true => true
  | _ => false

def isOutline : Kind → Bool
  | .program | .entry | .exit | .block | .labeled _ => true
  | _ => false

end Kind

namespace ControlFlow

section

variable {arena : Arena} (well : arena.WellNumbered) (laid : arena.LaidOut) {tree : Syntree}
  (inside : tree ∈ arena.tree.subtrees)

include well laid inside

theorem isVertex_iff_stands (inner : tree.label.kind.isOutline = false) :
    isVertex arena tree.label.id ↔ arena.stands tree.label.id := by
  have lower : tree.label.id ≠ root := by
    intro isRoot
    obtain rfl := well.eq_of_id inside arena.tree.self_mem_subtrees (isRoot.trans well.id_tree.symm)
    rw [laid.program] at inner
    cases inner
  rw [isVertex_iff well]
  constructor
  · rintro ⟨graph, made, -, listed⟩
    obtain ⟨rest, vertices, places⟩ := vertices_graph well laid made
    have owns : (arena.kind graph.owner).isOwner := by
      obtain ⟨owner, within, owns, rfl⟩ := exists_tree well made
      rwa [ControlGraph.owner_ofTree, well.kind_eq within]
    obtain ⟨-, -, isEntry, isExit⟩ := ends_of_owner well laid (owner_lt well made) owns
    rw [vertices] at listed
    rcases mem_cons.mp listed with same | listed
    · rw [← same, well.kind_eq inside] at isEntry
      rw [isEntry] at inner
      cases inner
    rcases mem_cons.mp listed with same | listed
    · rw [← same, well.kind_eq inside] at isExit
      rw [isExit] at inner
      cases inner
    · exact ((places _).mp listed).2
  · intro stands
    obtain ⟨graph, made, same, -⟩ := exists_statementOf well laid inside lower
    obtain ⟨rest, vertices, places⟩ := vertices_graph well laid made
    refine ⟨graph, made, same, ?_⟩
    rw [vertices]
    simp [(places _).mpr ⟨same.symm, stands⟩]

end

end ControlFlow

namespace Event

open ControlFlow (isVertex)

structure Collected (arena : Arena) (resolution : Resolution) (graph : ControlGraph) (vertex : Nat)
    (mode : Mode) (tree : Syntree) : Prop where
  made : graph ∈ (ofArena arena).graphs
  listed : vertex ∈ graph.vertices
  here : (ofArena arena).statementOf tree.label.id = some vertex
  part : ∀ event ∈ ofTree resolution (ofArena arena) vertex mode tree,
    event ∈ ofVertex arena resolution (ofArena arena) graph.owner vertex
  fits : arena.Fits tree.label.id mode

section

variable {arena : Arena} (well : arena.WellNumbered) {tree child : Syntree}
  (inside : tree ∈ arena.tree.subtrees) {resolution : Resolution}

include well inside

theorem ofVertex_eq (inner : tree.label.kind.isOutline = false)
    (plain : tree.label.kind.binds = false) (control : ControlFlow) (owner : Nat) :
    ofVertex arena resolution control owner tree.label.id =
      ofTree resolution control tree.label.id .expr tree := by
  rw [ofVertex, well.subtree_eq inside]
  split
  case h_1 isEntry =>
    rw [isEntry] at inner
    cases inner
  case h_2 isFunction =>
    obtain ⟨node, children⟩ := tree
    rw [Rose.label] at isFunction
    rw [Rose.label]
    unfold ofTree
    simp [isFunction, Mode.defines?]
  case h_3 isLoop _ | h_4 isLoop _ | h_5 isLoop _ =>
    rw [isLoop] at plain
    cases plain
  case h_6 => rfl

theorem ofVertex_loop (isLoop : tree.label.kind = .forIn ∨ tree.label.kind = .forOf)
    (parts : tree.children = head :: object :: rest) (control : ControlFlow) (owner : Nat) :
    ofVertex arena resolution control owner tree.label.id =
      ofTree resolution control tree.label.id .expr object ++
        ofTrees resolution control tree.label.id (.pattern true) (iterationPatterns head) := by
  rcases isLoop with isLoop | isLoop <;>
    simp only [ofVertex, well.subtree_eq inside, isLoop, parts]

variable {position : Nat} (found : tree.children[position]? = some child)
  (inner : ¬isVertex arena child.label.id)

include found inner

theorem Collected.step {mode : Mode} (held : Collected arena resolution graph vertex mode tree)
    (counted : tree.label.kind.counts tree.children.length)
    (plain : tree.label.kind.isOwner = false)
    (nothing : ∀ source, tree.label.kind ≠ .importDecl source) :
    ∃ next, Collected arena resolution graph vertex next child := by
  have below := mem_of_getElem? found
  have quiet : tree.label.kind.isFunction = false := by
    cases kind : tree.label.kind <;> first | rfl | (rw [kind] at plain; cases plain)
  obtain ⟨next, parts, leads⟩ := @exists_mode resolution (ofArena arena) vertex mode
    tree.label tree.children counted (.inr held.here) quiet nothing position child found
  refine ⟨next, held.made, held.listed, ?_, fun event member => held.part event ?_,
    fits_of_leads well inside found held.fits leads⟩
  · rw [statementOf_child well inside below plain inner, held.here]
  · obtain ⟨node, children⟩ := tree
    exact parts event member

theorem exists_collected_param (laid : arena.LaidOut) {name : Option String} {form : FunctionForm}
    {paramCount : Nat} {exprBody : Bool}
    (isFunction : tree.label.kind = .function name form paramCount exprBody)
    (late : 2 ≤ position) (early : position < 2 + paramCount) :
    ∃ graph vertex, Collected arena resolution graph vertex (.pattern true) child := by
  have below := mem_of_getElem? found
  have owns : tree.label.kind.isOwner := by
    rw [isFunction]
    rfl
  obtain ⟨graph, made, same⟩ := exists_graph well inside owns
  obtain ⟨rest, vertices, -⟩ := vertices_graph well laid made
  obtain ⟨entry, exit, others, parts, isEntry, -⟩ := laid.exists_ends inside owns
  have first : arena.child? tree.label.id 0 = some entry.label.id :=
    child?_eq well inside (by rw [parts]; rfl)
  have isFirst : arena.entryOf tree.label.id = entry.label.id := by
    rw [entryOf, first, Option.getD_some]
  have listed : child ∈ paramTrees tree := by
    have bound : position - 2 < paramCount := by omega
    simp only [paramTrees, isFunction]
    refine mem_of_getElem? (i := position - 2) ?_
    rw [getElem?_take_of_lt bound, getElem?_drop, Nat.add_sub_of_le late, found]
  refine ⟨graph, entry.label.id, made, ?_, ?_, fun event member => ?_, ?_⟩
  · simp [vertices, same, isFirst]
  · rw [statementOf_owned well inside below owns inner, isFirst]
  · rw [ofVertex, well.subtree_eq (Rose.child_inside (by simp [parts]) inside), same,
      well.subtree_eq inside]
    simp only [isEntry]
    exact mem_ofTrees listed member
  · rw [Arena.Fits, isTarget_child well inside found, isFunction]
    simp [Kind.targets, late, early]

end

end Event

namespace Kind

theorem quiet_of_still {part : Kind} (admitted : (kind.seat outer position).admits part)
    (still : kind.stands position part = false) (inner : part.isOutline = false) :
    (kind.seat outer position).isQuiet ∧ ∀ end_, kind.seat outer position ≠ .marker end_ := by
  cases place : kind.seat outer position with
  | top =>
    rw [place] at admitted
    rw [eq_of_beq admitted] at inner
    cases inner
  | marker =>
    rw [place] at admitted
    rcases Seat.admits_marker.mp admitted with ⟨rfl, -⟩ | ⟨rfl, -⟩ <;> cases inner
  | guarded =>
    rw [place] at admitted
    rw [Kind.eq_block admitted] at inner
    cases inner
  | statement | body | case | handler | finalizer =>
    have loud := Seat.top_of_loud rfl place
    simp only [stands, loud] at still
    cases part <;> first | cases inner; done | cases still
  | _ => exact ⟨rfl, by simp⟩

end Kind

namespace Event

open ControlFlow (isVertex)

structure LoopHead (arena : Arena) (loop head : Syntree) : Prop where
  above : loop ∈ arena.tree.subtrees
  vertex : isVertex arena loop.label.id
  isLoop : loop.label.kind = .forIn ∨ loop.label.kind = .forOf
  parts : ∃ object rest, loop.children = head :: object :: rest
  declares : ∃ kind, head.label.kind = .varDecl kind
  here : (ofArena arena).statementOf head.label.id =
    (ofArena arena).statementOf loop.label.id

inductive Evaluated (arena : Arena) (resolution : Resolution) (tree : Syntree) : Prop where
  | read (graph : ControlGraph) (vertex : Nat) (mode : Mode)
    (held : Collected arena resolution graph vertex mode tree)
  | binds (vertex : isVertex arena tree.label.id) (binding : tree.label.kind.binds)
  | outline (outer : tree.label.kind.isOutline)
  | imported (declared : ∃ name kind, tree.label.kind = .ident name (.declare kind))
  | head (loop : Syntree) (heads : LoopHead arena loop tree)
  | declarator (loop head : Syntree) (heads : LoopHead arena loop head)
    (below : tree ∈ head.children) (isDeclarator : ∃ hasInit, tree.label.kind = .declarator hasInit)
    (here : (ofArena arena).statementOf tree.label.id =
      (ofArena arena).statementOf loop.label.id)
  | value (inner : arena.inLoopValue tree.label.id)

theorem Evaluated.of_vertex {arena : Arena} (well : arena.WellNumbered) {tree part : Syntree}
    (inside : tree ∈ arena.tree.subtrees) {resolution : Resolution}
    (vertex : isVertex arena tree.label.id) {mode : Mode}
    (here : (ofArena arena).statementOf part.label.id =
      (ofArena arena).statementOf tree.label.id) (among : ∀ owner, ∀ event ∈
      ofTree resolution (ofArena arena) tree.label.id mode part,
        event ∈ ofVertex arena resolution (ofArena arena) owner tree.label.id)
    (fits : arena.Fits part.label.id mode) : Evaluated arena resolution part := by
  obtain ⟨graph, made, owned, listed⟩ := (isVertex_iff well).mp vertex
  refine .read graph tree.label.id mode ⟨made, listed, ?_, among graph.owner, fits⟩
  rw [here, statementOf_eq well (well.id_lt inside)]
  exact if_pos vertex

section

variable {arena : Arena} (well : arena.WellNumbered) {tree child : Syntree}
  (inside : tree ∈ arena.tree.subtrees) {resolution : Resolution}
  (counted : tree.label.kind.counts tree.children.length) {position : Nat}
  (found : tree.children[position]? = some child)

include well inside counted found

theorem Evaluated.of_declarator {loop : Syntree} (heads : LoopHead arena loop head)
    (below : tree ∈ head.children) (isDeclarator : ∃ hasInit, tree.label.kind = .declarator hasInit)
    (here : (ofArena arena).statementOf child.label.id =
      (ofArena arena).statementOf loop.label.id) : Evaluated arena resolution child := by
  obtain ⟨hasInit, isKind⟩ := isDeclarator
  obtain ⟨declKind, declares⟩ := heads.declares
  obtain ⟨object, rest, parts⟩ := heads.parts
  cases position with
  | zero =>
    have listed : child ∈ iterationPatterns head := by
      simp only [iterationPatterns, declares]
      refine mem_filterMap.mpr ⟨tree, below, ?_⟩
      rw [head?_eq_getElem?, found]
    have fits : arena.Fits child.label.id (.pattern true) := by
      rw [Arena.Fits, isTarget_child well inside found, isKind]
      rfl
    refine .of_vertex well heads.above heads.vertex here (fun owner event member => ?_) fits
    rw [ofVertex_loop well heads.above heads.isLoop parts]
    exact mem_append_right _ (mem_ofTrees listed member)
  | succ position =>
    obtain ⟨bound, -⟩ := List.getElem?_eq_some_iff.mp found
    have most := (Kind.counts_iff.mp counted).2 (1 + hasInit.toNat) (by rw [isKind]; rfl)
    have few : hasInit.toNat ≤ 1 := Bool.toNat_le hasInit
    obtain rfl : position = 0 := by omega
    obtain rfl : hasInit = true := by
      rw [← Bool.toNat_eq_one]
      omega
    have within : head ∈ arena.tree.subtrees :=
      Rose.child_inside (by simp [parts]) heads.above
    have first : arena.child? loop.label.id 0 = some head.label.id :=
      child?_eq well heads.above (by rw [parts]; rfl)
    have isLoop : arena.kind loop.label.id = .forIn ∨ arena.kind loop.label.id = .forOf := by
      rw [well.kind_eq heads.above]
      exact heads.isLoop
    have above : arena.parent? head.label.id = some loop.label.id :=
      well.parent_child heads.above (by simp [parts])
    have isValue : arena.isLoopValue child.label.id := by
      simp [isLoopValue, well.parent_child inside (mem_of_getElem? found),
        well.kind_eq inside, isKind, child?_eq well inside found,
        well.parent_child within below, above, first, isLoop]
    exact .value (by simp [inLoopValue, isValue])

variable {seat : Seat} (seated : Syntree.Seated seat tree)
  (quiet : (tree.label.kind.seat seat position).isQuiet)

include seated quiet

omit counted seated in
theorem Evaluated.of_loop (vertex : isVertex arena tree.label.id)
    (isLoop : tree.label.kind = .forIn ∨ tree.label.kind = .forOf)
    (parts : tree.children = head :: object :: rest)
    (here : (ofArena arena).statementOf child.label.id =
      (ofArena arena).statementOf tree.label.id) : Evaluated arena resolution child := by
  rcases position with _ | _ | position
  · obtain rfl : head = child := by simpa [parts] using found
    by_cases declares : ∃ kind, head.label.kind = .varDecl kind
    · exact .head tree ⟨inside, vertex, isLoop, ⟨object, rest, parts⟩, declares, here⟩
    · have listed : head ∈ iterationPatterns head := by
        unfold iterationPatterns
        split
        case h_1 kind isDecl => exact absurd ⟨kind, isDecl⟩ declares
        case h_2 => exact mem_singleton_self head
      have fits : arena.Fits head.label.id (.pattern true) := by
        rw [Arena.Fits, isTarget_child well inside found]
        rcases isLoop with isLoop | isLoop <;> rw [isLoop] <;> rfl
      refine .of_vertex well inside vertex here (fun owner event member => ?_) fits
      rw [ofVertex_loop well inside isLoop parts]
      exact mem_append_right _ (mem_ofTrees listed member)
  · obtain rfl : object = child := by simpa [parts] using found
    refine @Evaluated.of_vertex _ well _ _ inside _ vertex .expr here (fun owner event member => ?_)
      trivial
    rw [ofVertex_loop well inside isLoop parts]
    exact mem_append_left _ member
  · rcases isLoop with isLoop | isLoop <;> rw [isLoop] at quiet <;> cases quiet

omit seated in
theorem Evaluated.of_binds (vertex : isVertex arena tree.label.id) (binding : tree.label.kind.binds)
    (here : (ofArena arena).statementOf child.label.id =
      (ofArena arena).statementOf tree.label.id) : Evaluated arena resolution child := by
  obtain ⟨least, most⟩ := Kind.counts_iff.mp counted
  have loop (isLoop : tree.label.kind = .forIn ∨ tree.label.kind = .forOf) :
      Evaluated arena resolution child := by
    obtain ⟨head, object, body, parts⟩ : ∃ head object body, tree.children = [head, object, body] := by
      refine length_eq_three.mp (Nat.le_antisymm (most 3 ?_) ?_)
      · rcases isLoop with isLoop | isLoop <;> rw [isLoop] <;> rfl
      · rcases isLoop with isLoop | isLoop <;> rw [isLoop] at least <;> exact least
    exact .of_loop well inside found quiet vertex isLoop parts here
  cases isKind : tree.label.kind with
  | forIn => exact loop (.inl isKind)
  | forOf => exact loop (.inr isKind)
  | catchClause hasParam =>
    rw [isKind] at binding
    obtain rfl : hasParam = true := by
      cases hasParam
      · cases binding
      · rfl
    rcases position with _ | position
    · have fits : arena.Fits child.label.id (.pattern true) := by
        rw [Arena.Fits, isTarget_child well inside found, isKind]
        rfl
      refine .of_vertex well inside vertex here (fun owner event member => ?_) fits
      obtain ⟨node, children⟩ := tree
      cases children with
      | nil => cases found
      | cons param rest =>
        obtain rfl := Option.some.inj found
        have isKind : node.kind = .catchClause true := isKind
        simp only [ofVertex, well.subtree_eq inside]
        simpa only [Rose.label, Rose.children, isKind] using member
    · rw [isKind] at quiet
      cases quiet
  | _ => rw [isKind] at binding; cases binding

end

section

variable {arena : Arena} (well : arena.WellNumbered) (laid : arena.LaidOut) {tree child : Syntree}
  (inside : tree ∈ arena.tree.subtrees) {resolution : Resolution} {position : Nat}
  (found : tree.children[position]? = some child)

include well inside

theorem Evaluated.of_isVertex (vertex : isVertex arena tree.label.id) :
    Evaluated arena resolution tree := by
  by_cases outer : tree.label.kind.isOutline
  · exact .outline outer
  by_cases binding : tree.label.kind.binds
  · exact .binds vertex binding
  · refine @Evaluated.of_vertex _ well _ _ inside _ vertex .expr rfl (fun owner event member => ?_)
      trivial
    rwa [ofVertex_eq well inside (by simpa using outer) (by simpa using binding)]

include found

theorem Evaluated.of_owner (laid : arena.LaidOut) (owns : tree.label.kind.isOwner)
    (still : ¬isVertex arena child.label.id) (quiet : (tree.label.kind.seat seat position).isQuiet ∧
      ∀ end_, tree.label.kind.seat seat position ≠ .marker end_) :
    Evaluated arena resolution child := by
  cases kind : tree.label.kind with
  | program =>
    simp only [kind, Kind.seat] at quiet
    split at quiet
    · exact absurd rfl (quiet.2 position)
    · cases quiet.1
  | function name form paramCount exprBody =>
    simp only [kind, Kind.seat] at quiet
    split at quiet
    · exact absurd rfl (quiet.2 position)
    · split at quiet
      case isTrue late early =>
        obtain ⟨graph, vertex, held⟩ := exists_collected_param well inside found still laid kind
          (Nat.le_of_not_lt late) early
        exact .read graph vertex _ held
      case isFalse => cases quiet.1
  | _ => rw [kind] at owns; cases owns

theorem Evaluated.step (held : Evaluated arena resolution tree) (seated : Syntree.Seated seat tree)
    (plain : tree.label.kind.isOwner = false) (still : ¬isVertex arena child.label.id)
    (quiet : (tree.label.kind.seat seat position).isQuiet) : Evaluated arena resolution child := by
  have below := mem_of_getElem? found
  have admitted := (seated.child found).admits
  have here := statementOf_child well inside below plain still
  obtain ⟨bound, -⟩ := List.getElem?_eq_some_iff.mp found
  have leaf : tree.label.kind.most? ≠ some 0 := fun none_ =>
    absurd ((Kind.counts_iff.mp seated.counts).2 0 none_) (by omega)
  cases held with
  | read graph vertex mode held =>
    by_cases imports : ∃ source, tree.label.kind = .importDecl source
    · obtain ⟨source, isImport⟩ := imports
      rw [isImport] at admitted
      cases kind : child.label.kind with
      | ident name role =>
        rw [kind] at admitted
        cases role with
        | declare declared => exact .imported ⟨name, declared, kind⟩
        | _ => cases admitted
      | _ => rw [kind] at admitted; cases admitted
    · obtain ⟨next, held⟩ := held.step well inside found still seated.counts plain
        fun source isImport => imports ⟨source, isImport⟩
      exact .read graph vertex next held
  | binds vertex binding => exact .of_binds well inside seated.counts found quiet vertex binding here
  | outline outer =>
    cases kind : tree.label.kind with
    | block | labeled => rw [kind] at quiet; cases quiet
    | entry | exit => rw [kind] at leaf; exact absurd rfl leaf
    | program => rw [kind] at plain; cases plain
    | _ => rw [kind] at outer; cases outer
  | imported declared =>
    obtain ⟨name, kind, isIdent⟩ := declared
    rw [isIdent] at leaf
    exact absurd rfl leaf
  | head loop heads =>
    obtain ⟨declKind, declares⟩ := heads.declares
    rw [declares] at admitted
    cases kind : child.label.kind with
    | declarator hasInit =>
      exact .declarator loop tree heads below ⟨hasInit, kind⟩ (here.trans heads.here)
    | _ => rw [kind] at admitted; cases admitted
  | declarator loop head heads under isDeclarator there =>
    exact .of_declarator well inside seated.counts found heads under isDeclarator (here.trans there)
  | value inner => exact .value (inLoopValue_child well inside found inner)

omit found in
theorem evaluated (laid : arena.LaidOut) : Evaluated arena resolution tree := by
  refine Rose.downward inside (.outline (by rw [laid.program]; rfl)) ?_
  intro parent above held child below
  have within := Rose.child_inside below above
  by_cases vertex : isVertex arena child.label.id
  · exact .of_isVertex well within vertex
  by_cases outer : child.label.kind.isOutline
  · exact .outline outer
  obtain ⟨position, found⟩ := getElem?_of_mem below
  obtain ⟨seat, seated⟩ := laid.seated.subtree above
  have still := vertex
  rw [isVertex_iff_stands well laid within (by simpa using outer),
    well.stands_child above found] at still
  have quiet := Kind.quiet_of_still (seated.child found).admits (by simpa using still)
    (by simpa using outer)
  cases owns : parent.label.kind.isOwner with
  | true => exact .of_owner well above found laid owns vertex quiet
  | false => exact held.step well above found seated owns vertex quiet.1

end

end Event

namespace Kind

theorem changes_of_readWrite
    (admitted : (kind.seat outer position).admits (.ident name .readWrite)) :
    (∃ op before, kind = .update op before) ∨ ∃ op, kind = .assign op ∧ op ≠ "=" ∧ position = 0 := by
  have place : kind.seat outer position = .updated := by
    cases seat : kind.seat outer position <;> rw [seat] at admitted <;> first | rfl | cases admitted
  obtain passes | members | ⟨own, same⟩ := kind.seat_cases position
  · rw [passes] at place
    unfold Seat.target at place
    split at place <;> cases place
  · rw [members] at place
    cases outer <;> cases place
  · rw [same, ← same .top] at place
    cases kind with
    | update op before => exact .inl ⟨op, before, rfl⟩
    | assign op =>
      simp only [seat] at place
      split at place
      case isTrue changes => exact .inr ⟨op, rfl, changes.2, changes.1⟩
      case isFalse => cases place
    | property key =>
      cases key <;> simp only [seat] at place
      · cases place
      · split at place <;> cases place
    | _ =>
      simp only [seat] at place
      repeat' split at place
      all_goals cases place

end Kind

namespace Event

section

variable {arena : Arena} (well : arena.WellNumbered) (laid : arena.LaidOut) {tree : Syntree}
  (inside : tree ∈ arena.tree.subtrees) {name : String} {role : Role}
  (isIdent : tree.label.kind = .ident name role) (resolution : Resolution)
  (outside : arena.inLoopValue tree.label.id = false)

def Used (arena : Arena) (resolution : Resolution) (id : Nat) : Prop :=
  ∃ graph ∈ (ofArena arena).graphs, ∃ vertex ∈ graph.vertices,
    ∀ event ∈ usage resolution id,
      event ∈ ofVertex arena resolution (ofArena arena) graph.owner vertex

include well laid inside isIdent outside

theorem used_updated {parent : Syntree} (above : parent ∈ arena.tree.subtrees)
    (isAssign : parent.label.kind = .assign op) (changes : op ≠ "=")
    (found : parent.children[0]? = some tree) : Used arena resolution tree.label.id := by
  obtain ⟨seat, seated⟩ := laid.seated.subtree above
  cases @evaluated _ well _ above resolution laid with
  | read graph vertex mode held =>
    refine ⟨graph, held.made, vertex, held.listed, fun event member => held.part event ?_⟩
    have least := (Kind.counts_iff.mp seated.counts).1
    have here := held.here
    obtain ⟨node, children⟩ := parent
    simp only [Rose.label, Rose.children] at isAssign found least here
    rw [isAssign] at least
    obtain ⟨value, rest, rfl⟩ : ∃ value rest, children = tree :: value :: rest := by
      rcases children with _ | ⟨first, _ | ⟨second, rest⟩⟩
      · cases found
      · simp [Kind.leading] at least
      · obtain rfl := Option.some.inj found
        exact ⟨second, rest, rfl⟩
    exact mem_ofTree_updated isAssign changes (.inr here) isIdent member
  | binds vertex binding => rw [isAssign] at binding; cases binding
  | outline outer => rw [isAssign] at outer; cases outer
  | imported declared =>
    obtain ⟨_, _, declared⟩ := declared
    rw [isAssign] at declared
    cases declared
  | head loop heads =>
    obtain ⟨_, declares⟩ := heads.declares
    rw [isAssign] at declares
    cases declares
  | declarator loop head heads below isDeclarator here =>
    obtain ⟨_, isDeclarator⟩ := isDeclarator
    rw [isAssign] at isDeclarator
    cases isDeclarator
  | value inner =>
    rw [inLoopValue_child well above found inner] at outside
    cases outside

theorem used (reads : role.reads) (free : role = .read → arena.isTarget tree.label.id = false) :
    Used arena resolution tree.label.id := by
  obtain rfl | ⟨parent, above, below⟩ := Rose.exists_parent inside
  · rw [laid.program] at isIdent
    cases isIdent
  obtain ⟨position, found⟩ := getElem?_of_mem below
  obtain ⟨seat, seated⟩ := laid.seated.subtree above
  have admitted := (seated.child found).admits
  rw [isIdent] at admitted
  cases @evaluated _ well _ inside resolution laid with
  | read graph vertex mode held =>
    cases mode with
    | expr =>
      refine ⟨graph, held.made, vertex, held.listed, fun event member => held.part event ?_⟩
      have here := held.here
      obtain ⟨node, children⟩ := tree
      simp only [Rose.label] at isIdent here member
      unfold ofTree
      simp [isIdent, Mode.defines?, here, ofIdent, reads, member]
    | member defines =>
      have fits := held.fits
      rw [Arena.Fits, well.parent_child above below, Option.any_some, well.kind_eq above] at fits
      rw [of_decide_eq_true fits] at admitted
      cases seat <;> cases admitted
    | pattern defines =>
      have target := held.fits
      cases role with
      | read =>
        rw [Arena.Fits, free rfl] at target
        cases target
      | readWrite =>
        rcases Kind.changes_of_readWrite admitted with ⟨op, before, isUpdate⟩ |
          ⟨op, isAssign, changes, rfl⟩
        · rw [Arena.Fits, isTarget_child well above found] at target
          simp [Kind.targets, propertyValue?, well.kind_eq above, isUpdate] at target
        · exact used_updated well laid inside isIdent resolution outside above isAssign changes found
      | _ => cases reads
  | binds vertex binding => rw [isIdent] at binding; cases binding
  | outline outer => rw [isIdent] at outer; cases outer
  | imported declared =>
    obtain ⟨_, _, declared⟩ := declared
    rw [isIdent] at declared
    cases declared
    cases reads
  | head loop heads =>
    obtain ⟨_, declares⟩ := heads.declares
    rw [isIdent] at declares
    cases declares
  | declarator loop head heads below isDeclarator here =>
    obtain ⟨_, isDeclarator⟩ := isDeclarator
    rw [isIdent] at isDeclarator
    cases isDeclarator
  | value inner =>
    rw [inner] at outside
    cases outside

end

section

variable {arena : Arena} (well : arena.WellNumbered) (laid : arena.LaidOut) (resolution : Resolution)

include well laid

theorem filter_eventsAt (made : graph ∈ (ofArena arena).graphs) (listed : vertex ∈ graph.vertices)
    {id symbol : Nat} (member : .use id symbol ∈
      ofVertex arena resolution (ofArena arena) graph.owner vertex) :
    (((ofArena arena).graphs.flatMap (·.vertices)).flatMap
      (VariableUse.ofArena arena resolution (ofArena arena)).eventsAt).filter
        (isUseOf id) = [.use id symbol] := by
  have here := proper_ofVertex well laid resolution made listed _ member
  have distinct : ((ofArena arena).graphs.flatMap (·.vertices)).Nodup :=
    nodup_flatMap.mpr ⟨fun graph => nodup_graph, disjoint_graphs well laid⟩
  -- Only the vertex that evaluates the node lists a use of it, and no vertex lists two.
  rw [filter_flatMap_of_mem distinct (mem_flatMap.mpr ⟨graph, made, listed⟩),
    eventsAt_ofArena well laid resolution made listed]
  · have few := uses_ofVertex_le_one well laid resolution made listed id
    rw [uses, countP_eq_length_filter] at few
    have kept : .use id symbol ∈ (ofVertex arena resolution (ofArena arena) graph.owner
        vertex).filter (isUseOf id) := mem_filter.mpr ⟨member, beq_self_eq_true id⟩
    obtain ⟨event, single⟩ := length_eq_one_iff.mp
      (Nat.le_antisymm few (length_pos_of_mem kept))
    rw [single] at kept ⊢
    rw [mem_singleton.mp kept]
  · intro other among differ event found
    obtain ⟨graph', made', listed'⟩ := mem_flatMap.mp among
    rw [eventsAt_ofArena well laid resolution made' listed'] at found
    have there := proper_ofVertex well laid resolution made' listed' _ found
    cases event with
    | define => rfl
    | use node symbol' =>
      refine beq_eq_false_iff_ne.mpr ?_
      rintro rfl
      exact differ (Option.some.inj (there.2.symm.trans here.2))

end

theorem reads_used_once {file : Script.File} {arena : Arena} (read : Arena.ofFile file = .ok arena)
    {id : Nat} {name : String} {role : Role} (isIdent : arena.kind id = .ident name role)
    (reads : role.reads) (free : role = .read → arena.isTarget id = false)
    (outside : arena.inLoopValue id = false) :
    ∃ symbol vertex, (Resolution.ofArena arena).symbolOf[id]? = some symbol ∧
      (ControlFlow.ofArena arena).statementOf id = some vertex ∧
      let events := (VariableUse.ofArena arena (.ofArena arena) (.ofArena arena)).eventsAt
      .use id symbol ∈ events vertex ∧
      (((ControlFlow.ofArena arena).graphs.flatMap (·.vertices)).flatMap events).filter
        (isUseOf id) = [.use id symbol] := by
  obtain ⟨well, laid⟩ := Arena.shaped_ofFile read
  have known : id < arena.size := Arena.lt_size_of_kind (by rw [isIdent]; simp)
  obtain ⟨symbol, bound, -⟩ := (Resolution.recorded_ofArena well laid).bound id
    (List.mem_filter.mpr ⟨List.mem_range.mpr known, by rw [isIdent]; rfl⟩)
  obtain ⟨tree, inside, rfl⟩ := well.exists_subtree known
  rw [well.kind_eq inside] at isIdent
  obtain ⟨graph, made, vertex, listed, all⟩ :=
    used well laid inside isIdent (.ofArena arena) outside reads free
  have member := all (.use tree.label.id symbol) (by simp [usage, bound])
  refine ⟨symbol, vertex, bound, (proper_ofVertex well laid _ made listed _ member).2, ?_,
    filter_eventsAt well laid _ made listed member⟩
  rwa [ControlFlow.eventsAt_ofArena well laid _ made listed]

-- `for (let [k = x] of x) k += k;`
def defaultedLoop : Script.File := .sample [
  .forOf (.vars .letBinding [.mk (.array [.initialized (.ident "k") (.ident "x") {}] {}) none {}]
    {}) (.ident "x") (.expr (.assign "+=" (.ident "k") (.ident "k") {}) {}) {}]

theorem reads_used_once_defaultedLoop :
    ∃ arena, Arena.ofFile defaultedLoop = .ok arena ∧
      arena.kind 9 = .ident "x" .read ∧ arena.kind 13 = .ident "k" .readWrite ∧
      arena.isTarget 9 = false ∧ arena.isTarget 13 = true ∧
      arena.inLoopValue 9 = false ∧ arena.inLoopValue 13 = false ∧
      ∀ id, id = 9 ∨ id = 13 →
        ∃ symbol vertex, (Resolution.ofArena arena).symbolOf[id]? = some symbol ∧
          (ControlFlow.ofArena arena).statementOf id = some vertex ∧
          let events := (VariableUse.ofArena arena (.ofArena arena) (.ofArena arena)).eventsAt
          .use id symbol ∈ events vertex ∧
          (((ControlFlow.ofArena arena).graphs.flatMap (·.vertices)).flatMap events).filter
            (isUseOf id) = [.use id symbol] := by
  refine ⟨_, rfl, by decide, by decide, by decide, by decide, by decide, by decide, ?_⟩
  rintro id (rfl | rfl)
  · exact @reads_used_once defaultedLoop _ rfl 9 _ .read rfl rfl (fun _ => by decide) (by decide)
  · exact @reads_used_once defaultedLoop _ rfl 13 _ .readWrite rfl rfl (fun same => by cases same)
      (by decide)

end Event

end Seepage

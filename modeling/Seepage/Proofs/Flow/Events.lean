import Mathlib.Data.List.Nodup
import Seepage.Proofs.Flow.Vertices

set_option autoImplicit false

namespace Seepage.Event

open List ControlFlow
open Rose hiding node

variable {mode : Mode} {trees children rest : List Syntree} {event : Event} {node : Node}
  {tree head target : Syntree}

def Proper (resolution : Resolution) (control : ControlFlow) (vertex : Nat) : Event → Prop
  | .use node symbol =>
    resolution.symbolOf[node]? = some symbol ∧ control.statementOf node = some vertex
  | .define node symbol => resolution.symbolOf[node]? = some symbol

section

variable {resolution : Resolution} {control : ControlFlow} {vertex : Nat}

theorem proper_definition (id : Nat) :
    ∀ event ∈ definition resolution id, event.Proper resolution control vertex := by
  intro event member
  obtain ⟨symbol, known, rfl⟩ := mem_map.mp member
  exact Option.mem_toList.mp known

theorem proper_usage {id : Nat} (here : control.statementOf id = some vertex) :
    ∀ event ∈ usage resolution id, event.Proper resolution control vertex := by
  intro event member
  obtain ⟨symbol, known, rfl⟩ := mem_map.mp member
  exact ⟨Option.mem_toList.mp known, here⟩

def Arises (resolution : Resolution) (control : ControlFlow) (vertex : Nat) (node : Node)
    (children : List Syntree) (event : Event) : Prop :=
  (∃ child ∈ children, ∃ mode, event ∈ ofTree resolution control vertex mode child) ∨
    (∃ id, event ∈ definition resolution id) ∨
    (node.id = vertex ∨ control.statementOf node.id = some vertex) ∧
      (event ∈ usage resolution node.id ∨
        ∃ op, node.kind = .assign op ∧ ∃ target ∈ children,
          event ∈ usage resolution target.label.id)

theorem exists_of_mem_ofTrees (member : event ∈ ofTrees resolution control vertex mode trees) :
    ∃ child ∈ trees, ∃ mode, event ∈ ofTree resolution control vertex mode child := by
  induction trees with
  | nil => cases member
  | cons tree rest ih =>
    rw [ofTrees, mem_append] at member
    rcases member with here | there
    · exact ⟨tree, mem_cons_self, mode, here⟩
    · obtain ⟨child, below, found⟩ := ih there
      exact ⟨child, mem_cons_of_mem _ below, found⟩

theorem arises_of_mem
    (member : event ∈ ofTree resolution control vertex mode (.node node children)) :
    Arises resolution control vertex node children event := by
  unfold ofTree at member
  split at member
  case h_1 => exact .inl (exists_of_mem_ofTrees member)
  case h_2 =>
    rcases mem_append.mp member with first | second
    · exact .inl ⟨_, mem_cons_self, _, first⟩
    · obtain ⟨child, below, found⟩ := exists_of_mem_ofTrees second
      exact .inl ⟨child, mem_cons_of_mem _ below, found⟩
  case h_3 => cases member
  case h_4 =>
    split at member
    case h_1 =>
      split at member
      · exact .inr (.inl ⟨_, member⟩)
      · cases member
    case h_2 => exact .inl (exists_of_mem_ofTrees member)
    case h_3 => exact .inl (exists_of_mem_ofTrees member)
    case h_4 =>
      rcases mem_append.mp member with first | second
      · exact .inl ⟨_, by simp, _, first⟩
      · exact .inl ⟨_, by simp, _, second⟩
    case h_5 => exact .inl ⟨_, mem_cons_self, _, member⟩
    case h_6 =>
      split at member
      case isTrue => cases member
      case isFalse here =>
        have here : node.id = vertex ∨ control.statementOf node.id = some vertex := by
          simpa [Decidable.or_iff_not_imp_left] using here
        split at member
        case h_1 =>
          split at member
          · exact .inr (.inl ⟨_, member⟩)
          · cases member
        case h_2 =>
          rcases mem_append.mp member with first | second
          · exact .inl (exists_of_mem_ofTrees first)
          · exact .inr (.inl ⟨_, second⟩)
        case h_3 =>
          rcases mem_append.mp member with first | second
          · exact .inl ⟨_, by simp, _, first⟩
          · exact .inl ⟨_, by simp, _, second⟩
        case h_4 => exact .inl ⟨_, mem_cons_self, _, member⟩
        case h_5 =>
          obtain ⟨name, -, made⟩ := mem_flatMap.mp member
          exact .inr (.inl ⟨_, made⟩)
        case h_6 =>
          simp only [mem_append] at member
          rcases member with (before | first) | second
          · refine .inr (.inr ⟨here, .inr ⟨_, by assumption, _, mem_cons_self, ?_⟩⟩)
            split at before
            · cases before
            · exact before
            · cases before
          · exact .inl ⟨_, by simp, _, first⟩
          · exact .inl ⟨_, by simp, _, second⟩
        case h_7 =>
          rcases mem_append.mp member with used | made
          · split at used
            · exact .inr (.inr ⟨here, .inl used⟩)
            · cases used
          · split at made
            · exact .inr (.inl ⟨_, made⟩)
            · exact .inr (.inl ⟨_, made⟩)
            · cases made
            · cases made
        case h_8 => exact .inl (exists_of_mem_ofTrees member)

theorem mem_children_of_param {owner : Syntree} (listed : tree ∈ paramTrees owner) :
    tree ∈ owner.children := by
  unfold paramTrees at listed
  split at listed
  · exact mem_of_mem_drop (mem_of_mem_take listed)
  · cases listed

theorem mem_subtrees_of_pattern (listed : tree ∈ iterationPatterns head) :
    tree ∈ head.subtrees := by
  unfold iterationPatterns at listed
  split at listed
  · obtain ⟨declarator, below, first⟩ := mem_filterMap.mp listed
    exact child_inside (mem_of_head? first) (child_mem_subtrees below)
  · rw [mem_singleton.mp listed]
    exact head.self_mem_subtrees

end

section

variable {arena : Arena} (well : arena.WellNumbered) (laid : arena.LaidOut)
  (resolution : Resolution) {graph : ControlGraph}
  (made : graph ∈ (ofArena arena).graphs) {vertex : Nat}
  (member : vertex ∈ graph.vertices)

include well laid

theorem statementOf_target (inside : .node node children ∈ arena.tree.subtrees) {op : String}
    (isAssign : node.kind = .assign op) (below : target ∈ children) :
    (ofArena arena).statementOf target.label.id =
      (ofArena arena).statementOf node.id := by
  refine statementOf_child well inside below
    (by simp [Rose.label, isAssign, Kind.isOwner]) ?_
  intro isVertex
  obtain ⟨graph, made, -, member⟩ := (isVertex_iff well).mp isVertex
  refine ((tied_graph well laid made).1 _ member).apart node.id op ?_ ?_
  · exact well.parent_child inside below
  · rw [← isAssign]
    exact well.kind_eq inside

include made member

theorem proper_ofTree (inside : tree ∈ arena.tree.subtrees) (mode : Mode) :
    ∀ event ∈ ofTree resolution (ofArena arena) vertex mode tree,
      event.Proper resolution (ofArena arena) vertex := by
  have own := statementOf_vertex well made member
    ((tied_graph well laid made).1 vertex member)
  induction tree using byChildren generalizing mode with
  | node node children ih =>
    intro event found
    rcases arises_of_mem found with ⟨child, below, mode', deeper⟩ | ⟨id, defines⟩ |
      ⟨here, used | ⟨op, isAssign, target, below, used⟩⟩
    · exact ih child below (mem_subtrees_of_child below inside) mode' event deeper
    · exact proper_definition id event defines
    · refine proper_usage ?_ event used
      rcases here with same | here
      · rw [same, own]
      · exact here
    · refine proper_usage ?_ event used
      rw [statementOf_target well laid inside isAssign below]
      rcases here with same | here
      · rw [same, own]
      · exact here

theorem proper_ofTrees (inside : ∀ tree ∈ trees, tree ∈ arena.tree.subtrees)
    (mode : Mode) : ∀ event ∈ ofTrees resolution (ofArena arena) vertex mode trees,
      event.Proper resolution (ofArena arena) vertex := by
  intro event found
  obtain ⟨tree, listed, mode', here⟩ := exists_of_mem_ofTrees found
  exact proper_ofTree well laid resolution made member (inside tree listed) mode' event here

theorem proper_ofVertex :
    ∀ event ∈ ofVertex arena resolution (ofArena arena) graph.owner vertex,
      event.Proper resolution (ofArena arena) vertex := by
  have owned := (tied_graph well laid made).1 vertex member
  have inside := well.subtree_mem owned.known
  have below : ∀ child ∈ (arena.subtree vertex).children, child ∈ arena.tree.subtrees :=
    fun child listed => child_inside listed inside
  have params := well.subtree_mem (owner_lt well made)
  unfold ofVertex
  simp only
  split
  case h_1 =>
    refine proper_ofTrees well laid resolution made member (fun tree listed => ?_) _
    exact child_inside (mem_children_of_param listed) params
  case h_2 => exact proper_definition vertex
  case h_3 parts | h_4 parts =>
    refine forall_mem_append.mpr ⟨?_, ?_⟩
    · exact proper_ofTree well laid resolution made member (below _ (by simp [parts])) _
    · refine proper_ofTrees well laid resolution made member (fun tree listed => ?_) _
      exact subtrees_trans (mem_subtrees_of_pattern listed) (below _ (by simp [parts]))
  case h_5 parts =>
    exact proper_ofTree well laid resolution made member (below _ (by simp [parts])) _
  case h_6 => exact proper_ofTree well laid resolution made member inside _

end

def isUseOf (id : Nat) : Event → Bool
  | .use node _ => node == id
  | .define .. => false

def uses (id : Nat) (events : List Event) : Nat :=
  events.countP (isUseOf id)

def occurrences (id : Nat) (trees : List Syntree) : Nat :=
  ((subtreesAll trees).map (·.label.id)).count id

section

variable {id : Nat}

@[simp] theorem uses_nil : uses id [] = 0 := rfl

@[simp] theorem uses_append (first second : List Event) :
    uses id (first ++ second) = uses id first + uses id second :=
  countP_append

@[simp] theorem occurrences_nil : occurrences id [] = 0 := rfl

@[simp] theorem occurrences_cons (node : Node) (children rest : List Syntree) :
    occurrences id (.node node children :: rest) =
      (if node.id = id then 1 else 0) + occurrences id children + occurrences id rest := by
  simp only [occurrences, subtreesAll, Rose.subtrees, cons_append, map_cons,
    map_append, count_cons, count_append, Rose.label, beq_iff_eq]
  omega

theorem occurrences_append (first second : List Syntree) :
    occurrences id (first ++ second) = occurrences id first + occurrences id second := by
  induction first with
  | nil => simp
  | cons tree rest ih =>
    obtain ⟨node, children⟩ := tree
    simp only [cons_append, occurrences_cons, ih]
    omega

theorem occurrences_sublist {first second : List Syntree} (part : first.Sublist second) :
    occurrences id first ≤ occurrences id second := by
  induction part with
  | slnil => exact Nat.le_refl _
  | cons tree _ ih =>
    cases tree
    rw [occurrences_cons]
    omega
  | cons_cons tree _ ih =>
    cases tree
    rw [occurrences_cons, occurrences_cons]
    omega

variable {resolution : Resolution} {control : ControlFlow} {vertex : Nat}

@[simp] theorem uses_definition (node : Nat) : uses id (definition resolution node) = 0 := by
  refine countP_eq_zero.mpr fun event member => ?_
  obtain ⟨symbol, -, rfl⟩ := mem_map.mp member
  simp [isUseOf]

theorem uses_usage (node : Nat) : uses id (usage resolution node) ≤ if node = id then 1 else 0 := by
  rw [usage, uses]
  cases resolution.symbolOf[node]? with
  | none => simp
  | some symbol => by_cases same : node = id <;> simp [isUseOf, same]

def UsesOnce (resolution : Resolution) (control : ControlFlow) (vertex id : Nat)
    (tree : Syntree) : Prop :=
  ∀ mode, uses id (ofTree resolution control vertex mode tree) ≤ occurrences id [tree]

theorem occurrences_split (tree : Syntree) (rest : List Syntree) :
    occurrences id (tree :: rest) = occurrences id [tree] + occurrences id rest :=
  occurrences_append [tree] rest

theorem uses_ofTrees_le {trees : List Syntree}
    (each : ∀ tree ∈ trees, UsesOnce resolution control vertex id tree) (mode : Mode) :
    uses id (ofTrees resolution control vertex mode trees) ≤ occurrences id trees := by
  induction trees with
  | nil => exact Nat.le_refl _
  | cons tree rest ih =>
    obtain ⟨here, there⟩ := forall_mem_cons.mp each
    have first := here mode
    have others := ih there
    rw [ofTrees, uses_append, occurrences_split]
    omega

theorem uses_head_le
    (each : ∀ part ∈ tree :: rest, UsesOnce resolution control vertex id part) (mode : Mode) :
    uses id (ofTree resolution control vertex mode tree) ≤ occurrences id (tree :: rest) := by
  have first := each tree mem_cons_self mode
  rw [occurrences_split]
  omega

theorem uses_pair_le {first second : Syntree}
    (each : ∀ part ∈ first :: second :: rest, UsesOnce resolution control vertex id part)
    (mode mode' : Mode) : uses id (ofTree resolution control vertex mode first) +
      uses id (ofTree resolution control vertex mode' second) ≤
        occurrences id (first :: second :: rest) := by
  have one := each first mem_cons_self mode
  have other := uses_head_le (forall_mem_cons.mp each).2 mode'
  rw [occurrences_split]
  omega

theorem uses_flatMap_definition (trees : List Syntree) :
    uses id (trees.flatMap fun tree => definition resolution tree.label.id) = 0 := by
  induction trees with
  | nil => rfl
  | cons tree rest ih => rw [flatMap_cons, uses_append, uses_definition, ih]

theorem uses_ofIdent (node : Nat) (role : Role) :
    uses id (ofIdent resolution node role) ≤ if node = id then 1 else 0 := by
  have used := @uses_usage id resolution node
  cases role <;> simp only [ofIdent, Role.reads, uses_append, uses_definition, uses_nil, if_true,
    Bool.false_eq_true, if_false] <;> omega

theorem ofTree_pattern_ident {name : String} {role : Role}
    (isIdent : node.kind = .ident name role) :
    ofTree resolution control vertex (.pattern true) (.node node children) =
      definition resolution node.id := by
  unfold ofTree
  simp [isIdent, Mode.defines?]

theorem uses_assign_le {value : Syntree}
    (each : ∀ part ∈ target :: value :: rest, UsesOnce resolution control vertex id part)
    {before : List Event}
    (first : before = [] ∨ (∃ name role, target.label.kind = .ident name role) ∧
      before = usage resolution target.label.id ∧ mode = .pattern true) :
    uses id (before ++ ofTree resolution control vertex .expr value ++
      ofTree resolution control vertex mode target) ≤ occurrences id (target :: value :: rest) := by
  have second := uses_head_le (forall_mem_cons.mp each).2 .expr
  have own : uses id before + uses id (ofTree resolution control vertex mode target) ≤
      occurrences id [target] := by
    rcases first with rfl | ⟨⟨name, role, isIdent⟩, rfl, rfl⟩
    · have := each target mem_cons_self mode
      rw [uses_nil]
      omega
    · obtain ⟨node, children⟩ := target
      have isIdent : node.kind = .ident name role := isIdent
      have used := @uses_usage id resolution node.id
      rw [ofTree_pattern_ident isIdent, uses_definition, occurrences_cons, Rose.label]
      omega
  rw [occurrences_split, uses_append, uses_append]
  omega

theorem usesOnce (tree : Syntree) : UsesOnce resolution control vertex id tree := by
  induction tree using byChildren with
  | node node children ih =>
    intro mode
    rw [occurrences_cons]
    -- It is enough that the parts account for all uses, the root apart.
    have inner {count : Nat} (bound : count ≤ occurrences id children) :
        count ≤ (if node.id = id then 1 else 0) + occurrences id children + 0 := by omega
    unfold ofTree
    split
    case h_1 => exact inner (uses_ofTrees_le ih _)
    case h_2 defines key values _ =>
      obtain ⟨here, there⟩ := forall_mem_cons.mp ih
      have first := here .expr
      have others := uses_ofTrees_le there (.pattern defines)
      rw [uses_append]
      rw [occurrences_split]
      omega
    case h_3 => exact Nat.zero_le _
    case h_4 =>
      split
      case h_1 => split <;> simp
      case h_2 => exact inner (uses_ofTrees_le ih _)
      case h_3 => exact inner (uses_ofTrees_le ih _)
      case h_4 =>
        rw [uses_append, Nat.add_comm]
        exact inner (uses_pair_le ih _ _)
      case h_5 => exact inner (uses_head_le ih _)
      case h_6 =>
        split
        case isTrue => exact Nat.zero_le _
        case isFalse =>
          split
          case h_1 => split <;> simp
          case h_2 =>
            rw [uses_append, uses_definition]
            exact inner (uses_ofTrees_le ih _)
          case h_3 =>
            rw [uses_append, Nat.add_comm]
            exact inner (uses_pair_le ih _ _)
          case h_4 => exact inner (uses_head_le ih _)
          case h_5 => rw [uses_flatMap_definition]; exact Nat.zero_le _
          case h_6 =>
            refine inner (uses_assign_le ih ?_)
            split
            case h_1 => exact .inl rfl
            case h_2 _ isIdent _ => exact .inr ⟨⟨_, _, isIdent⟩, rfl, by rw [isIdent]⟩
            case h_3 => exact .inl rfl
          case h_7 =>
            refine Nat.le_trans (uses_ofIdent _ _) ?_
            omega
          case h_8 => exact inner (uses_ofTrees_le ih _)

theorem occurrences_children (tree : Syntree) :
    occurrences id tree.children ≤ occurrences id [tree] := by
  cases tree
  rw [occurrences_cons, Rose.children]
  omega

theorem occurrences_params (owner : Syntree) :
    occurrences id (paramTrees owner) ≤ occurrences id [owner] := by
  have part : (paramTrees owner).Sublist owner.children := by
    unfold paramTrees
    split
    · exact (take_sublist ..).trans (drop_sublist ..)
    · exact nil_sublist _
  exact Nat.le_trans (occurrences_sublist part) (occurrences_children owner)

theorem occurrences_firsts (trees : List Syntree) :
    occurrences id (trees.filterMap (·.children.head?)) ≤ occurrences id trees := by
  induction trees with
  | nil => exact Nat.le_refl _
  | cons tree rest ih =>
    obtain ⟨node, parts⟩ := tree
    rw [occurrences_cons, filterMap_cons]
    cases parts with
    | nil =>
      have first : (Rose.node node []).children.head? = none := rfl
      simp only [first]
      omega
    | cons pattern others =>
      have first : (Rose.node node (pattern :: others)).children.head? = some pattern := rfl
      simp only [first]
      rw [occurrences_split, occurrences_split pattern others]
      omega

theorem occurrences_patterns (head : Syntree) :
    occurrences id (iterationPatterns head) ≤ occurrences id [head] := by
  unfold iterationPatterns
  split
  · exact Nat.le_trans (occurrences_firsts _) (occurrences_children head)
  · exact Nat.le_refl _

theorem uses_iteration_le {object : Syntree} (parts : tree.children = head :: object :: rest) :
    uses id (ofTree resolution control vertex .expr object ++
      ofTrees resolution control vertex (.pattern true) (iterationPatterns head)) ≤
        occurrences id [tree] := by
  have first := @uses_ofTrees_le id resolution control vertex (iterationPatterns head)
    (fun tree _ => usesOnce tree) (.pattern true)
  have fewer := @occurrences_patterns id head
  have second := @usesOnce id resolution control vertex object .expr
  have inner := @occurrences_children id tree
  rw [parts, occurrences_split, occurrences_split object rest] at inner
  rw [uses_append]
  omega

end

section

variable {arena : Arena} (well : arena.WellNumbered)

include well

theorem occurrences_le_one (inside : tree ∈ arena.tree.subtrees) (id : Nat) :
    occurrences id [tree] ≤ 1 := by
  have ids := Syntree.ids_subtrees (well.numbered.subtree inside)
  rw [occurrences, subtreesAll, subtreesAll, append_nil, ids]
  exact nodup_iff_count_le_one.mp nodup_range' id

theorem uses_ofVertex_le_one (laid : arena.LaidOut) (resolution : Resolution) {graph : ControlGraph}
    (made : graph ∈ (ofArena arena).graphs) {vertex : Nat} (member : vertex ∈ graph.vertices)
    (id : Nat) : uses id (ofVertex arena resolution (ofArena arena) graph.owner vertex) ≤ 1 := by
  have owned := (tied_graph well laid made).1 vertex member
  have params := occurrences_le_one well (well.subtree_mem (owner_lt well made)) id
  have own := occurrences_le_one well (well.subtree_mem owned.known) id
  unfold ofVertex
  simp only
  split
  case h_1 =>
    have all := @uses_ofTrees_le id resolution (ofArena arena) vertex
      (paramTrees (arena.subtree graph.owner)) (fun tree _ => usesOnce tree) (.pattern true)
    have fewer := @occurrences_params id (arena.subtree graph.owner)
    omega
  case h_2 => simp
  case h_3 parts => exact Nat.le_trans (uses_iteration_le parts) own
  case h_4 parts => exact Nat.le_trans (uses_iteration_le parts) own
  case h_5 parts =>
    have inner := @occurrences_children id (arena.subtree vertex)
    rw [parts] at inner
    exact Nat.le_trans (uses_head_le (fun tree _ => usesOnce tree) _) (Nat.le_trans inner own)
  case h_6 => exact Nat.le_trans (usesOnce _ _) own

end

end Seepage.Event

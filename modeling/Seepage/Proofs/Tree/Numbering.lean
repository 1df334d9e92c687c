import Seepage.Proofs.Tree.Shapes

set_option autoImplicit false

namespace Seepage

open List
open Rose hiding node

variable {tree top : Syntree} {trees : List Syntree}

namespace Rose

variable {α : Type}

@[elab_as_elim]
theorem byChildren {motive : Rose α → Prop}
    (node : ∀ label children, (∀ child ∈ children, motive child) → motive (.node label children))
    (tree : Rose α) : motive tree := by
  refine @Rose.rec α motive (fun trees => ∀ tree ∈ trees, motive tree) node ?_ ?_ tree
  · simp
  · intro first rest here there
    simpa using ⟨here, there⟩

theorem size_pos (tree : Rose α) : 0 < tree.size := by
  cases tree
  simp only [size]
  omega

theorem self_mem_subtrees (tree : Rose α) : tree ∈ tree.subtrees := by
  cases tree
  simp [subtrees]

theorem mem_subtreesAll {tree : Rose α} (trees : List (Rose α)) :
    tree ∈ subtreesAll trees ↔ ∃ top ∈ trees, tree ∈ top.subtrees := by
  induction trees with
  | nil => simp [subtreesAll]
  | cons top rest ih => simp [subtreesAll, ih]

theorem mem_subtrees {tree top : Rose α} :
    tree ∈ top.subtrees ↔ tree = top ∨ ∃ child ∈ top.children, tree ∈ child.subtrees := by
  cases top
  simp [subtrees, children, mem_subtreesAll]

theorem child_mem_subtrees {child top : Rose α} (below : child ∈ top.children) :
    child ∈ top.subtrees :=
  mem_subtrees.mpr (.inr ⟨child, below, self_mem_subtrees child⟩)

theorem subtrees_trans {tree middle top : Rose α} (inner : tree ∈ middle.subtrees)
    (outer : middle ∈ top.subtrees) : tree ∈ top.subtrees := by
  induction top using byChildren with
  | node label children ih =>
    rcases mem_subtrees.mp outer with same | ⟨child, below, inside⟩
    · exact same ▸ inner
    · exact mem_subtrees.mpr (.inr ⟨child, below, ih child below inside⟩)

theorem bySubtrees {motive : Rose α → Prop}
    (node : ∀ label children, (∀ child ∈ children, ∀ part ∈ child.subtrees, motive part) →
      motive (.node label children)) (tree : Rose α) : motive tree := by
  have each : ∀ part ∈ tree.subtrees, motive part := by
    induction tree using byChildren with
    | node label children ih =>
      intro part inside
      rcases mem_subtrees.mp inside with rfl | ⟨child, below, deeper⟩
      · exact node label children ih
      · exact ih child below part deeper
  exact each tree tree.self_mem_subtrees

theorem child_inside {tree child top : Rose α} (below : child ∈ tree.children)
    (inside : tree ∈ top.subtrees) : child ∈ top.subtrees :=
  subtrees_trans (child_mem_subtrees below) inside

theorem mem_subtrees_of_child {label : α} {children : List (Rose α)} {child top : Rose α}
    (below : child ∈ children) (inside : .node label children ∈ top.subtrees) :
    child ∈ top.subtrees :=
  @child_inside α (.node label children) child top below inside

theorem length_subtrees (tree : Rose α) : tree.subtrees.length = tree.size := by
  rw [← length_preorder, ← map_label_subtrees, length_map]

end Rose

mutual

def number (starts : List Nat) (ancestors : List Nat) (start : Nat) : Shape → Syntree
  | .node (kind, span) children =>
    let numbered := numberAll starts (start :: ancestors) (start + 1) children
    .node ⟨start, kind, .ofSpan starts span, ancestors, numbered.map (·.label.id)⟩ numbered

def numberAll (starts : List Nat) (ancestors : List Nat) : Nat → List Shape → List Syntree
  | _, [] => []
  | start, tree :: rest =>
    number starts ancestors start tree :: numberAll starts ancestors (start + tree.size) rest

end

namespace Syntree

mutual

def IsNumbered (ancestors : List Nat) (start : Nat) : Syntree → Prop
  | .node node children =>
    node.id = start ∧ node.ancestors = ancestors ∧ node.children = children.map (·.label.id) ∧
      AreNumbered (start :: ancestors) (start + 1) children

def AreNumbered (ancestors : List Nat) : Nat → List Syntree → Prop
  | _, [] => True
  | start, tree :: rest =>
    IsNumbered ancestors start tree ∧ AreNumbered ancestors (start + tree.size) rest

end

mutual

theorem size_number (starts ancestors : List Nat) (start : Nat) :
    (shape : Shape) → (number starts ancestors start shape).size = shape.size
  | .node (kind, span) children => by
    simp only [number, Rose.size, sizeAll_number]

theorem sizeAll_number (starts ancestors : List Nat) (start : Nat) : (shapes : List Shape) →
      sizeAll (numberAll starts ancestors start shapes) = sizeAll shapes
  | [] => rfl
  | shape :: rest => by
    simp only [numberAll, sizeAll, size_number, sizeAll_number]

end

mutual

theorem isNumbered_number (starts ancestors : List Nat) (start : Nat) :
    (shape : Shape) → IsNumbered ancestors start (number starts ancestors start shape)
  | .node (kind, span) children => by
    simp only [number, IsNumbered, true_and]
    exact areNumbered_numberAll starts (start :: ancestors) (start + 1) children

theorem areNumbered_numberAll (starts ancestors : List Nat) (start : Nat) :
    (shapes : List Shape) → AreNumbered ancestors start (numberAll starts ancestors start shapes)
  | [] => trivial
  | shape :: rest => by
    simp only [numberAll, AreNumbered, size_number]
    exact ⟨isNumbered_number starts ancestors start shape,
      areNumbered_numberAll starts ancestors (start + shape.size) rest⟩

end

mutual

theorem ids_subtrees {ancestors : List Nat} {start : Nat} :
    {tree : Syntree} → IsNumbered ancestors start tree →
      tree.subtrees.map (·.label.id) = List.range' start tree.size
  | .node node children, numbered => by
    obtain ⟨own, -, -, below⟩ := numbered
    rw [Rose.subtrees, Rose.size, map_cons, ids_subtreesAll below, Nat.add_comm 1,
      range'_succ]
    simp [Rose.label, own]

theorem ids_subtreesAll {ancestors : List Nat} {start : Nat} :
    {trees : List Syntree} → AreNumbered ancestors start trees →
      (subtreesAll trees).map (·.label.id) = List.range' start (sizeAll trees)
  | [], _ => rfl
  | tree :: rest, numbered => by
    obtain ⟨first, others⟩ := numbered
    rw [subtreesAll, sizeAll, map_append, ids_subtrees first,
      ids_subtreesAll others, range'_append_1]

end

section

variable {ancestors : List Nat} {start : Nat}

theorem IsNumbered.label_id (numbered : IsNumbered ancestors start tree) :
    tree.label.id = start := by
  cases tree
  exact numbered.1

theorem AreNumbered.child (numbered : AreNumbered ancestors start trees) (member : tree ∈ trees) :
    IsNumbered ancestors tree.label.id tree := by
  induction trees generalizing start with
  | nil => cases member
  | cons first rest ih =>
    obtain ⟨here, there⟩ := numbered
    rcases mem_cons.mp member with rfl | later
    · cases tree
      have own := here.1
      simpa [Rose.label, own] using here
    · exact ih there later

theorem IsNumbered.child {top child : Syntree} (numbered : IsNumbered ancestors start top)
    (below : child ∈ top.children) : IsNumbered (start :: ancestors) child.label.id child := by
  cases top
  exact AreNumbered.child numbered.2.2.2 below

theorem IsNumbered.subtree (numbered : IsNumbered ancestors start top)
    (inside : tree ∈ top.subtrees) : IsNumbered tree.label.ancestors tree.label.id tree := by
  induction top using byChildren generalizing ancestors start with
  | node node children ih =>
    rcases Rose.mem_subtrees.mp inside with rfl | ⟨child, below, deeper⟩
    · simpa [Rose.label, numbered.1, numbered.2.1] using numbered
    · exact ih child below (numbered.child below) deeper

theorem AreNumbered.le_id (numbered : AreNumbered ancestors start trees)
    (inside : tree ∈ subtreesAll trees) : start ≤ tree.label.id := by
  have member : tree.label.id ∈ (subtreesAll trees).map (·.label.id) :=
    mem_map_of_mem inside
  rw [ids_subtreesAll numbered, mem_range'_1] at member
  exact member.1

theorem IsNumbered.ancestors_lt (numbered : IsNumbered ancestors start top)
    (below : ∀ above ∈ ancestors, above < start) (inside : tree ∈ top.subtrees) :
    ∀ above ∈ tree.label.ancestors, above < tree.label.id := by
  induction top using byChildren generalizing ancestors start with
  | node node children ih =>
    rcases Rose.mem_subtrees.mp inside with rfl | ⟨child, member, deeper⟩
    · simpa [Rose.label, numbered.1, numbered.2.1] using below
    · have later : start < child.label.id := numbered.2.2.2.le_id
        ((mem_subtreesAll children).mpr ⟨child, member, self_mem_subtrees child⟩)
      refine ih child member (numbered.child member) ?_ deeper
      intro above known
      rcases mem_cons.mp known with rfl | known
      · exact later
      · exact Nat.lt_trans (below above known) later

end

end Syntree

namespace Node

def adopt (parent : Nat) (ids : List Nat) (nodes : List Node) : List Node :=
  nodes.modify parent fun node => { node with children := node.children ++ ids }

section

variable {nodes : List Node} {parent : Nat} {node : Node} (above : nodes[parent]? = some node)

theorem adopt_nil (parent : Nat) (nodes : List Node) : adopt parent [] nodes = nodes := by
  refine ext_getElem? fun index => ?_
  rw [adopt, getElem?_modify]
  split <;> simp

theorem adopt_adopt (parent : Nat) (first second : List Nat) (nodes : List Node) :
    adopt parent second (adopt parent first nodes) = adopt parent (first ++ second) nodes := by
  simp [adopt, modify_modify_eq, Function.comp_def]

theorem adopt_last (node : Node) (ids : List Nat) (nodes : List Node) :
    adopt nodes.length ids (nodes ++ [node]) =
      nodes ++ [{ node with children := node.children ++ ids }] := by
  induction nodes with
  | nil => rfl
  | cons first rest ih => exact congrArg (first :: ·) ih

include above

theorem adopt_append (ids : List Nat) (later : List Node) :
    adopt parent ids (nodes ++ later) = adopt parent ids nodes ++ later := by
  obtain ⟨known, -⟩ := List.getElem?_eq_some_iff.mp above
  refine ext_getElem? fun index => ?_
  rw [adopt, adopt, getElem?_modify, getElem?_append, getElem?_append, length_modify,
    getElem?_modify]
  by_cases inside : index < nodes.length
  · simp [inside]
  · have differ : parent ≠ index := by omega
    simp [inside, differ]

theorem getElem?_adopt (ids : List Nat) (later : List Node) :
    (adopt parent ids nodes ++ later)[parent]? =
      some { node with children := node.children ++ ids } := by
  obtain ⟨known, -⟩ := List.getElem?_eq_some_iff.mp above
  rw [getElem?_append_left (by simpa [adopt] using known), adopt, getElem?_modify_eq, above]
  rfl

end

theorem toList_push (starts : List Nat) {nodes : Array Node} {parent : Nat} {node : Node}
    (above : nodes.toList[parent]? = some node) (kind : Kind) (span : Script.Span) :
    (push starts nodes kind span (some parent)).toList = adopt parent [nodes.size] nodes.toList ++
      [⟨nodes.size, kind, .ofSpan starts span, parent :: node.ancestors, []⟩] := by
  have found : nodes.getD parent default = node := by
    rw [Array.getD_eq_getD_getElem?, ← Array.getElem?_toList, above]
    rfl
  have linked : nodes.toList.set parent { node with children := node.children ++ [nodes.size] } =
      adopt parent [nodes.size] nodes.toList := by
    refine ext_getElem? fun index => ?_
    rw [adopt, getElem?_modify, getElem?_set]
    by_cases same : parent = index
    · subst same
      obtain ⟨known, -⟩ := List.getElem?_eq_some_iff.mp above
      simpa [above] using known
    · simp [same]
  simp [push, found, linked]

mutual

-- Behind what there is come the numbered nodes in preorder, and only the parent changes.
theorem toList_run (starts : List Nat) (nodes : Array Node) (parent : Nat) {node : Node}
    (above : nodes.toList[parent]? = some node) : (shape : Shape) →
    ((sink starts).run (some parent) shape nodes).toList = adopt parent [nodes.size] nodes.toList ++
      (number starts (parent :: node.ancestors) nodes.size shape).preorder
  | .node (kind, span) children => by
    have pushed := toList_push starts above kind span
    have size : (push starts nodes kind span (some parent)).size = nodes.size + 1 := by
      rw [← Array.length_toList, pushed]
      simp [adopt]
    have own : (adopt parent [nodes.size] nodes.toList).length = nodes.size := by simp [adopt]
    have last := toList_runAll starts (push starts nodes kind span (some parent)) nodes.size
      (by rw [pushed, getElem?_append_right (by omega), own, Nat.sub_self]; rfl) children
    have kept := adopt_last ⟨nodes.size, kind, .ofSpan starts span, parent :: node.ancestors, []⟩
      ((numberAll starts (nodes.size :: parent :: node.ancestors) (nodes.size + 1) children).map
        (·.label.id)) (adopt parent [nodes.size] nodes.toList)
    rw [own] at kept
    rw [pushed, size] at last
    dsimp only at last
    rw [kept, append_assoc] at last
    exact last

theorem toList_runAll (starts : List Nat) (nodes : Array Node) (parent : Nat) {node : Node}
    (above : nodes.toList[parent]? = some node) : (shapes : List Shape) →
    (((sink starts).runAll (some parent) shapes).foldl (fun nodes child => child nodes)
      nodes).toList =
      let numbered := numberAll starts (parent :: node.ancestors) nodes.size shapes
      adopt parent (numbered.map (·.label.id)) nodes.toList ++ preorderAll numbered
  | [] => by simp [Sink.runAll, numberAll, preorderAll, adopt_nil]
  | shape :: rest => by
    have first := toList_run starts nodes parent above shape
    have found := getElem?_adopt above [nodes.size]
      (number starts (parent :: node.ancestors) nodes.size shape).preorder
    have size : ((sink starts).run (some parent) shape nodes).size = nodes.size + shape.size := by
      rw [← Array.length_toList, first, length_append, length_preorder, Syntree.size_number]
      simp [adopt]
    have others := toList_runAll starts ((sink starts).run (some parent) shape nodes) parent
      (by rw [first, found]) rest
    have kept : (adopt parent [nodes.size] nodes.toList)[parent]? = _ :=
      (append_nil (adopt parent [nodes.size] nodes.toList)) ▸ getElem?_adopt above [nodes.size] []
    rw [first, size] at others
    dsimp only at others
    rw [adopt_append kept, adopt_adopt, append_assoc] at others
    simp only [Sink.runAll, foldl_cons, numberAll, preorderAll, map_cons,
      (Syntree.isNumbered_number starts _ nodes.size shape).label_id]
    exact others

end

theorem toList_run_root (starts : List Nat) (shape : Shape) :
    ((sink starts).run none shape #[]).toList = (number starts [] 0 shape).preorder := by
  obtain ⟨⟨kind, span⟩, children⟩ := shape
  have below := toList_runAll starts #[⟨0, kind, .ofSpan starts span, [], []⟩] 0 rfl children
  exact below

end Node

namespace Syntree

theorem AreNumbered.getElem?_subtreesAll {ancestors : List Nat} {start : Nat}
    (numbered : AreNumbered ancestors start trees) (member : tree ∈ trees) (later : List Syntree) :
    (subtreesAll trees ++ later)[tree.label.id - start]? = some tree := by
  induction trees generalizing start with
  | nil => cases member
  | cons first rest ih =>
    obtain ⟨here, there⟩ := numbered
    rw [subtreesAll, append_assoc]
    rcases mem_cons.mp member with rfl | below
    · rw [here.label_id, Nat.sub_self]
      cases tree
      rfl
    · have behind := there.le_id ((mem_subtreesAll rest).mpr ⟨tree, below, self_mem_subtrees tree⟩)
      rw [getElem?_append_right (by rw [Rose.length_subtrees]; omega), Rose.length_subtrees,
        Nat.sub_sub]
      exact ih there below

mutual

theorem subtrees_preorder {ancestors : List Nat} {start : Nat} (later : List Node) :
    (tree : Syntree) → IsNumbered ancestors start tree →
    Node.subtrees (tree.preorder ++ later) = tree.subtrees ++ Node.subtrees later
  | .node node children, numbered => by
    obtain ⟨own, -, parts, below⟩ := numbered
    have behind := subtrees_preorderAll later children below
    have grown : (node.children.map fun child =>
        (subtreesAll children ++ Node.subtrees later).getD (child - node.id - 1) default) =
        children := by
      rw [parts, map_map]
      refine (map_congr_left fun child member => ?_).trans (map_id _)
      rw [Function.comp_apply, getD_eq_getElem?_getD, own, Nat.sub_sub,
        below.getElem?_subtreesAll member]
      rfl
    rw [preorder, cons_append]
    change (Rose.node node _ :: Node.subtrees (preorderAll children ++ later)) = _
    rw [behind]
    change (Rose.node node (node.children.map fun child =>
      (Node.subtrees (preorderAll children ++ later)).getD (child - node.id - 1) default) :: _) = _
    rw [behind, grown]
    rfl

theorem subtrees_preorderAll {ancestors : List Nat} {start : Nat} (later : List Node) :
    (trees : List Syntree) → AreNumbered ancestors start trees →
    Node.subtrees (preorderAll trees ++ later) = subtreesAll trees ++ Node.subtrees later
  | [], _ => rfl
  | tree :: rest, numbered => by
    rw [preorderAll, subtreesAll, append_assoc, append_assoc,
      subtrees_preorder _ tree numbered.1, subtrees_preorderAll later rest numbered.2]

end

end Syntree

end Seepage

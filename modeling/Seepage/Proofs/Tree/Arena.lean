import Seepage.Proofs.Tree.Numbering
import Seepage.Tree.Name

set_option autoImplicit false

namespace Seepage

variable {file : Script.File} {arena : Arena} {id below : Nat}

instance : Coe String Script.Ident := ⟨fun name => ⟨name, default⟩⟩

-- A page of one line. Where its parts stand in the line is left open.
def Script.File.sample (body : List Stmt) : File where
  name := "page.js"
  language := .javaScript
  lineCount := 1
  lineStarts := [0]
  errors := []
  program? := some { span := default, body }

namespace Arena

open List

structure WellNumbered (arena : Arena) : Prop where
  stored : arena.subtrees = arena.tree.subtrees.toArray
  numbered : Syntree.IsNumbered [] 0 arena.tree

def ofTree (file : String) (tree : Syntree) : Arena :=
  ⟨file, tree, tree.subtrees.toArray⟩

theorem wellNumbered_ofTree (file : String) (starts : List Nat) (shape : Shape) :
    (ofTree file (number starts [] 0 shape)).WellNumbered :=
  ⟨rfl, Syntree.isNumbered_number starts [] 0 shape⟩

theorem ofNodes_run (file : String) (starts : List Nat) (shape : Shape) :
    ofNodes file ((Node.sink starts).run none shape #[]) =
      ofTree file (number starts [] 0 shape) := by
  have grown := Syntree.subtrees_preorder [] _ (Syntree.isNumbered_number starts [] 0 shape)
  rw [append_nil] at grown
  rw [ofNodes, Node.toList_run_root, grown]
  cases shape
  simp [ofTree, Node.subtrees, number, Rose.subtrees]

theorem ofFile_eq_ok (read : ofFile file = .ok arena) :
    ∃ program, file.program? = some program ∧
      arena = ofTree file.name (number file.lineStarts [] 0 (lowerProgram .tree () program)) := by
  unfold ofFile at read
  split at read
  case h_1 program found =>
    injection read with same
    refine ⟨program, found, ?_⟩
    rw [← same, Sink.run_program, ofNodes_run]
  case h_2 => cases read

theorem wellNumbered_ofFile (read : ofFile file = .ok arena) : arena.WellNumbered := by
  obtain ⟨program, -, rfl⟩ := ofFile_eq_ok read
  exact wellNumbered_ofTree _ _ _

theorem subtree_of_size_le (outside : arena.size ≤ id) : arena.subtree id = default := by
  simp only [subtree, Array.getD_eq_getD_getElem?]
  rw [Array.getElem?_eq_none outside]
  rfl

theorem kind_of_size_le (outside : arena.size ≤ id) : arena.kind id = .program := by
  simp only [kind, node, subtree_of_size_le outside]
  rfl

theorem lt_size_of_kind {arena : Arena} {id : Nat} (known : arena.kind id ≠ .program) :
    id < arena.size := by
  apply Nat.lt_of_not_le
  intro outside
  exact known (kind_of_size_le outside)

namespace WellNumbered

variable {arena : Arena} (well : arena.WellNumbered) {tree child : Syntree}
  (inside : tree ∈ arena.tree.subtrees)

include well

theorem size_eq : arena.size = arena.tree.size := by
  simp [size, well.stored, Rose.length_subtrees]

theorem getElem_subtrees (bound : id < arena.tree.subtrees.length) :
    arena.tree.subtrees[id].label.id = id := by
  have same := congrArg (·[id]?) (Syntree.ids_subtrees well.numbered)
  have small : id < arena.tree.size := by simpa [Rose.length_subtrees] using bound
  simpa [bound, small, getElem?_range'] using same

theorem exists_subtree (bound : id < arena.size) :
    ∃ tree ∈ arena.tree.subtrees, tree.label.id = id := by
  have small : id < arena.tree.subtrees.length := by
    rw [Rose.length_subtrees, ← well.size_eq]
    exact bound
  exact ⟨_, getElem_mem small, well.getElem_subtrees small⟩

include inside

theorem subtree_eq : arena.subtree tree.label.id = tree := by
  obtain ⟨id, bound, found⟩ := getElem_of_mem inside
  have own : tree.label.id = id := by rw [← found, well.getElem_subtrees bound]
  simp [subtree, well.stored, own, bound, found]

theorem eq_of_id {other : Syntree} (inside' : other ∈ arena.tree.subtrees)
    (same : tree.label.id = other.label.id) : tree = other := by
  rw [← well.subtree_eq inside, same, well.subtree_eq inside']

theorem id_lt : tree.label.id < arena.size := by
  have member : tree.label.id ∈ arena.tree.subtrees.map (·.label.id) :=
    mem_map_of_mem inside
  rw [Syntree.ids_subtrees well.numbered, mem_range'_1] at member
  rw [well.size_eq]
  omega

theorem node_eq : arena.node tree.label.id = tree.label := by
  rw [node, well.subtree_eq inside]

theorem kind_eq : arena.kind tree.label.id = tree.label.kind := by
  rw [kind, well.node_eq inside]

theorem children_eq : arena.children tree.label.id = tree.children.map (·.label.id) := by
  rw [children, well.node_eq inside]
  have numbered := well.numbered.subtree inside
  cases tree
  exact numbered.2.2.1

theorem ancestors_eq : arena.ancestors tree.label.id = tree.label.ancestors := by
  rw [ancestors, well.node_eq inside]

theorem ancestors_child (below : child ∈ tree.children) :
    child.label.ancestors = tree.label.id :: tree.label.ancestors := by
  have numbered := (well.numbered.subtree inside).child below
  cases child
  exact numbered.2.1

theorem ancestors_lt : ∀ above ∈ tree.label.ancestors, above < tree.label.id :=
  well.numbered.ancestors_lt (fun _ absent => (not_mem_nil absent).elim) inside

theorem parent_child (below : child ∈ tree.children) :
    arena.parent? child.label.id = some tree.label.id := by
  have deeper := Rose.child_inside below inside
  rw [parent?, well.ancestors_eq deeper, well.ancestors_child inside below]
  rfl

theorem owner_child (below : child ∈ tree.children) : arena.owner child.label.id =
      if tree.label.kind.isOwner then tree.label.id else arena.owner tree.label.id := by
  have deeper := Rose.child_inside below inside
  rw [owner, owner, well.ancestors_eq deeper, well.ancestors_child inside below,
    well.ancestors_eq inside, find?_cons, well.kind_eq inside]
  cases tree.label.kind.isOwner <;> rfl

omit inside in
theorem exists_child (member : below ∈ arena.children id) : ∃ tree ∈ arena.tree.subtrees,
    tree.label.id = id ∧ ∃ child ∈ tree.children, child.label.id = below := by
  by_cases known : id < arena.size
  · obtain ⟨tree, inside, rfl⟩ := well.exists_subtree known
    rw [well.children_eq inside] at member
    exact ⟨tree, inside, rfl, mem_map.mp member⟩
  · rw [children, node, subtree_of_size_le (Nat.le_of_not_lt known)] at member
    cases member

omit inside in
theorem lt_of_mem_children (member : below ∈ arena.children id) : below < arena.size := by
  obtain ⟨tree, inside, -, child, held, rfl⟩ := well.exists_child member
  exact well.id_lt (Rose.child_inside held inside)

omit inside in
theorem parent_of_mem_children (member : below ∈ arena.children id) :
    arena.parent? below = some id := by
  obtain ⟨tree, inside, rfl, child, held, rfl⟩ := well.exists_child member
  exact well.parent_child inside held

omit inside in
theorem lt_of_child? {position : Nat} (found : arena.child? id position = some below) :
    below < arena.size :=
  well.lt_of_mem_children (mem_of_getElem? found)

omit inside in
theorem lt_of_propertyValue? {value : Nat} (found : arena.propertyValue? id = some value) :
    value < arena.size := by
  unfold propertyValue? at found
  split at found
  · exact well.lt_of_child? found
  · exact well.lt_of_child? found
  · cases found

omit inside in
theorem root_lt : Arena.root < arena.size := by
  rw [well.size_eq]
  cases arena.tree
  rw [Rose.size, Nat.add_comm]
  exact Nat.succ_pos _

omit inside in
theorem lt_of_mem_ancestors {above : Nat} (member : above ∈ arena.ancestors id) :
    above < arena.size := by
  by_cases known : id < arena.size
  · obtain ⟨top, inside, rfl⟩ := well.exists_subtree known
    rw [well.ancestors_eq inside] at member
    exact Nat.lt_trans (well.ancestors_lt inside above member) known
  · rw [ancestors, node, subtree_of_size_le (Nat.le_of_not_lt known)] at member
    cases member

end WellNumbered

end Arena

end Seepage

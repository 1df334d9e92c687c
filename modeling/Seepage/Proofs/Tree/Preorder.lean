import Mathlib.Logic.Relation
import Seepage.Proofs.Tree.Ancestry
import Seepage.Proofs.Tree.Positions

set_option autoImplicit false

namespace Seepage.Arena

open List

variable {tree : Syntree}

-- From a node to those below it, child by child.
def Descends (arena : Arena) : Nat → Nat → Prop :=
  Relation.ReflTransGen fun above below => below ∈ arena.children above

structure Preordered (arena : Arena) : Prop where
  rooted : ∀ id < arena.size, arena.parent? id = none ↔ id = root
  listed : ∀ id < arena.size, id ≠ root → ∃ parent, arena.parent? id = some parent ∧
    ∀ other, (arena.children other).count id = if other = parent then 1 else 0
  increasing : ∀ id, (arena.children id).Pairwise (· < ·)
  later : ∀ id, ∀ child ∈ arena.children id, id < child
  contiguous : ∀ id < arena.size, ∃ behind ≤ arena.size, id < behind ∧
    ∀ other, arena.Descends id other ↔ id ≤ other ∧ other < behind
  ends : ∀ id < arena.size, (arena.kind id).isOwner →
    ∃ rest, arena.children id = arena.entryOf id :: arena.exitOf id :: rest ∧
      arena.kind (arena.entryOf id) = .entry ∧ arena.kind (arena.exitOf id) = .exit
  functions : ∀ id name form paramCount exprBody,
    arena.kind id = .function name form paramCount exprBody →
    ∃ params body, arena.children id = arena.entryOf id :: arena.exitOf id :: (params ++ body) ∧
      params.length = paramCount ∧ body.length ≤ 1 ∧
      (∀ param ∈ params, (arena.kind param).isParam) ∧
      ∀ part ∈ body, Seat.body.admits (arena.kind part)

section

variable {arena : Arena} (well : arena.WellNumbered)

include well

section

variable (inside : tree ∈ arena.tree.subtrees)

include inside

theorem children_increasing : (arena.children tree.label.id).Pairwise (· < ·) := by
  have ids := Syntree.ids_subtrees (well.numbered.subtree inside)
  rw [well.children_eq inside]
  obtain ⟨node, children⟩ := tree
  rw [Rose.subtrees, map_cons] at ids
  have all : ((node.id :: (Rose.subtreesAll children).map (·.label.id))).Pairwise (· < ·) :=
    ids ▸ pairwise_lt_range'
  exact all.of_cons.sublist ((Rose.sublist_subtreesAll children).map _)

theorem descends_iff {other : Nat} :
    arena.Descends tree.label.id other ↔ tree.Holds other := by
  constructor
  · intro descends
    induction descends with
    | refl => exact ⟨tree, tree.self_mem_subtrees, rfl⟩
    | tail _ member held =>
      obtain ⟨inner, within, rfl⟩ := held
      rw [well.children_eq (Rose.subtrees_trans within inside)] at member
      obtain ⟨child, below, rfl⟩ := mem_map.mp member
      exact ⟨child, Rose.child_inside below within, rfl⟩
  · rintro ⟨inner, within, rfl⟩
    refine Rose.downward within .refl fun parent above reached child below => reached.tail ?_
    rw [well.children_eq (Rose.subtrees_trans above inside)]
    exact mem_map_of_mem below

theorem descends_range : ∃ behind ≤ arena.size, tree.label.id < behind ∧
      ∀ other, arena.Descends tree.label.id other ↔ tree.label.id ≤ other ∧ other < behind := by
  have positive := tree.size_pos
  refine ⟨tree.label.id + tree.size, ?_, by omega, fun other => ?_⟩
  · obtain ⟨last, within, same⟩ := (well.holds_iff inside).mpr
      (show tree.label.id ≤ tree.label.id + tree.size - 1 ∧
        tree.label.id + tree.size - 1 < tree.label.id + tree.size by omega)
    have := well.id_lt (Rose.subtrees_trans within inside)
    omega
  · rw [descends_iff well inside, well.holds_iff inside]

theorem count_children {child : Syntree} (below : child ∈ tree.children) (other : Nat) :
    (arena.children other).count child.label.id = if other = tree.label.id then 1 else 0 := by
  split
  case isTrue same =>
    rw [same]
    refine count_eq_one_of_mem (children_increasing well inside).nodup ?_
    rw [well.children_eq inside]
    exact mem_map_of_mem below
  case isFalse differ =>
    refine count_eq_zero.mpr fun member => differ ?_
    have parent := well.parent_of_mem_children member
    rw [well.parent_child inside below] at parent
    exact (Option.some.inj parent).symm

end

theorem exists_params (laid : arena.LaidOut) {id : Nat} {name : Option String} {form : FunctionForm}
    {paramCount : Nat} {exprBody : Bool}
    (isFunction : arena.kind id = .function name form paramCount exprBody) :
    ∃ params body, arena.children id = arena.entryOf id :: arena.exitOf id :: (params ++ body) ∧
      params.length = paramCount ∧ body.length ≤ 1 ∧
      (∀ param ∈ params, (arena.kind param).isParam) ∧
      ∀ part ∈ body, Seat.body.admits (arena.kind part) := by
  have known : id < arena.size := lt_size_of_kind (by simp [isFunction])
  obtain ⟨rest, children, -, -⟩ := ends_of_owner well laid known (by simp [isFunction, Kind.isOwner])
  obtain ⟨tree, inside, rfl⟩ := well.exists_subtree known
  obtain ⟨seat, seated⟩ := laid.seated.subtree inside
  rw [well.kind_eq inside] at isFunction
  have counted := seated.counts
  rw [isFunction, ← length_map (·.label.id), ← well.children_eq inside, children] at counted
  obtain ⟨least, most⟩ := Kind.counts_iff.mp counted
  have most := most _ rfl
  simp only [Kind.leading, length_cons] at least most
  -- The seat of a part tells what kinds it may have.
  have sits (position part : Nat) (found : rest[position]? = some part) :
      ((Kind.function name form paramCount exprBody).seat seat (position + 2)).admits
        (arena.kind part) := by
    have there : (arena.children tree.label.id)[position + 2]? = some part := by
      rw [children]
      exact found
    rw [well.children_eq inside, getElem?_map, Option.map_eq_some_iff] at there
    obtain ⟨child, there, rfl⟩ := there
    rw [well.kind_eq (Rose.child_inside (mem_of_getElem? there) inside), ← isFunction]
    exact (seated.child there).admits
  refine ⟨rest.take paramCount, rest.drop paramCount, by rw [take_append_drop, children], ?_, ?_,
    fun param member => ?_, fun part member => ?_⟩
  · rw [length_take]
    omega
  · rw [length_drop]
    omega
  · obtain ⟨position, found⟩ := getElem?_of_mem member
    rw [getElem?_take] at found
    split at found
    case isTrue early =>
      have admitted := sits position param found
      rwa [Kind.seat, if_neg (by omega), if_pos (by omega)] at admitted
    case isFalse => cases found
  · obtain ⟨position, found⟩ := getElem?_of_mem member
    rw [getElem?_drop] at found
    have admitted := sits _ part found
    rwa [Kind.seat, if_neg (by omega), if_neg (by omega)] at admitted

end

theorem preordered {file : Script.File} {arena : Arena} (read : ofFile file = .ok arena) :
    arena.Preordered := by
  obtain ⟨well, laid⟩ := shaped_ofFile read
  have parts (id : Nat) (outside : ¬id < arena.size) : arena.children id = [] := by
    rw [children, node, subtree_of_size_le (Nat.le_of_not_lt outside)]
    rfl
  refine ⟨fun id known => ⟨fun orphan => ?_, ?_⟩, fun id known lower => ?_, fun id => ?_,
    fun id child member => ?_, fun id known => ?_, fun id => ends_of_owner well laid,
    fun id name form paramCount exprBody => exists_params well laid⟩
  · obtain ⟨tree, inside, rfl⟩ := well.exists_subtree known
    obtain rfl | ⟨parent, above, below⟩ := Rose.exists_parent inside
    · exact well.id_tree
    · rw [well.parent_child above below] at orphan
      cases orphan
  · rintro rfl
    rw [parent?, ← well.id_tree, well.ancestors_eq arena.tree.self_mem_subtrees, well.ancestors_tree]
    rfl
  · obtain ⟨tree, inside, rfl⟩ := well.exists_subtree known
    obtain rfl | ⟨parent, above, below⟩ := Rose.exists_parent inside
    · exact absurd well.id_tree lower
    · exact ⟨parent.label.id, well.parent_child above below, count_children well above below⟩
  · by_cases known : id < arena.size
    · obtain ⟨tree, inside, rfl⟩ := well.exists_subtree known
      exact children_increasing well inside
    · rw [parts id known]
      exact .nil
  · obtain ⟨tree, inside, rfl, below, under, rfl⟩ :=
      well.exists_of_parent? (well.parent_of_mem_children member)
    exact well.lt_of_below inside under ⟨below, below.self_mem_subtrees, rfl⟩
  · obtain ⟨tree, inside, rfl⟩ := well.exists_subtree known
    exact descends_range well inside

-- `f = (a, [b] = a) => b;`
def assignedArrow : Script.File := .sample [
  .expr (.assign "=" (.ident "f") (.arrow (.mk [.ident "a", .initialized (.array [.ident "b"] {})
    (.ident "a") {}] (.expr (.ident "b")) {})) {}) {}]

theorem preordered_assignedArrow :
    ∃ arena, ofFile assignedArrow = .ok arena ∧ arena.Preordered ∧
      arena.kind 6 = .function none .arrow 2 true ∧ arena.children 6 = [7, 8, 9, 10, 14] :=
  ⟨_, rfl, preordered (show ofFile assignedArrow = .ok _ from rfl), by decide, by decide⟩

end Seepage.Arena

import Seepage.Proofs.Tree.Nesting

set_option autoImplicit false

namespace Seepage

open List
open Rose hiding node

variable {id above : Nat}

@[elab_as_elim]
theorem Rose.downward {α : Type} {motive : Rose α → Prop} {top tree : Rose α}
    (inside : tree ∈ top.subtrees) (start : motive top)
    (step : ∀ parent ∈ top.subtrees, motive parent → ∀ child ∈ parent.children, motive child) :
    motive tree := by
  induction top using byChildren with
  | node label children ih =>
    obtain rfl | ⟨child, below, deeper⟩ := mem_subtrees.mp inside
    · exact start
    · have here := step _ (self_mem_subtrees _) start child below
      refine ih child below deeper here fun parent within => step parent ?_
      exact mem_subtrees.mpr (.inr ⟨child, below, within⟩)

theorem Rose.holds_node {node : Node} {children : List Syntree} :
    Rose.Holds (.node node children) id ↔ id = node.id ∨ ∃ child ∈ children, child.Holds id := by
  constructor
  · rintro ⟨inner, inside, rfl⟩
    obtain rfl | ⟨child, below, deeper⟩ := Rose.mem_subtrees.mp inside
    · exact .inl rfl
    · exact .inr ⟨child, below, inner, deeper, rfl⟩
  · rintro (rfl | ⟨child, below, inner, deeper, rfl⟩)
    · exact ⟨_, self_mem_subtrees _, rfl⟩
    · exact ⟨inner, Rose.mem_subtrees.mpr (.inr ⟨child, below, deeper⟩), rfl⟩

namespace Arena.WellNumbered

variable {arena : Arena} (well : arena.WellNumbered)

include well

theorem id_tree : arena.tree.label.id = root :=
  well.numbered.label_id

theorem ancestors_tree : arena.tree.label.ancestors = [] := by
  have numbered := well.numbered
  generalize arena.tree = tree at numbered
  cases tree
  exact numbered.2.1

variable {tree child : Syntree} (inside : tree ∈ arena.tree.subtrees)

include inside

theorem mem_ancestors_iff : above ∈ arena.ancestors tree.label.id ↔
    ∃ top ∈ arena.tree.subtrees, top.label.id = above ∧
      ∃ child ∈ top.children, child.Holds tree.label.id := by
  rw [well.ancestors_eq inside]
  refine downward inside ?_ ?_
  · rw [well.ancestors_tree, well.id_tree]
    refine ⟨nofun, ?_⟩
    rintro ⟨top, within, rfl, child, below, holds⟩
    exact absurd (well.lt_of_below within below holds) (Nat.not_lt_zero _)
  · intro parent within ih child below
    rw [well.ancestors_child within below, mem_cons, ih]
    constructor
    · rintro (rfl | ⟨top, inside, rfl, upper, under, holds⟩)
      · exact ⟨parent, within, rfl, child, below, child, child.self_mem_subtrees, rfl⟩
      · refine ⟨top, inside, rfl, upper, under, child, ?_, rfl⟩
        exact child_inside below
          (well.mem_of_holds within (child_inside under inside) holds)
    · rintro ⟨top, inside, rfl, upper, under, holds⟩
      have deeper := well.mem_of_holds (child_inside below within)
        (child_inside under inside) holds
      obtain rfl | ⟨middle, inner, member⟩ := exists_parent deeper
      · exact .inl (congrArg (·.label.id) (well.parent_unique inside within under below))
      · obtain rfl := well.parent_unique
          (subtrees_trans inner (child_inside under inside)) within member below
        exact .inr ⟨top, inside, rfl, upper, under, middle, inner, rfl⟩

theorem holds_iff : tree.Holds id ↔ tree.label.id ≤ id ∧ id < tree.label.id + tree.size := by
  have numbered := well.numbered.subtree inside
  have ids := Syntree.ids_subtrees numbered
  rw [← mem_range'_1, ← ids, mem_map]
  rfl

theorem end_le (below : child ∈ tree.children) :
    child.label.id + child.size ≤ tree.label.id + tree.size := by
  have positive := child.size_pos
  have deeper := child_inside below inside
  obtain ⟨inner, within, same⟩ := (well.holds_iff deeper).mpr
    (show child.label.id ≤ child.label.id + child.size - 1 ∧
      child.label.id + child.size - 1 < child.label.id + child.size by omega)
  have := (well.holds_iff inside).mp
    ⟨inner, Rose.mem_subtrees.mpr (.inr ⟨child, below, within⟩), same⟩
  omega

theorem idxOf_child {position : Nat} (found : tree.children[position]? = some child) :
    (arena.children tree.label.id).idxOf child.label.id = position := by
  have distinct : (tree.children.map (·.label.id)).Nodup := by
    refine List.Nodup.map_on (fun first member second member' same => ?_)
      (well.nodup_children inside)
    exact well.eq_of_id (child_inside member inside) (child_inside member' inside) same
  obtain ⟨bound, isChild⟩ := List.getElem?_eq_some_iff.mp found
  rw [well.children_eq inside]
  have bound' : position < (tree.children.map (·.label.id)).length := by
    rwa [length_map]
  have there : (tree.children.map (·.label.id))[position] = child.label.id := by
    rw [getElem_map, isChild]
  rw [← there, distinct.idxOf_getElem position bound']

omit inside in
theorem exists_of_parent? (parent : arena.parent? id = some above) :
    ∃ tree ∈ arena.tree.subtrees, tree.label.id = above ∧
      ∃ child ∈ tree.children, child.label.id = id := by
  by_cases known : id < arena.size
  · obtain ⟨child, inside, rfl⟩ := well.exists_subtree known
    obtain rfl | ⟨tree, within, below⟩ := exists_parent inside
    · rw [parent?, well.ancestors_eq inside, well.ancestors_tree] at parent
      cases parent
    · rw [well.parent_child within below] at parent
      exact ⟨tree, within, Option.some.inj parent, child, below, rfl⟩
  · rw [parent?, ancestors, node, subtree_of_size_le (Nat.le_of_not_lt known)] at parent
    cases parent

theorem owner_lt_child (below : child ∈ tree.children) :
    arena.owner child.label.id < child.label.id := by
  have later := well.lt_of_below inside below ⟨child, child.self_mem_subtrees, rfl⟩
  have deeper := child_inside below inside
  rw [Arena.owner, well.ancestors_eq deeper]
  cases found : child.label.ancestors.find? fun above => (arena.kind above).isOwner with
  | none => exact Nat.zero_lt_of_lt later
  | some above => exact well.ancestors_lt deeper above (mem_of_find?_eq_some found)

theorem owner_of_holds (holds : tree.Holds id) : id = tree.label.id ∨
    arena.owner id = (if tree.label.kind.isOwner then tree.label.id else arena.owner tree.label.id) ∨
    tree.label.id < arena.owner id := by
  induction tree using byChildren with
  | node node children ih =>
    obtain rfl | ⟨child, below, deeper⟩ := Rose.holds_node.mp holds
    · exact .inl rfl
    · have here : child ∈ (Rose.node node children).children := below
      have within := child_inside here inside
      have later := well.lt_of_below inside here ⟨child, child.self_mem_subtrees, rfl⟩
      have owner := well.owner_child inside here
      refine .inr ?_
      obtain rfl | same | inner := ih child below within deeper
      · exact .inl owner
      · by_cases owns : child.label.kind.isOwner
        · rw [if_pos owns] at same
          exact .inr (same ▸ later)
        · rw [if_neg owns, owner] at same
          exact .inl same
      · exact .inr (Nat.lt_trans later inner)

end Arena.WellNumbered

end Seepage

import Mathlib.Data.List.Nodup
import Seepage.Proofs.Tree.Arena

set_option autoImplicit false

namespace Seepage

open Rose

variable {α : Type} {id : Nat}

theorem Rose.exists_parent {tree top : Rose α} (inside : tree ∈ top.subtrees) :
    tree = top ∨ ∃ parent ∈ top.subtrees, tree ∈ parent.children := by
  induction top using byChildren with
  | node label children ih =>
    rcases mem_subtrees.mp inside with same | ⟨child, below, deeper⟩
    · exact .inl same
    · rcases ih child below deeper with rfl | ⟨parent, under, member⟩
      · exact .inr ⟨_, self_mem_subtrees _, below⟩
      · exact .inr ⟨parent, subtrees_trans under (child_mem_subtrees below), member⟩

theorem Rose.sublist_subtreesAll (trees : List (Rose α)) : trees.Sublist (subtreesAll trees) := by
  induction trees with
  | nil => exact .slnil
  | cons tree rest ih =>
    obtain ⟨label, children⟩ := tree
    exact (ih.trans (List.sublist_append_right _ _)).cons_cons _

def Rose.Holds (top : Syntree) (id : Nat) : Prop :=
  ∃ inner ∈ top.subtrees, inner.label.id = id

instance (top : Syntree) (id : Nat) : Decidable (top.Holds id) :=
  inferInstanceAs (Decidable (∃ inner ∈ top.subtrees, inner.label.id = id))

namespace Arena.WellNumbered

variable {arena : Arena} (well : arena.WellNumbered) {tree other child : Syntree}
  (inside : tree ∈ arena.tree.subtrees)

include well inside

theorem nodup_ids : (tree.subtrees.map (·.label.id)).Nodup := by
  rw [Syntree.ids_subtrees (well.numbered.subtree inside)]
  exact List.nodup_range'

theorem nodup_children : tree.children.Nodup := by
  have distinct : tree.subtrees.Nodup := List.Nodup.of_map _ (well.nodup_ids inside)
  obtain ⟨node, children⟩ := tree
  exact (sublist_subtreesAll children).nodup distinct.of_cons

theorem parent_unique (inside' : other ∈ arena.tree.subtrees) (below : child ∈ tree.children)
    (below' : child ∈ other.children) : tree = other := by
  have parent := well.parent_child inside below
  rw [well.parent_child inside' below', Option.some.injEq] at parent
  exact well.eq_of_id inside inside' parent.symm

theorem mem_of_holds {top : Syntree} (inside' : top ∈ arena.tree.subtrees)
    (holds : top.Holds tree.label.id) : tree ∈ top.subtrees := by
  obtain ⟨inner, under, same⟩ := holds
  rw [well.eq_of_id inside (subtrees_trans under inside') same.symm]
  exact under

theorem lt_of_below (below : child ∈ tree.children) (holds : child.Holds id) :
    tree.label.id < id := by
  obtain ⟨inner, deeper, rfl⟩ := holds
  have numbered := well.numbered.subtree inside
  obtain ⟨node, children⟩ := tree
  exact numbered.2.2.2.le_id ((mem_subtreesAll children).mpr ⟨child, below, deeper⟩)

theorem nested (inside' : other ∈ arena.tree.subtrees) {common : Syntree}
    (here : common ∈ tree.subtrees) (there : common ∈ other.subtrees) :
    tree ∈ other.subtrees ∨ other ∈ tree.subtrees := by
  -- Up from the common node, one of the two trees is reached first.
  induction tree using byChildren with
  | node node children ih =>
    rcases mem_subtrees.mp here with rfl | ⟨child, below, deeper⟩
    · exact .inl there
    · have under := mem_subtrees_of_child below inside
      rcases ih child below under deeper with upper | lower
      · rcases exists_parent upper with rfl | ⟨parent, within, member⟩
        · exact .inr (child_mem_subtrees below)
        · have above := subtrees_trans within inside'
          exact .inl (well.parent_unique inside above below member ▸ within)
      · exact .inr (subtrees_trans lower (child_mem_subtrees below))

theorem sibling_unique (below : child ∈ tree.children) {child' : Syntree}
    (below' : child' ∈ tree.children) (holds : child.Holds id)
    (holds' : child'.Holds id) : child = child' := by
  obtain ⟨common, here, rfl⟩ := holds
  have first := child_inside below inside
  have second := child_inside below' inside
  have there := well.mem_of_holds (subtrees_trans here first) second holds'
  -- Of two nested siblings that differ, one would stand above their parent.
  have apart {lower upper : Syntree} (under : lower ∈ tree.children) (beside : upper ∈ tree.children)
      (deeper : lower ∈ upper.subtrees) : lower = upper := by
    rcases exists_parent deeper with same | ⟨parent, within, member⟩
    · exact same
    · have known := subtrees_trans within
        (child_inside beside inside)
      obtain rfl := well.parent_unique inside known under member
      exact absurd (well.lt_of_below inside beside ⟨tree, within, rfl⟩) (Nat.lt_irrefl _)
  rcases well.nested first second here there with lower | upper
  · exact apart below below' lower
  · exact (apart below' below upper).symm

end Arena.WellNumbered

end Seepage

set_option autoImplicit false

namespace Seepage

inductive Rose (α : Type) where
  | node (label : α) (children : List (Rose α))

namespace Rose

variable {α β : Type}

def label : Rose α → α
  | .node label _ => label

def children : Rose α → List (Rose α)
  | .node _ children => children

def leaf (label : α) : Rose α :=
  .node label []

mutual

def size : Rose α → Nat
  | .node _ children => 1 + sizeAll children

def sizeAll : List (Rose α) → Nat
  | [] => 0
  | tree :: rest => size tree + sizeAll rest

end

mutual

def preorder : Rose α → List α
  | .node label children => label :: preorderAll children

def preorderAll : List (Rose α) → List α
  | [] => []
  | tree :: rest => preorder tree ++ preorderAll rest

end

mutual

def subtrees : Rose α → List (Rose α)
  | .node label children => .node label children :: subtreesAll children

def subtreesAll : List (Rose α) → List (Rose α)
  | [] => []
  | tree :: rest => subtrees tree ++ subtreesAll rest

end

mutual

theorem map_label_subtrees : (tree : Rose α) → tree.subtrees.map label = tree.preorder
  | .node _ children => by
    simp [subtrees, preorder, label, map_label_subtreesAll children]

theorem map_label_subtreesAll :
    (trees : List (Rose α)) → (subtreesAll trees).map label = preorderAll trees
  | [] => rfl
  | tree :: rest => by
    simp [subtreesAll, preorderAll, map_label_subtrees tree, map_label_subtreesAll rest]

end

mutual

theorem length_preorder : (tree : Rose α) → tree.preorder.length = tree.size
  | .node _ children => by
    simp [preorder, size, length_preorderAll children, Nat.add_comm]

theorem length_preorderAll :
    (trees : List (Rose α)) → (preorderAll trees).length = sizeAll trees
  | [] => rfl
  | tree :: rest => by
    simp [preorderAll, sizeAll, length_preorder tree, length_preorderAll rest]

end

end Rose

end Seepage

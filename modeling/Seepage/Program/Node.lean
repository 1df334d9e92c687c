import Seepage.Graph.Edge
import Std.Data.TreeMap

set_option autoImplicit false

namespace Seepage

structure GlobalNode where
  file : Nat
  node : Nat
deriving DecidableEq, Repr, Inhabited

namespace GlobalNode

def text (id : GlobalNode) : String :=
  "f" ++ toString id.file ++ ":n" ++ toString id.node

instance : Ord GlobalNode := ⟨compareLex (compareOn GlobalNode.file) (compareOn GlobalNode.node)⟩

instance : Std.TransOrd GlobalNode :=
  inferInstanceAs <|
    Std.TransCmp (compareLex (compareOn GlobalNode.file) (compareOn GlobalNode.node))

instance : Std.LawfulEqOrd GlobalNode where
  eq_of_compare {a b} same := by
    obtain ⟨file, node⟩ := a
    obtain ⟨file', node'⟩ := b
    have both : compare file file' = .eq ∧ compare node node' = .eq := Ordering.then_eq_eq.mp same
    rw [Std.LawfulEqOrd.eq_of_compare both.1, Std.LawfulEqOrd.eq_of_compare both.2]

def le (a b : GlobalNode) : Bool :=
  (compare a b).isLE

end GlobalNode

structure LinkEdge where
  source : GlobalNode
  target : GlobalNode
  kind : DataKind
  channel : Option String
deriving DecidableEq, Repr, Inhabited

namespace LinkEdge

def cmp (a b : LinkEdge) : Ordering :=
  compare a.source b.source |>.then (compare a.target b.target)
    |>.then (compare a.kind.rank b.kind.rank) |>.then (compare a.channel b.channel)

def le (a b : LinkEdge) : Bool :=
  (a.cmp b).isLE

end LinkEdge

end Seepage

import Seepage.Flow.Piece

set_option autoImplicit false

namespace Seepage

inductive DataKind where
  | defUse
  | callArg
  | callReturn
  | propertyRead
  | propertyWrite
  | compose
deriving DecidableEq, Repr, Inhabited

namespace DataKind

def label : DataKind → String
  | .defUse => "def_use"
  | .callArg => "call_arg"
  | .callReturn => "call_return"
  | .propertyRead => "property_read"
  | .propertyWrite => "property_write"
  | .compose => "compose"

def text : DataKind → String
  | .defUse => "def-use"
  | .callArg => "call-arg"
  | .callReturn => "call-return"
  | .propertyRead => "property-read"
  | .propertyWrite => "property-write"
  | .compose => "compose"

def rank : DataKind → Nat
  | .defUse => 0
  | .callArg => 1
  | .callReturn => 2
  | .propertyRead => 3
  | .propertyWrite => 4
  | .compose => 5

end DataKind

def ControlLabel.rank : ControlLabel → Nat
  | .fallthrough => 0
  | .whenTrue => 1
  | .whenFalse => 2
  | .exception => 3
  | .loopBack => 4
  | .jump => 5

inductive EdgeKind where
  | control (label : ControlLabel)
  | data (kind : DataKind)
deriving DecidableEq, Repr, Inhabited

def EdgeKind.rank : EdgeKind → Nat
  | .control label => label.rank
  | .data kind => 6 + kind.rank

structure Edge where
  source : Nat
  target : Nat
  kind : EdgeKind
deriving DecidableEq, Repr, Inhabited

namespace Edge

def data (source target : Nat) (kind : DataKind) : Edge :=
  ⟨source, target, .data kind⟩

def control (edge : ControlEdge) : Edge :=
  ⟨edge.source, edge.target, .control edge.label⟩

def dataKind? (edge : Edge) : Option DataKind :=
  match edge.kind with
  | .data kind => some kind
  | .control _ => none

def le (a b : Edge) : Bool :=
  a.source < b.source ||
    (a.source == b.source &&
      (a.target < b.target || (a.target == b.target && a.kind.rank ≤ b.kind.rank)))

end Edge

def dropRepeats {α : Type} [DecidableEq α] : List α → List α
  | [] => []
  | [x] => [x]
  | x :: y :: rest => if x = y then dropRepeats (y :: rest) else x :: dropRepeats (y :: rest)

def sortDistinct {α : Type} [DecidableEq α] (le : α → α → Bool) (items : List α) : List α :=
  dropRepeats (items.mergeSort le)

def sortEdges (edges : List Edge) : List Edge :=
  sortDistinct Edge.le edges

end Seepage

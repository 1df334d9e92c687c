import Seepage.Graph.Edge

set_option autoImplicit false

namespace Seepage.Taint

def doubleBinding : String := "[double_binding]"

inductive ApiFilter where
  | all
  | only (names : List String)
deriving DecidableEq, Repr, Inhabited

def entryMatches (entry name : String) : Bool :=
  match entry.toList.reverse with
  | '*' :: start => start.reverse.isPrefixOf name.toList
  | _ => entry == name

namespace ApiFilter

def ofNames (names : List String) : ApiFilter :=
  if names.isEmpty then .all else .only (sortDistinct (fun a b => decide (a ≤ b)) names)

def isAll : ApiFilter → Bool
  | .all => true
  | .only _ => false

def admits : ApiFilter → String → Bool
  | .all, _ => true
  | .only names, name => names.any (entryMatches · name)

end ApiFilter

structure SourceFilter where
  apis : ApiFilter := .all
  doubleBinding : Bool := true
deriving DecidableEq, Repr, Inhabited

-- No names select all sources. A list that holds nothing but the markup entry selects no API.
def SourceFilter.ofNames (names : List String) : SourceFilter :=
  if names.isEmpty then {}
  else
    { apis := .only (sortDistinct (fun a b => decide (a ≤ b))
        (names.filter (· != Taint.doubleBinding)))
      doubleBinding := names.contains Taint.doubleBinding }

inductive PathMode where
  | deduplicated
  | detailed
deriving DecidableEq, Repr, Inhabited

structure Settings where
  sources : SourceFilter := {}
  sinks : ApiFilter := .all
  mode : PathMode := .deduplicated
deriving DecidableEq, Repr, Inhabited

end Seepage.Taint

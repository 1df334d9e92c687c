import Seepage.Workspace.Path

set_option autoImplicit false

namespace Seepage.UnitName

def numbered (base : String) (number : Nat) : String :=
  base ++ "-" ++ toString number

def firstFree (taken : List String) (base : String) : Nat → Nat → String
  | 0, number => numbered base number
  | count + 1, number =>
    if taken.contains (numbered base number) then firstFree taken base count (number + 1)
    else numbered base number

def fresh (taken : List String) (base : String) : String :=
  if taken.contains base then firstFree taken base taken.length 2 else base

def base (root : Path) : String :=
  root.fileName?.getD root.text

def assignFrom (taken : List String) : List Path → List String
  | [] => []
  | root :: rest =>
    let name := fresh taken (base root)
    name :: assignFrom (name :: taken) rest

def assign (roots : List Path) : List String :=
  assignFrom [] roots

end Seepage.UnitName

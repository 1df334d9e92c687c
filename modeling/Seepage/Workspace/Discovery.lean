import Seepage.Graph.Edge
import Seepage.Workspace.Basic

set_option autoImplicit false

namespace Seepage

inductive DiscoveryFault where
  | missing (path : Path)
  | notDirectory (path : Path)
  | unreadableList (path : Path) (reason : AccessFault)
deriving DecidableEq, Repr, Inhabited

def DiscoveryFault.message : DiscoveryFault → String
  | .missing path => "Path does not exist: " ++ path.text
  | .notDirectory path => "Not a directory: " ++ path.text
  | .unreadableList path reason =>
    "Failed to read input list " ++ path.text ++ ": " ++ reason.message

namespace Workspace

def markers : List String := ["app.js", "app.json", "app.ts"]

def isProgram (workspace : Workspace) (path : Path) : Bool :=
  markers.any (fun name => workspace.isFile (path.child name)) ||
    workspace.isDirectory (path.child "pages")

def programsIn (workspace : Workspace) (path : Path) : Except DiscoveryFault (List Path) :=
  if !workspace.isDirectory path then .error (.notDirectory path)
  else if workspace.isProgram path then .ok [path]
  else .ok (((workspace.entries path).map fun entry => path.child entry.1).filter fun inner =>
    workspace.isDirectory inner && workspace.isProgram inner)

def trim (text : List Char) : List Char :=
  ((text.dropWhile Text.isWhiteSpace).reverse.dropWhile Text.isWhiteSpace).reverse

def lines : List Char → List (List Char)
  | [] => [[]]
  | c :: rest =>
    if c = '\n' then [] :: lines rest
    else
      match lines rest with
      | [] => [[c]]
      | line :: others => (c :: line) :: others

def listed (text : String) : List Path :=
  ((lines text.toList).map trim).filterMap fun line =>
    if line.isEmpty || line.head? == some '#' then none else some ⟨.ofList line⟩

def located (workspace : Workspace) (list path : Path) : Path :=
  if path.isAbsolute || workspace.contains path then path
  else (list.parent?.getD ⟨"."⟩).join path

def readList (workspace : Workspace) (list : Path) : Except DiscoveryFault (List Path) :=
  match workspace.read list with
  | .ok text => .ok ((listed text).map (workspace.located list))
  | .error fault => .error (.unreadableList list fault)

def programsOf (workspace : Workspace) (input : Path) : Except DiscoveryFault (List Path) := do
  if !workspace.contains input then throw (.missing input)
  if workspace.isFile input then
    return (← (← workspace.readList input).mapM workspace.programsIn).flatten
  workspace.programsIn input

def dropSame : List Path → List Path
  | [] => []
  | path :: rest =>
    match dropSame rest with
    | [] => [path]
    | next :: others => if path.same next then path :: others else path :: next :: others

def programs (workspace : Workspace) (inputs : List Path) : Except DiscoveryFault (List Path) := do
  let found ← inputs.mapM workspace.programsOf
  return dropSame (found.flatten.mergeSort Path.le)

end Workspace

end Seepage

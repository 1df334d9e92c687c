import Seepage.Workspace.Path
import Seepage.Workspace.FileTree

set_option autoImplicit false

namespace Seepage

structure Workspace where
  root : FileTree
  here : List String := []
deriving Inhabited

namespace Workspace

def namesOf (path : Path) : List String :=
  path.parts.filterMap fun
    | .name text => some text
    | _ => none

def placeOf (here : List String) (path : Path) : List String :=
  path.parts.foldl (fun names part =>
    match part with
    | .root => []
    | .here => names
    | .up => names.dropLast
    | .name text => names ++ [text]) here

def ofEntries (here : List String) (directories : List Path) (files : List (Path × Option String)) :
    Workspace :=
  let root := FileTree.put (.directory []) here (.directory [])
  let root := directories.foldl (fun root path =>
    let names := here ++ namesOf path
    if (root.entry? names).isSome then root else root.put names (.directory [])) root
  { root := files.foldl (fun root (path, text) => root.put (here ++ namesOf path) (.file text)) root
    here }

def step (workspace : Workspace) (names : List String) (piece : List Char) :
    Except AccessFault (List String) :=
  match workspace.root.entry? names with
  | none => .error .notFound
  | some (.file _) => .error .notDirectory
  | some (.directory entries) =>
    let name : String := .ofList piece
    if piece = [] || piece = ['.'] then .ok names
    else if piece = ['.', '.'] then .ok names.dropLast
    else if (entries.lookup name).isSome then .ok (names ++ [name])
    else .error .notFound

def follow (workspace : Workspace) (path : Path) (pieces : List (List Char)) :
    Except AccessFault (List String) :=
  pieces.foldlM workspace.step (if path.isAbsolute then [] else workspace.here)

def resolve (workspace : Workspace) (path : Path) : Except AccessFault (List String) :=
  if path.text.isEmpty then .error .notFound else workspace.follow path path.pieces

def get? (workspace : Workspace) (path : Path) : Option FileTree :=
  match workspace.resolve path with
  | .ok names => workspace.root.entry? names
  | .error _ => none

def contains (workspace : Workspace) (path : Path) : Bool :=
  (workspace.get? path).isSome

def isFile (workspace : Workspace) (path : Path) : Bool :=
  (workspace.get? path).any FileTree.isFile

def isDirectory (workspace : Workspace) (path : Path) : Bool :=
  (workspace.get? path).any FileTree.isDirectory

def entries (workspace : Workspace) (path : Path) : List (String × FileTree) :=
  match workspace.get? path with
  | some (.directory entries) => entries
  | _ => []

def read (workspace : Workspace) (path : Path) : Except AccessFault String := do
  let names ← workspace.resolve path
  match workspace.root.entry? names with
  | some (.file (some text)) => return text
  | some (.file none) => throw .notText
  | some (.directory _) => throw .isDirectory
  | none => throw .notFound

def herePath (workspace : Workspace) : Path :=
  ⟨"/" ++ String.intercalate "/" workspace.here⟩

def putIn (workspace : Workspace) (names : List String) (name : String) (tree : FileTree) :
    Workspace :=
  { workspace with root := workspace.root.put (names ++ [name]) tree }

def write (workspace : Workspace) (path : Path) (text : String) : Except AccessFault Workspace := do
  if path.text.isEmpty then throw .notFound
  let names ← workspace.follow path path.pieces.dropLast
  let names ← workspace.step names []
  let piece := path.pieces.getLast?.getD []
  let name : String := .ofList piece
  if piece = [] || piece = ['.'] || piece = ['.', '.'] then throw .isDirectory
  if (workspace.root.entry? (names ++ [name])).any FileTree.isDirectory then throw .isDirectory
  return workspace.putIn names name (.file (some text))

def makeDirectory (workspace : Workspace) (path : Path) : Except AccessFault Workspace := do
  let pieces := (path.pieces.reverse.dropWhile (· = [])).reverse
  match pieces.getLast? with
  | none => if path.isAbsolute then throw .alreadyExists else throw .notFound
  | some piece =>
    let names ← workspace.follow path pieces.dropLast
    let names ← workspace.step names []
    match workspace.step names piece with
    | .ok _ => throw .alreadyExists
    | .error _ => return workspace.putIn names (.ofList piece) (.directory [])

def makeDirectories (workspace : Workspace) (path : Path) : Except AccessFault Workspace :=
  go path.parts.length path
where
  go : Nat → Path → Except AccessFault Workspace
    | count, path =>
      if path.text.isEmpty then .ok workspace
      else
        match workspace.makeDirectory path with
        | .ok made => .ok made
        | .error .notFound =>
          match count, path.parent? with
          | count + 1, some outer => do
            let made ← go count outer
            match made.makeDirectory path with
            | .ok made => .ok made
            | .error fault => if made.isDirectory path then .ok made else .error fault
          | _, _ => .error .notFound
        | .error fault => if workspace.isDirectory path then .ok workspace else .error fault

end Workspace

end Seepage

set_option autoImplicit false

namespace Seepage

inductive FileTree where
  | file (text : Option String)
  | directory (entries : List (String × FileTree))
deriving Inhabited

inductive AccessFault where
  | notFound
  | alreadyExists
  | notDirectory
  | isDirectory
  | notText
deriving DecidableEq, Repr, Inhabited

def AccessFault.message : AccessFault → String
  | .notFound => "No such file or directory (os error 2)"
  | .alreadyExists => "File exists (os error 17)"
  | .notDirectory => "Not a directory (os error 20)"
  | .isDirectory => "Is a directory (os error 21)"
  | .notText => "stream did not contain valid UTF-8"

namespace FileTree

def isFile : FileTree → Bool
  | .file _ => true
  | .directory _ => false

def isDirectory : FileTree → Bool
  | .file _ => false
  | .directory _ => true

def entry? : FileTree → List String → Option FileTree
  | tree, [] => some tree
  | .file _, _ :: _ => none
  | .directory entries, name :: rest =>
    match entries.lookup name with
    | some tree => tree.entry? rest
    | none => none

def replaceEntry (name : String) (tree : FileTree) :
    List (String × FileTree) → List (String × FileTree)
  | [] => [(name, tree)]
  | (other, old) :: rest =>
    if other = name then (name, tree) :: rest else (other, old) :: replaceEntry name tree rest

def put : FileTree → List String → FileTree → FileTree
  | _, [], added => added
  | .directory entries, name :: rest, added =>
    let old := (entries.lookup name).getD (.directory [])
    .directory (replaceEntry name (old.put rest added) entries)
  | .file text, _ :: _, _ => .file text

mutual

def files (admits : String → Bool) : FileTree → List (List String × Option String)
  | .file text => [([], text)]
  | .directory entries => filesIn admits entries

def filesIn (admits : String → Bool) :
    List (String × FileTree) → List (List String × Option String)
  | [] => []
  | (name, tree) :: rest =>
    (if admits name then (files admits tree).map fun (path, text) => (name :: path, text)
      else []) ++ filesIn admits rest

end

mutual

def contents : FileTree → List (List String × FileTree)
  | .file _ => []
  | .directory entries => contentsIn entries

def contentsIn : List (String × FileTree) → List (List String × FileTree)
  | [] => []
  | (name, tree) :: rest =>
    ([name], tree) :: (contents tree).map (fun (path, inner) => (name :: path, inner)) ++
      contentsIn rest

end

end FileTree

end Seepage

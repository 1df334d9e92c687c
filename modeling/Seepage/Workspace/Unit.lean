import Seepage.Analysis.Report
import Seepage.Workspace.Basic

set_option autoImplicit false

namespace Seepage

def isVisible (name : String) : Bool :=
  !(name.startsWith "." || name == "node_modules" || name == "miniprogram_npm")

def isScriptName (name : String) : Bool :=
  let extension := (Path.splitExtension name).2
  (extension == some "js" || extension == some "ts") &&
    !(name.endsWith ".d.ts" || name.endsWith ".min.js")

abbrev FoundScript := List String × Option String

namespace FoundScript

def isMain : FoundScript → Bool
  | ([name], _) => (Path.splitExtension name).1 == "app"
  | _ => false

def le (a b : FoundScript) : Bool :=
  if isMain a != isMain b then isMain a else (compare a.1 b.1).isLE

end FoundScript

def markupNames (names : List String) : List String :=
  match names.getLast? with
  | some name => names.dropLast ++ [(Path.splitExtension name).1 ++ ".wxml"]
  | none => []

def reportName (names : List String) : String :=
  String.intercalate "/" names

namespace SourceUnit

def withMarkup (unit : SourceUnit) (script : ScriptFile)
    (markup : Option (String × Option String)) : SourceUnit :=
  match markup with
  | none => { unit with scripts := unit.scripts ++ [script] }
  | some (name, some text) =>
    { unit with scripts := unit.scripts ++ [{ script with markup := some ⟨name, text⟩ }] }
  | some (name, none) =>
    { unit with
      scripts := unit.scripts ++ [script]
      unreadable := unit.unreadable ++ [(name, AccessFault.notText.message)] }

def addFile (unit : SourceUnit) (name : String) (text : Option String)
    (markup : Option (String × Option String)) : SourceUnit :=
  match text with
  | some text => unit.withMarkup { name, text } markup
  | none => { unit with unreadable := unit.unreadable ++ [(name, AccessFault.notText.message)] }

end SourceUnit

namespace FileTree

def scripts (tree : FileTree) : List FoundScript :=
  ((tree.files isVisible).filter fun (names, _) => names.getLast?.any isScriptName).mergeSort
    FoundScript.le

def markupOf (tree : FileTree) (names : List String) : Option (String × Option String) :=
  match tree.entry? (markupNames names) with
  | some (.file text) => some (reportName (markupNames names), text)
  | _ => none

def loadUnit (tree : FileTree) (name : String) : SourceUnit :=
  tree.scripts.foldl (fun unit (names, text) =>
    unit.addFile (reportName names) text (tree.markupOf names)) { name }

end FileTree

namespace Workspace

def markupBeside (workspace : Workspace) (script : Path) : Option (String × Option String) :=
  let path := script.withExtension "wxml"
  match workspace.get? path with
  | some (.file text) => some (if path.same script then "" else path.joined, text)
  | _ => none

def loadUnit (workspace : Workspace) (root : Path) (name : String) : SourceUnit :=
  match workspace.get? root with
  | none => { name }
  | some (.directory entries) => FileTree.loadUnit (.directory entries) name
  | some (.file text) =>
    if root.fileName?.any isScriptName then
      SourceUnit.addFile { name } "" text (workspace.markupBeside root)
    else { name }

end Workspace

end Seepage

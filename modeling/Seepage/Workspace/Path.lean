set_option autoImplicit false

namespace Seepage

structure Path where
  text : String
deriving DecidableEq, Repr, Inhabited

namespace Path

inductive Part where
  | root
  | here
  | up
  | name (text : String)
deriving DecidableEq, Repr, Inhabited

namespace Part

def text : Part → String
  | .root => "/"
  | .here => "."
  | .up => ".."
  | .name text => text

def rank : Part → Nat
  | .root => 0
  | .here => 1
  | .up => 2
  | .name _ => 3

instance : Ord Part where
  compare a b := (compare a.rank b.rank).then (compare a.text b.text)

end Part

def split : List Char → List (List Char)
  | [] => [[]]
  | c :: rest =>
    if c = '/' then [] :: split rest
    else
      match split rest with
      | [] => [[c]]
      | piece :: pieces => (c :: piece) :: pieces

def pieces (path : Path) : List (List Char) :=
  split path.text.toList

def isAbsolute (path : Path) : Bool :=
  path.text.toList.head? == some '/'

def partOf? (isFirst : Bool) (piece : List Char) : Option Part :=
  if piece = [] then none
  else if piece = ['.'] then if isFirst then some .here else none
  else if piece = ['.', '.'] then some .up
  else some (.name (.ofList piece))

def partsFrom (isFirst : Bool) (start : Nat) : List (List Char) → List (Part × Nat)
  | [] => []
  | piece :: rest =>
    let stop := start + piece.length
    (partOf? isFirst piece).toList.map (·, stop) ++ partsFrom false (stop + 1) rest

def located (path : Path) : List (Part × Nat) :=
  match path.text.toList with
  | '/' :: rest => (.root, 1) :: partsFrom false 1 (split rest)
  | text => partsFrom true 0 (split text)

def parts (path : Path) : List Part :=
  path.located.map (·.1)

def same (a b : Path) : Bool :=
  a.parts == b.parts

def le (a b : Path) : Bool :=
  (compare a.parts b.parts).isLE

def fileName? (path : Path) : Option String :=
  match path.parts.getLast? with
  | some (.name text) => some text
  | _ => none

def before (path : Path) (stop : Nat) : Path :=
  ⟨.ofList (path.text.toList.take stop)⟩

def parent? (path : Path) : Option Path :=
  match path.located.reverse with
  | [] => none
  | (.root, _) :: _ => none
  | [_] => some ⟨""⟩
  | _ :: (_, stop) :: _ => some (path.before stop)

def join (base path : Path) : Path :=
  if path.isAbsolute || base.text.isEmpty then path
  else if base.text.toList.getLast? == some '/' then ⟨base.text ++ path.text⟩
  else ⟨base.text ++ "/" ++ path.text⟩

def child (base : Path) (name : String) : Path :=
  base.join ⟨name⟩

def ancestors (path : Path) : List Path :=
  go path.parts.length path
where
  go : Nat → Path → List Path
    | 0, path => [path]
    | count + 1, path =>
      match path.parent? with
      | some outer => path :: go count outer
      | none => [path]

def splitExtension (name : String) : String × Option String :=
  let backwards := name.toList.reverse
  match backwards.dropWhile (· != '.') with
  | '.' :: c :: stem =>
    (.ofList (c :: stem).reverse, some (.ofList (backwards.takeWhile (· != '.')).reverse))
  | _ => (name, none)

def extension? (path : Path) : Option String :=
  path.fileName?.bind fun name => (splitExtension name).2

def withExtension (path : Path) (extension : String) : Path :=
  match path.located.getLast? with
  | some (.name name, stop) =>
    let stem := (splitExtension name).1
    ⟨(path.before (stop - name.length + stem.length)).text ++ "." ++ extension⟩
  | _ => path

def joined (path : Path) : String :=
  String.intercalate "/" (path.parts.map Part.text)

end Path

end Seepage

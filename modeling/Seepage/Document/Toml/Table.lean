import Seepage.Document.Toml.Fault
import Seepage.Document.Value

set_option autoImplicit false

namespace Seepage.Document.Toml

inductive Origin where
  | header
  | implied
  | dotted
deriving DecidableEq, Repr, Inhabited

inductive Item where
  | value (value : Value)
  | table (origin : Origin) (items : List (String × Item))
  | tables (entries : List (List (String × Item)))
deriving Inhabited

abbrev Items := List (String × Item)

namespace Items

def erase (items : Items) (key : String) : Items :=
  items.filter (·.1 != key)

def put (items : Items) (key : String) (item : Item) : Items :=
  if items.any (·.1 == key) then
    items.map fun (name, old) => if name = key then (name, item) else (name, old)
  else items ++ [(key, item)]

end Items

def kindOf : Value → String
  | .string _ => "string"
  | .integer _ => "integer"
  | .float _ => "float"
  | .boolean _ => "boolean"
  | .datetime => "datetime"
  | .array _ => "array"
  | .table _ => "inline table"
  | .null => "none"

def changeAt (viaDots : Bool) (change : Origin → Items → Except Cause Items) :
    List String → List String → Origin → Items → Except Cause Items
  | _, [], origin, items => change origin items
  | passed, key :: rest, _, items =>
    let made : Origin := if viaDots then .dotted else .implied
    match items.lookup key with
    | none => do
      let inner ← changeAt viaDots change (passed ++ [key]) rest made []
      return Items.put items key (.table made inner)
    | some (.value value) => .error (.extendsValue (passed ++ [key]) (kindOf value))
    | some (.tables (last :: others)) => do
      let inner ← changeAt viaDots change (passed ++ [key]) rest .header last
      return Items.put items key (.tables (inner :: others))
    | some (.tables []) => .ok items
    | some (.table origin inner) =>
      if viaDots && origin = .header then .error (.duplicateKey key none)
      else do
        let inner ← changeAt viaDots change (passed ++ [key]) rest origin inner
        return Items.put items key (.table origin inner)

def addValue (tablePath : Option (List String)) (path : List String) (key : String) (value : Value)
    (origin : Origin) (items : Items) : Except Cause Items :=
  changeAt true (fun origin items =>
    if (origin = .dotted) = path.isEmpty then .error (.duplicateKey key none)
    else if items.any (·.1 == key) then .error (.duplicateKey key tablePath)
    else .ok (items ++ [(key, .value value)])) [] path origin items

structure Progress where
  root : Items := []
  path : List String := []
  isArray : Bool := false
  current : Items := []
deriving Inhabited

namespace Progress

def close (progress : Progress) : Except Cause Items :=
  match progress.path.getLast? with
  | none => .ok progress.current
  | some key =>
    changeAt false (fun _ items =>
      if progress.isArray then
        match items.lookup key with
        | some (.tables entries) =>
          .ok (Items.put items key (.tables (progress.current :: entries)))
        | some _ => .error (.duplicateKey key (some progress.path.dropLast))
        | none => .ok (Items.put items key (.tables [progress.current]))
      else .ok (Items.put items key (.table .header progress.current)))
      [] progress.path.dropLast .header progress.root

def openTable (progress : Progress) (path : List String) : Except Cause Progress := do
  let root ← progress.close
  let key := path.getLast?.getD ""
  let root ← changeAt false (fun _ items =>
    match items.lookup key with
    | none => .ok items
    | some (.table .implied _) => .ok items
    | some _ => .error (.duplicateKey key (some path.dropLast))) [] path.dropLast .header root
  let taken := takenOver path root
  return { root := taken.2, path, isArray := false, current := taken.1 }
where
  takenOver : List String → Items → Items × Items
    | [], items => ([], items)
    | [key], items =>
      match items.lookup key with
      | some (.table _ inner) => (inner, Items.erase items key)
      | _ => ([], items)
    | key :: rest, items =>
      match items.lookup key with
      | some (.table origin inner) =>
        let (found, inner) := takenOver rest inner
        (found, Items.put items key (.table origin inner))
      | some (.tables (last :: others)) =>
        let (found, last) := takenOver rest last
        (found, Items.put items key (.tables (last :: others)))
      | _ => ([], items)

def openArray (progress : Progress) (path : List String) : Except Cause Progress := do
  let root ← progress.close
  let key := path.getLast?.getD ""
  let root ← changeAt false (fun _ items =>
    match items.lookup key with
    | none => .ok (Items.put items key (.tables []))
    | some (.tables _) => .ok items
    | some _ => .error (.duplicateKey key (some path.dropLast))) [] path.dropLast .header root
  return { root, path, isArray := true, current := [] }

def add (progress : Progress) (path : List String) (key : String) (value : Value) :
    Except Cause Progress := do
  let current ← addValue (some progress.path) path key value .header progress.current
  return { progress with current }

end Progress

mutual

def Item.toValue : Item → Value
  | .value value => value
  | .table _ items => .table (fieldsOf items)
  | .tables entries => .array (entriesOf entries).reverse

def fieldsOf : List (String × Item) → List (String × Value)
  | [] => []
  | (key, item) :: rest => (key, item.toValue) :: fieldsOf rest

def entriesOf : List (List (String × Item)) → List Value
  | [] => []
  | items :: rest => .table (fieldsOf items) :: entriesOf rest

end

end Seepage.Document.Toml

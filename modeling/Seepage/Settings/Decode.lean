import Seepage.Document.Value
import Seepage.Settings.Basic

set_option autoImplicit false

namespace Seepage

open Document

inductive Mismatch where
  | kind (found : Value) (expected : String)
  | negative (value : Int) (expected : String)
  | tooLong (length : Nat)
deriving Repr, Inhabited

namespace Mismatch

def found : Value → String
  | .null => "null"
  | .boolean value => "boolean `" ++ (if value then "true" else "false") ++ "`"
  | .integer value => "integer `" ++ toString value ++ "`"
  | .float text => "floating point `" ++ text ++ "`"
  | .string text => "string " ++ Text.quoted text
  | .array _ => "sequence"
  | .table _ => "map"
  | .datetime => "map"

def message : Mismatch → String
  | .kind value expected => "invalid type: " ++ found value ++ ", expected " ++ expected
  | .negative value expected =>
    "invalid value: integer `" ++ toString value ++ "`, expected " ++ expected
  | .tooLong length =>
    "invalid length " ++ toString length ++ ", expected fewer elements in array"

end Mismatch

namespace Settings

def decodeString : Value → Except Mismatch String
  | .string text => .ok text
  | value => .error (.kind value "a string")

def decodeStrings : Value → Except Mismatch (List String)
  | .array elements => elements.mapM decodeString
  | value => .error (.kind value "a sequence")

def decodeBool : Value → Except Mismatch Bool
  | .boolean value => .ok value
  | value => .error (.kind value "a boolean")

def decodeCount (expected : String) : Value → Except Mismatch Nat
  | .integer (.ofNat value) => .ok value
  | .integer value => .error (.negative value expected)
  | value => .error (.kind value expected)

def decodeLimit : Value → Except Mismatch (Option Nat)
  | .null => .ok none
  | value => (decodeCount "usize" value).map some

structure Field (σ : Type) where
  name : String
  decode : σ → Value → Except Mismatch σ

def decodeTable {σ : Type} (fields : List (Field σ)) (start : σ)
    (entries : List (String × Value)) : Except Mismatch σ :=
  entries.foldlM (fun record (name, value) =>
    match fields.find? (·.name == name) with
    | some field => field.decode record value
    | none => .ok record) start

def decodeElements {σ : Type} (start : σ) : List (Field σ) → List Value → Except Mismatch σ
  | field :: fields, value :: rest => do
    decodeElements (← field.decode start value) fields rest
  | _, _ => .ok start

def decodeRecord {σ : Type} (checksLength : Bool) (expected : String) (fields : List (Field σ))
    (start : σ) : Value → Except Mismatch σ
  | .table entries => decodeTable fields start entries
  | .datetime => .ok start
  | .array elements => do
    let record ← decodeElements start fields elements
    if checksLength && elements.length > fields.length then throw (.tooLong elements.length)
    return record
  | value => .error (.kind value expected)

def analysisFields : List (Field AnalysisSection) :=
  [⟨"timeout_secs", fun record value => do
      return { record with timeoutSecs := ← decodeCount "u64" value }⟩,
   ⟨"memory_limit_mb", fun record value => do
      return { record with memoryLimitMb := ← decodeCount "u64" value }⟩,
   ⟨"path_details", fun record value => do
      return { record with pathDetails := ← decodeBool value }⟩,
   ⟨"prototype_fallback", fun record value => do
      return { record with prototypeFallback := ← decodeBool value }⟩,
   ⟨"max_fallback_owners", fun record value => do
      return { record with maxFallbackOwners := ← decodeLimit value }⟩]

def fields (checksLength : Bool) : List (Field Settings) :=
  [⟨"sources", fun record value => do return { record with sources := ← decodeStrings value }⟩,
   ⟨"sinks", fun record value => do return { record with sinks := ← decodeStrings value }⟩,
   ⟨"analysis", fun record value => do
      return { record with
        analysis := ← decodeRecord checksLength "struct AnalysisSection" analysisFields {} value }⟩]

def decode (checksLength : Bool) (value : Value) : Except Mismatch Settings :=
  decodeRecord checksLength "struct Config" (fields checksLength) {} value

def unknown (known : List String) : Value → List String
  | .table entries =>
    sortDistinct (fun a b => decide (a ≤ b)) ((entries.map (·.1)).filter (!known.contains ·))
  | _ => []

def analysisOf : Value → Value
  | .table entries => (entries.lookup "analysis").getD .null
  | _ => .null

def warnings (value : Value) : List String :=
  (unknown ((fields true).map (·.name)) value).map
    (fun name => "Unknown config option: '" ++ name ++ "'") ++
  (unknown (analysisFields.map (·.name)) (analysisOf value)).map
    (fun name => "Unknown config option in [analysis]: '" ++ name ++ "'")

end Settings

end Seepage

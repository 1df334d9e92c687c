import Seepage.Document.Json
import Seepage.Document.Toml.Reader
import Seepage.Settings.Decode
import Seepage.Workspace.Path

set_option autoImplicit false

namespace Seepage

inductive SettingsFault where
  | unreadable (path : Path) (reason : String)
  | invalid (path : Path) (reason : String)
  | unknownFormat (path : Path)
deriving DecidableEq, Repr, Inhabited

def SettingsFault.message : SettingsFault → String
  | .unreadable path reason => "Failed to read config file '" ++ path.text ++ "': " ++ reason
  | .invalid path reason => "Invalid config in '" ++ path.text ++ "': " ++ reason
  | .unknownFormat path =>
    "Unsupported config format for '" ++ path.text ++ "' (expected .json or .toml)"

namespace Settings

inductive Format where
  | json
  | toml
deriving DecidableEq, Repr, Inhabited

def Format.ofPath? (path : Path) : Option Format :=
  match path.extension?.map String.toLower with
  | some "json" => some .json
  | some "toml" => some .toml
  | _ => none

def parse (format : Format) (text : String) : Except String (Settings × List String) := do
  let value ← match format with
    | .json => Document.Json.read text
    | .toml => (Document.Toml.read text).map .table
  let settings ← (decode (format = .json) value).mapError Mismatch.message
  return (settings, warnings value)

def parseAt (path : Path) (format : Format) (text : String) :
    Except SettingsFault (Settings × List String) :=
  (parse format text).mapError (.invalid path)

end Settings

end Seepage

import Seepage.Settings.Reader
import Seepage.Workspace.Basic

set_option autoImplicit false

namespace Seepage.Workspace

def settingsName : String := "minitaint.toml"

def findSettings? (workspace : Workspace) (start : Path) : Option Path :=
  (start.ancestors.map (·.child settingsName)).find? workspace.contains

def loadSettings (workspace : Workspace) (path : Path) :
    Except SettingsFault (Settings × List String) :=
  match Settings.Format.ofPath? path with
  | none => .error (.unknownFormat path)
  | some format =>
    match workspace.read path with
    | .error fault => .error (.unreadable path fault.message)
    | .ok text => Settings.parseAt path format text

end Seepage.Workspace

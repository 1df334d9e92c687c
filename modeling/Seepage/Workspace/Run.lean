import Seepage.Output.Files
import Seepage.Workspace.Configuration
import Seepage.Workspace.Discovery
import Seepage.Workspace.Unit
import Seepage.Workspace.UnitName

set_option autoImplicit false

namespace Seepage

structure Request where
  inputs : List Path
  settings : Option Path := none
  output : Path := ⟨"results"⟩
  isTimed : Bool := false
  pathDetails : Bool := false
  format : Output.Format := .tables
deriving DecidableEq, Repr, Inhabited

inductive Failure where
  | settings (fault : SettingsFault)
  | discovery (fault : DiscoveryFault)
  | outputDirectory (path : Path) (fault : AccessFault)
  | bench (path : Path) (fault : AccessFault)
  | results (failed total : Nat)
deriving DecidableEq, Repr, Inhabited

namespace Failure

def message : Failure → String
  | .settings (.unreadable path reason) =>
    (SettingsFault.unreadable path reason).message ++ ": " ++ reason
  | .settings fault => fault.message
  | .discovery fault => fault.message
  | .outputDirectory path fault =>
    "Failed to create output directory " ++ path.text ++ ": " ++ fault.message
  | .bench path fault => "Failed to create " ++ path.text ++ ": " ++ fault.message
  | .results failed total =>
    "Failed to write results for " ++ toString failed ++ " of " ++ toString total ++ " programs"

end Failure

structure Plan where
  workspace : Workspace
  config : AnalysisConfig
  units : List SourceUnit

structure UnitRun where
  report : Report
  metrics : Metrics := {}
deriving DecidableEq, Repr, Inhabited

structure Ending where
  workspace : Workspace
  stdout : String := ""
  stderr : String := ""
  failure : Option Failure := none

namespace Request

def loadSettings (request : Request) (workspace : Workspace) :
    Except SettingsFault (Settings × List String) :=
  match request.settings.or (workspace.findSettings? workspace.herePath) with
  | some path => workspace.loadSettings path
  | none => .ok ({}, [])

def config (request : Request) (settings : Settings) : AnalysisConfig :=
  let config := settings.config
  if request.pathDetails then { config with taint.mode := .detailed } else config

def plan? (request : Request) (workspace : Workspace) (settings : Settings) :
    Except Failure (Option Plan) := do
  let roots ← (workspace.programs request.inputs).mapError .discovery
  if roots.isEmpty then return none
  let made ← (workspace.makeDirectories request.output).mapError (.outputDirectory request.output)
  return some
    { workspace := made
      config := request.config settings
      units := roots.zipWith workspace.loadUnit (UnitName.assign roots) }

def warningLines (warnings : List String) : String :=
  String.join (warnings.map fun warning => "warning: " ++ warning ++ "\n")

def start (request : Request) (workspace : Workspace) : String × Except Ending Plan :=
  match request.loadSettings workspace with
  | .error fault => ("", .error { workspace, failure := some (.settings fault) })
  | .ok (settings, warnings) =>
    (warningLines warnings,
      match request.plan? workspace settings with
      | .error failure => .error { workspace, failure := some failure }
      | .ok none => .error { workspace, stdout := "No Mini-Program found.\n" }
      | .ok (some plan) => .ok plan)

def writeFiles (output : Path) :
    Workspace → List (String × String) → Workspace × Option AccessFault
  | workspace, [] => (workspace, none)
  | workspace, (name, text) :: rest =>
    match workspace.write (output.child name) text with
    | .ok workspace => writeFiles output workspace rest
    | .error fault => (workspace, some fault)

def writeResults (request : Request) : Workspace → List UnitRun → Workspace × List String
  | workspace, [] => (workspace, [])
  | workspace, run :: rest =>
    let metrics := if request.isTimed then some run.metrics else none
    let (workspace, fault) := writeFiles request.output workspace
      (Output.files request.format run.report metrics)
    let (workspace, errors) := request.writeResults workspace rest
    (workspace, (fault.toList.map fun fault =>
      "error: " ++ run.report.unit ++ ": Failed to write results into " ++ request.output.text ++
        ": " ++ fault.message ++ "\n") ++ errors)

def writeBench (request : Request) (workspace : Workspace) (runs : List UnitRun) :
    Except Failure Workspace :=
  if !request.isTimed then .ok workspace
  else
    let path := request.output.child Output.benchName
    (workspace.write path (Output.benchTable (runs.map fun run => (run.report.unit, run.metrics)))
      ).mapError (.bench path)

end Request

namespace UnitRun

def ofUnit (config : AnalysisConfig) (unit : SourceUnit) : UnitRun :=
  let (report, sizes) := unit.analyze config
  { report, metrics := { sizes } }

def line (run : UnitRun) : String :=
  match run.report.failure with
  | some overrun => "✗ " ++ run.report.unit ++ ": " ++ overrun.message ++ "\n"
  | none =>
    let crossing := (run.report.findings.filter (·.isInterPage)).length
    let skipped := run.report.ingestErrors.length
    "✓ " ++ run.report.unit ++ ": " ++ toString run.report.findings.length ++ " findings" ++
      (if crossing = 0 then "" else " (" ++ toString crossing ++ " across pages)") ++
      (if skipped = 0 then "" else ", " ++ toString skipped ++ " files skipped") ++
      " [" ++ toString (run.metrics.totalMicros / 1000) ++ " ms]\n"

def summary (output : Path) (runs : List UnitRun) : String :=
  let completed := runs.filter (·.report.failure.isNone)
  String.join (runs.map line) ++ "\nSummary: " ++ toString runs.length ++ " programs, " ++
    toString (completed.flatMap (·.report.findings)).length ++ " findings, " ++
    toString (runs.length - completed.length) ++ " failed. Results in " ++ output.text ++ "\n"

end UnitRun

namespace Request

def finish (request : Request) (workspace : Workspace) (runs : List UnitRun) : Ending :=
  let (workspace, errors) := request.writeResults workspace runs
  let stderr := String.join errors
  match request.writeBench workspace runs with
  | .error failure => { workspace, stderr, failure := some failure }
  | .ok workspace =>
    { workspace, stderr
      stdout := UnitRun.summary request.output runs
      failure := if errors.isEmpty then none else some (.results errors.length runs.length) }

def run (request : Request) (workspace : Workspace) : Ending :=
  let (warnings, started) := request.start workspace
  let ending := match started with
    | .error ending => ending
    | .ok plan =>
      request.finish plan.workspace (plan.units.map (UnitRun.ofUnit plan.config))
  { ending with stderr := warnings ++ ending.stderr }

end Request

end Seepage

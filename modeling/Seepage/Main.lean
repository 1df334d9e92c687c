import Seepage.Workspace.Arguments

set_option autoImplicit false

namespace Seepage.Main

partial def snapshot (depth : Nat) (path : String) : IO (Option FileTree) := do
  let place := (← IO.currentDir) / path
  if ← place.isDir then
    let mut entries := []
    for entry in ← place.readDir do
      if depth > 0 || isVisible entry.fileName then
        if let some tree ← snapshot (depth - 1) (path ++ "/" ++ entry.fileName) then
          entries := (entry.fileName, tree) :: entries
    return some (.directory entries)
  else if ← place.pathExists then
    let bytes ← try IO.FS.readBinFile place catch _ => return some (.file none)
    return some (.file (String.fromUTF8? bytes))
  else return none

def picture (workspace : Workspace) (path : Path) : IO Workspace := do
  match ← snapshot 2 path.text with
  | some tree =>
    return { workspace with
      root := workspace.root.put (Workspace.placeOf workspace.here path) tree }
  | none => return workspace

def workspaceFor (request : Request) : IO Workspace := do
  let here := Workspace.namesOf ⟨(← IO.currentDir).toString⟩
  let start : Workspace := .ofEntries here [] []
  let settings := start.herePath.ancestors.map (·.child Workspace.settingsName)
  let mut workspace := start
  for path in settings ++ request.settings.toList ++ [request.output] ++ request.inputs do
    workspace ← picture workspace path
  for list in request.inputs do
    if let .ok text := workspace.read list then
      for path in Workspace.listed text do
        workspace ← picture workspace path
        workspace ← picture workspace ((list.parent?.getD ⟨"."⟩).join path)
  return workspace

def timed {α : Type} (phase : Phase) (metrics : Metrics) (stage : Unit → α) :
    IO (α × Metrics) := do
  let start ← IO.monoNanosNow
  let result ← IO.lazyPure stage
  let stop ← IO.monoNanosNow
  return (result, metrics.record phase ((stop - start) / 1000))

def analyze (config : AnalysisConfig) (unit : SourceUnit) : IO UnitRun := do
  let ((intake, overrun), metrics) ← timed .ingest {} fun _ => unit.intake config
  match overrun with
  | some overrun =>
    let (report, sizes) := intake.abandoned unit.name overrun
    return { report, metrics := metrics.addSizes sizes }
  | none =>
    let (intake, metrics) ← timed .link metrics fun _ => intake.linked
    let (outcome, metrics) ← timed .taint metrics fun _ => intake.trace config.taint
    let (report, sizes) := intake.finish unit.name outcome
    return { report, metrics := metrics.addSizes sizes }

def save (output : Path) (workspace : Workspace) : IO Unit := do
  IO.FS.createDirAll output.text
  for (name, tree) in workspace.entries output do
    if let .file (some text) := tree then IO.FS.writeFile (output.child name).text text

def run (request : Request) : IO UInt32 := do
  let (warnings, started) := request.start (← workspaceFor request)
  IO.eprint warnings
  let ending ← match started with
    | .error ending => pure ending
    | .ok plan =>
      let ending := request.finish plan.workspace (← plan.units.mapM (analyze plan.config))
      save request.output ending.workspace
      pure ending
  IO.print ending.stdout
  IO.eprint ending.stderr
  match ending.failure with
  | some failure =>
    IO.eprintln ("Error: " ++ failure.message)
    return 1
  | none => return 0

end Seepage.Main

def main (arguments : List String) : IO UInt32 := do
  match Seepage.Arguments.parse arguments with
  | .ok (.analyze request) => Seepage.Main.run request
  | .ok .help =>
    IO.print Seepage.Arguments.help
    return 0
  | .ok .version =>
    IO.print Seepage.Arguments.version
    return 0
  | .error message =>
    IO.eprint ("error: " ++ message ++ "\n\n" ++ Seepage.Arguments.usage)
    return 2

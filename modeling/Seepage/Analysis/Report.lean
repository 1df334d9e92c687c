import Seepage.Analysis.Config
import Seepage.Taint.Finding

set_option autoImplicit false

namespace Seepage

structure TextFile where
  name : String
  text : String
deriving DecidableEq, Repr, Inhabited

structure ScriptFile where
  name : String
  text : String
  markup : Option TextFile := none
deriving DecidableEq, Repr, Inhabited

structure SourceUnit where
  name : String
  scripts : List ScriptFile := []
  unreadable : List (String × String) := []
deriving DecidableEq, Repr, Inhabited

structure Report where
  unit : String
  failure : Option Overrun := none
  filesAnalyzed : Nat := 0
  findings : List Taint.Finding := []
  ingestErrors : List IngestError := []
  diagnostics : List Diagnostic := []
deriving DecidableEq, Repr, Inhabited

structure Intake where
  program : Program := {}
  budget : Budget
  filesAnalyzed : Nat := 0
  ingestErrors : List IngestError := []
  diagnostics : List Diagnostic := []
  sizes : Sizes := {}

namespace Intake

def recovered (script : String) (error : Script.SyntaxError) : Diagnostic :=
  { concern := .recoveredSyntax
    severity := .warning
    message := "recovered from syntax error: " ++ error.message
    file := script
    line := error.line
    column := error.column }

def addGraph (intake : Intake) (script : ScriptFile) (graph : FileGraph) (budget : Budget)
    (remarks : List Diagnostic) : Intake :=
  let (program, file) := intake.program.merge graph
  { program := match script.markup with
      | some page => program.attach file (Markup.scan page.name page.text)
      | none => program
    budget
    filesAnalyzed := intake.filesAnalyzed + 1
    ingestErrors := intake.ingestErrors
    diagnostics := intake.diagnostics ++ remarks ++ graph.diagnostics
    sizes := intake.sizes.add graph.sizes }

@[irreducible] def add (options : Alias.Options) (intake : Intake) (script : ScriptFile) :
    Except Overrun Intake :=
  let file := Script.File.read script.name script.text
  match Arena.ofFile file with
  | .error error => .ok { intake with ingestErrors := intake.ingestErrors ++ [error] }
  | .ok arena => do
    intake.budget.check
    let (graph, budget) ← FileGraph.build arena options intake.budget
    return intake.addGraph script graph budget (file.errors.map (recovered script.name))

def addAll (options : Alias.Options) : Intake → List ScriptFile → Intake × Option Overrun
  | intake, [] => (intake, none)
  | intake, script :: rest =>
    match intake.add options script with
    | .ok intake => intake.addAll options rest
    | .error overrun => (intake, some overrun)

def abandoned (intake : Intake) (unit : String) (overrun : Overrun) : Report × Sizes :=
  ({ unit
     failure := some overrun
     filesAnalyzed := intake.filesAnalyzed
     ingestErrors := intake.ingestErrors }, intake.sizes)

def linked (intake : Intake) : Intake :=
  let program := intake.program.link
  { intake with
    program
    sizes := intake.sizes.add { linkEdges := program.links.length + program.markupEdges.length } }

def concluded (intake : Intake) (unit : String) (outcome : Taint.Outcome) : Report × Sizes :=
  ({ unit
     filesAnalyzed := intake.filesAnalyzed
     findings := outcome.findings
     ingestErrors := intake.ingestErrors
     diagnostics := intake.diagnostics },
   intake.sizes.add
    { findings := outcome.findings.length
      taintSteps := outcome.steps })

def trace (intake : Intake) (settings : Taint.Settings) : Except Overrun Taint.Outcome := do
  intake.budget.check
  Taint.analyzeWithin intake.budget intake.program settings

def finish (intake : Intake) (unit : String) : Except Overrun Taint.Outcome → Report × Sizes
  | .error overrun => intake.abandoned unit overrun
  | .ok outcome => intake.concluded unit outcome

end Intake

namespace SourceUnit

def unreadableErrors (unit : SourceUnit) : List IngestError :=
  unit.unreadable.map fun (file, message) => .unreadable file message

def intake (unit : SourceUnit) (config : AnalysisConfig) : Intake × Option Overrun :=
  let start : Intake :=
    { budget := { ceiling := config.memoryCeiling }, ingestErrors := unit.unreadableErrors }
  start.addAll config.heap unit.scripts

def analyze (unit : SourceUnit) (config : AnalysisConfig) : Report × Sizes :=
  match unit.intake config with
  | (intake, some overrun) => intake.abandoned unit.name overrun
  | (intake, none) =>
    let intake := intake.linked
    intake.finish unit.name (intake.trace config.taint)

end SourceUnit

end Seepage

import Seepage.Proofs.Analysis.Intake
import Seepage.Proofs.Taint.Range
import Seepage.Proofs.Text.Offsets

set_option autoImplicit false

namespace Seepage

inductive Intake.Taken (config : AnalysisConfig) : Intake → Prop where
  | start (errors : List IngestError) :
    Taken config { budget := { ceiling := config.memoryCeiling }, ingestErrors := errors }
  | skip {intake : Intake} (taken : Taken config intake) (error : IngestError) :
    Taken config { intake with ingestErrors := intake.ingestErrors ++ [error] }
  | graph {intake : Intake} (taken : Taken config intake) (script : ScriptFile) {file : Script.File}
    {arena : Arena} {graph : FileGraph} {budget : Budget} (remarks : List Diagnostic)
    (read : Arena.ofFile file = .ok arena)
    (made : FileGraph.build arena config.heap intake.budget = .ok (graph, budget)) :
    Taken config (intake.addGraph script graph budget remarks)

namespace Intake

variable {config : AnalysisConfig} {intake : Intake}

theorem placed_addGraph (placed : intake.program.Placed) {graph : FileGraph} (built : graph.Built)
    (script : ScriptFile) (budget : Budget) (remarks : List Diagnostic) :
    (intake.addGraph script graph budget remarks).program.Placed := by
  have merged := placed.merge built
  unfold addGraph
  simp only
  split
  case h_1 page _ => exact merged.attach (Program.merge_lt intake.program graph).1 _
  case h_2 => exact merged

theorem Taken.placed (taken : Taken config intake) : intake.program.Placed := by
  induction taken with
  | start => exact Program.placed_empty
  | skip _ _ ih => exact ih
  | graph _ script remarks read made ih =>
    exact placed_addGraph ih ⟨_, _, _, _, _, read, made⟩ script _ remarks

theorem Taken.add (taken : Taken config intake) {script : ScriptFile} {after : Intake}
    (added : intake.add config.heap script = .ok after) : Taken config after := by
  cases read : Arena.ofFile (Script.File.read script.name script.text) with
  | error error =>
    rw [intake.add_of_error read] at added
    cases added
    exact taken.skip error
  | ok arena =>
    rw [intake.add_of_tree read] at added
    cases calm : intake.budget.check with
    | error overrun => simp [calm, Except.bind] at added
    | ok =>
    cases made : FileGraph.build arena config.heap intake.budget with
    | error overrun => simp [calm, made, Except.bind, Except.map] at added
    | ok found =>
      rw [calm, made] at added
      cases added
      exact taken.graph script _ read made

theorem Taken.addAll (taken : Taken config intake) (scripts : List ScriptFile) :
    Taken config (intake.addAll config.heap scripts).1 := by
  induction scripts generalizing intake with
  | nil => exact taken
  | cons script rest ih =>
    rw [Intake.addAll]
    split
    case h_1 after added => exact ih (taken.add added)
    case h_2 => exact taken

end Intake

structure AnalysisConfig.InRange (config : AnalysisConfig) : Prop where
  lines : ∀ starts pos, ∃ start,
    (0 :: starts.tail)[(Text.lineColumn starts pos).1 - 1]? = some start ∧
      start + (Text.lineColumn starts pos).2 = pos - 1 + 1
  markup : ∀ text : String, Markup.Cut 1 text.toList (Markup.tokens text)
  contexts : ∀ frames, StackInRange frames
  files : ∀ file arena, Arena.ofFile file = .ok arena →
    (FileGraph.assemble arena config.heap).InRange
  programs : ∀ intake, Intake.Taken config intake → intake.program.link.InRange
  findings : ∀ intake, Intake.Taken config intake →
    Taint.InRange intake.program.link config.taint

theorem positions_inRange (config : AnalysisConfig) :
    config.InRange ∧ ∀ unit : SourceUnit, Intake.Taken config (unit.intake config).1 := by
  have placed {intake : Intake} (taken : Intake.Taken config intake) := taken.placed
  constructor
  · exact
      { lines := Text.lineColumn_spec
        markup := Markup.cut_tokens
        contexts := stackInRange
        files := fun file arena read => FileGraph.inRange_assemble (Arena.wellNumbered_ofFile read)
          (Arena.laidOut_ofFile read) config.heap
        programs := fun intake taken => (placed taken).inRange
        findings := fun intake taken => Taint.inRange_analyze
          (placed taken).toConsistent.link.toConsistent (placed taken).inRange config.taint }
  · intro unit
    exact (Intake.Taken.start unit.unreadableErrors).addAll unit.scripts

end Seepage

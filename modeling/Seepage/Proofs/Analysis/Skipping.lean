import Seepage.Proofs.Analysis.Intake

set_option autoImplicit false

namespace Seepage

variable {script : ScriptFile} {error : IngestError}

@[irreducible] def ScriptFile.fault? (script : ScriptFile) : Option IngestError :=
  match Arena.ofFile (Script.File.read script.name script.text) with
  | .error error => some error
  | .ok _ => none

def SourceUnit.parsed (unit : SourceUnit) : SourceUnit :=
  { unit with scripts := unit.scripts.filter (·.fault?.isNone), unreadable := [] }

namespace ScriptFile

theorem fault_eq_some : script.fault? = some error ↔
      Arena.ofFile (Script.File.read script.name script.text) = .error error := by
  unfold fault?
  split <;> simp_all

theorem fault_eq_none : script.fault? = none ↔
      ∃ arena, Arena.ofFile (Script.File.read script.name script.text) = .ok arena := by
  unfold fault?
  split <;> simp_all

theorem file_fault (fault : script.fault? = some error) : error.file = script.name := by
  rw [fault_eq_some, Arena.ofFile] at fault
  split at fault
  · cases fault
  · cases fault
    rfl

end ScriptFile

theorem files_faults (scripts : List ScriptFile) :
    (scripts.filterMap ScriptFile.fault?).map IngestError.file =
      (scripts.filter (·.fault?.isSome)).map ScriptFile.name := by
  induction scripts with
  | nil => rfl
  | cons script rest ih =>
    cases fault : script.fault? with
    | none => simp [fault, ih]
    | some error => simp [fault, ih, ScriptFile.file_fault fault]

namespace Intake

def Agree (intake other : Intake) : Prop :=
  ∃ errors, other = { intake with ingestErrors := errors }

variable {intake other : Intake}

theorem Agree.add (agree : intake.Agree other) (options : Alias.Options)
    (fault : script.fault? = none) : (∃ overrun, intake.add options script = .error overrun ∧
      other.add options script = .error overrun) ∨
    ∃ after after', intake.add options script = .ok after ∧ other.add options script = .ok after' ∧
      after.Agree after' ∧ after.ingestErrors = intake.ingestErrors ∧
      after.filesAnalyzed = intake.filesAnalyzed + 1 := by
  obtain ⟨arena, read⟩ := ScriptFile.fault_eq_none.mp fault
  obtain ⟨errors, rfl⟩ := agree
  rw [intake.add_of_tree read, add_of_tree _ read]
  cases intake.budget.check with
  | error overrun => exact .inl ⟨overrun, rfl, rfl⟩
  | ok =>
  cases FileGraph.build arena options intake.budget with
  | error overrun => exact .inl ⟨overrun, rfl, rfl⟩
  | ok built => exact .inr ⟨_, _, rfl, rfl, ⟨errors, rfl⟩, rfl, rfl⟩

theorem Agree.addAll (agree : intake.Agree other) (options : Alias.Options)
    (scripts : List ScriptFile) : let run := intake.addAll options scripts
    let run' := other.addAll options (scripts.filter (·.fault?.isNone))
    run.1.Agree run'.1 ∧ run.2 = run'.2 ∧
      (run.2 = none → run.1.ingestErrors = intake.ingestErrors ++ scripts.filterMap ScriptFile.fault? ∧
        run.1.filesAnalyzed =
          intake.filesAnalyzed + (scripts.filter (·.fault?.isNone)).length) := by
  induction scripts generalizing intake other with
  | nil => exact ⟨agree, rfl, fun _ => by simp [Intake.addAll]⟩
  | cons script rest ih =>
    cases fault : script.fault? with
    | some error =>
      have read := ScriptFile.fault_eq_some.mp fault
      have later := @ih { intake with ingestErrors := intake.ingestErrors ++ [error] } other
        agree
      simp only [Intake.addAll, intake.add_of_error read, List.filter_cons, fault, Option.isNone_some,
        Bool.false_eq_true, if_false, List.filterMap_cons]
      simpa using later
    | none =>
      simp only [List.filter_cons, fault, Option.isNone_none, if_true, List.filterMap_cons,
        Intake.addAll]
      rcases agree.add options fault with ⟨overrun, failed, failed'⟩ |
        ⟨after, after', added, added', agree', errors, count⟩
      · simp only [failed, failed']
        exact ⟨agree, trivial, by simp⟩
      · have later := ih agree'
        simp only [added, added']
        refine ⟨later.1, later.2.1, fun completed => ?_⟩
        obtain ⟨errors', count'⟩ := later.2.2 completed
        rw [errors', errors]
        exact ⟨rfl, by simp; omega⟩

theorem Agree.finish (agree : intake.Agree other) (unit : String) (settings : Taint.Settings) :
    let ending := intake.linked.finish unit (intake.linked.trace settings)
    other.linked.finish unit (other.linked.trace settings) =
        ({ ending.1 with ingestErrors := other.ingestErrors }, ending.2) ∧
      ending.1.ingestErrors = intake.ingestErrors ∧
      ending.1.filesAnalyzed = intake.filesAnalyzed := by
  obtain ⟨errors, rfl⟩ := agree
  have traced : Intake.trace (linked { intake with ingestErrors := errors }) settings =
    intake.linked.trace settings := rfl
  intro ending
  rw [traced]
  simp only [ending]
  cases intake.linked.trace settings with
  | error overrun => exact ⟨rfl, rfl, rfl⟩
  | ok outcome => exact ⟨rfl, rfl, rfl⟩

end Intake

namespace SourceUnit

theorem analyze_parsed (unit : SourceUnit) (config : AnalysisConfig) :
    let untimed := { config with timeLimit := none }
    let report := (unit.analyze untimed).1
    let report' := (unit.parsed.analyze untimed).1
    let skipped := unit.scripts.filter (·.fault?.isSome)
    report.failure = report'.failure ∧ report.filesAnalyzed = report'.filesAnalyzed ∧
      report.findings = report'.findings ∧ report.diagnostics = report'.diagnostics ∧
      (unit.analyze untimed).2 = (unit.parsed.analyze untimed).2 ∧
      (report.failure = none →
        report.ingestErrors = unit.unreadableErrors ++ unit.scripts.filterMap ScriptFile.fault? ∧
          report.ingestErrors.map IngestError.file =
            unit.unreadable.map Prod.fst ++ skipped.map ScriptFile.name ∧
          report.filesAnalyzed + skipped.length = unit.scripts.length) := by
  intro untimed report report' skipped
  let start : Intake :=
    { budget := { ceiling := config.memoryCeiling }, ingestErrors := unit.unreadableErrors }
  let start' : Intake := { budget := { ceiling := config.memoryCeiling } }
  have agree : start.Agree start' := ⟨[], rfl⟩
  obtain ⟨same, ends, noted⟩ := agree.addAll config.heap unit.scripts
  cases run : start.addAll config.heap unit.scripts with
  | mk after overrun? =>
  cases run' : start'.addAll config.heap (unit.scripts.filter (·.fault?.isNone)) with
  | mk after' overrun?' =>
  simp only [run, run'] at same ends noted
  subst ends
  obtain ⟨noted', rfl⟩ := same
  have here : unit.intake untimed = (after, overrun?) := run
  have there : unit.parsed.intake untimed = (_, overrun?) := run'
  cases overrun? with
  | some overrun =>
    simp only [report, report', analyze, here, there]
    exact ⟨rfl, rfl, rfl, rfl, rfl, fun completed => by cases completed⟩
  | none =>
    obtain ⟨errors, count⟩ := noted rfl
    obtain ⟨same, listed, counted⟩ := Intake.Agree.finish ⟨noted', rfl⟩ unit.name untimed.taint
    simp only [report, report', analyze, here, there]
    rw [show unit.parsed.name = unit.name from rfl, same]
    refine ⟨rfl, rfl, rfl, rfl, rfl, fun _ => ⟨listed.trans errors, ?_, ?_⟩⟩
    · simp only [listed, errors, List.map_append, start, unreadableErrors]
      congr 1
      · simp [IngestError.file, Function.comp_def]
      · exact files_faults unit.scripts
    · simp only [counted, count, start, skipped]
      have split := unit.scripts.length_eq_length_filter_add (·.fault?.isSome)
      simp only [Option.not_isSome] at split
      omega

end SourceUnit

end Seepage

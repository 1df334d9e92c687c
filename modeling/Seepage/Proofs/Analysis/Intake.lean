import Seepage.Analysis.Report
import Seepage.Proofs.Program.History

set_option autoImplicit false

namespace Seepage

open List

variable {script : ScriptFile} {options : Alias.Options} {scripts : List ScriptFile}

namespace ScriptFile

def graph? (options : Alias.Options) (script : ScriptFile) : Option FileGraph :=
  (Arena.ofFile (Script.File.read script.name script.text)).toOption.map (.assemble · options)

def bindings? (script : ScriptFile) : Option (List Markup.Binding) :=
  script.markup.map fun page => Markup.scan page.name page.text

theorem graph_eq_some {options : Alias.Options} {script : ScriptFile} {graph : FileGraph}
    (given : script.graph? options = some graph) : graph.Built ∧ graph.file = script.name := by
  obtain ⟨arena, ok, rfl⟩ := Option.map_eq_some_iff.mp given
  cases read : Arena.ofFile (Script.File.read script.name script.text) with
  | error cause => simp [read, Except.toOption] at ok
  | ok found =>
    have same : found = arena := by simpa [read, Except.toOption] using ok
    subst same
    obtain ⟨program, -, shape⟩ := Arena.ofFile_eq_ok read
    refine ⟨FileGraph.built_assemble read options, ?_⟩
    rw [shape]
    rfl

end ScriptFile

namespace Program

def Holds (program : Program) (options : Alias.Options) (file : Nat) (script : ScriptFile) : Prop :=
  script.graph? options = program.files[file]? ∧ file < program.files.size ∧
    program.markup[file]? = script.bindings?

structure Represents (program : Program) (options : Alias.Options) (scripts : List ScriptFile) :
    Prop extends Consistent program where
  held : ∀ script ∈ scripts, script.graph? options ≠ none →
    ∃ file, program.Holds options file script
  owned : ∀ file, file < program.files.size →
    ∃ script ∈ scripts, program.Holds options file script
  bare : ∀ file, program.files.size ≤ file → program.markup[file]? = none

theorem represents_nil (options : Alias.Options) : Represents {} options [] :=
  { built := by simp
    names := by simp
    held := by simp
    owned := by simp
    bare := by simp }

section

variable {program : Program} {options : Alias.Options} {scripts : List ScriptFile}
  (represents : program.Represents options scripts)

include represents

theorem Represents.skip (absent : script.graph? options = none) :
    program.Represents options (scripts ++ [script]) := by
  refine { represents with held := ?_, owned := ?_ }
  · intro other member present
    rcases mem_append.mp member with old | new
    · exact represents.held other old present
    · rw [mem_singleton.mp new] at present
      exact absurd absent present
  · intro file inside
    obtain ⟨other, member, holds⟩ := represents.owned file inside
    exact ⟨other, mem_append_left _ member, holds⟩

theorem Represents.fileId_eq_none {name : String} (fresh : name ∉ scripts.map ScriptFile.name) :
    program.fileId? name = none := by
  rw [fileId?, Array.findIdx?_eq_none_iff]
  intro graph member
  obtain ⟨file, inside, rfl⟩ := Array.getElem_of_mem member
  obtain ⟨script, listed, given, -⟩ := represents.owned file inside
  rw [Array.getElem?_eq_getElem inside] at given
  have named := (ScriptFile.graph_eq_some given).2
  simp only [beq_eq_false_iff_ne]
  rintro rfl
  exact fresh (mem_map.mpr ⟨script, listed, named.symm⟩)

end

theorem Represents.addGraph {intake : Intake}
    (represents : intake.program.Represents options scripts)
    (fresh : script.name ∉ scripts.map ScriptFile.name) {graph : FileGraph}
    (given : script.graph? options = some graph) (budget : Budget) (remarks : List Diagnostic) :
    (intake.addGraph script graph budget remarks).program.Represents options
      (scripts ++ [script]) := by
  obtain ⟨built, named⟩ := ScriptFile.graph_eq_some given
  have unknown : intake.program.fileId? graph.file = none :=
    represents.fileId_eq_none (named ▸ fresh)
  let after := (intake.addGraph script graph budget remarks).program
  have files : after.files = intake.program.files.push graph := by
    simp only [after, Intake.addGraph, merge, unknown]
    cases script.markup <;> rfl
  have markup : ∀ file, after.markup[file]? =
      if file = intake.program.files.size then script.bindings? else intake.program.markup[file]? := by
    intro file
    simp only [after, Intake.addGraph, merge, unknown, ScriptFile.bindings?]
    cases script.markup with
    | none =>
      by_cases last : file = intake.program.files.size
      · simpa [last] using represents.bare _ (Nat.le_refl _)
      · simp [last]
    | some page =>
      simp only [attach, Std.TreeMap.getElem?_insert, Std.compare_eq_iff_eq, Option.map_some]
      by_cases last : file = intake.program.files.size
      · simp [last]
      · simp [last, Ne.symm last]
  have consistent : after.Consistent := by
    have merged := represents.toConsistent.merge built
    simp only [merge, unknown] at merged
    exact ⟨by rw [files]; exact merged.built, by rw [files]; exact merged.names⟩
  have own : after.Holds options intake.program.files.size script :=
    ⟨by simp [files, given], by simp [files], by simp [markup]⟩
  have old : ∀ file other, intake.program.Holds options file other →
      after.Holds options file other := by
    rintro file other ⟨sameGraph, inside, sameMarkup⟩
    refine ⟨?_, by rw [files, Array.size_push]; omega, ?_⟩
    · rw [sameGraph, files, Array.getElem?_push, if_neg (by omega)]
    · rw [markup, if_neg (by omega), sameMarkup]
  constructor
  · exact consistent
  · intro other member present
    rcases mem_append.mp member with listed | new
    · obtain ⟨file, holds⟩ := represents.held other listed present
      exact ⟨file, old file other holds⟩
    · exact ⟨_, mem_singleton.mp new ▸ own⟩
  · intro file inside
    by_cases last : file = intake.program.files.size
    · exact ⟨script, by simp, last ▸ own⟩
    · have earlier : file < intake.program.files.size := by
        rw [files, Array.size_push] at inside
        omega
      obtain ⟨other, member, holds⟩ := represents.owned file earlier
      exact ⟨other, mem_append_left _ member, old file other holds⟩
  · intro file outside
    rw [files, Array.size_push] at outside
    rw [markup, if_neg (by omega)]
    exact represents.bare file (by omega)

end Program

namespace Intake

section

variable {options : Alias.Options} {script : ScriptFile} (intake : Intake)

theorem add_of_error {error : IngestError}
    (read : Arena.ofFile (Script.File.read script.name script.text) = .error error) :
    intake.add options script = .ok { intake with ingestErrors := intake.ingestErrors ++ [error] } := by
  unfold add
  simp only [read]

theorem add_of_tree {arena : Arena}
    (read : Arena.ofFile (Script.File.read script.name script.text) = .ok arena) :
    intake.add options script = intake.budget.check.bind fun _ =>
      (FileGraph.build arena options intake.budget).map fun (graph, budget) =>
        intake.addGraph script graph budget
          ((Script.File.read script.name script.text).errors.map (recovered script.name)) := by
  unfold add
  simp only [read]
  cases intake.budget.check with
  | error overrun => rfl
  | ok => cases FileGraph.build arena options intake.budget <;> rfl

end

theorem add_unlimited {intake : Intake} (represents : intake.program.Represents options scripts)
    (unlimited : intake.budget.ceiling = none) (fresh : script.name ∉ scripts.map ScriptFile.name) :
    ∃ after, intake.add options script = .ok after ∧ after.budget.ceiling = none ∧
      after.program.Represents options (scripts ++ [script]) := by
  cases read : Arena.ofFile (Script.File.read script.name script.text) with
  | error error =>
    rw [add_of_error _ read]
    exact ⟨_, rfl, unlimited, represents.skip (by simp [ScriptFile.graph?, read, Except.toOption])⟩
  | ok arena =>
    rw [add_of_tree _ read, Budget.check_unlimited unlimited,
      FileGraph.build_unlimited arena options unlimited]
    have given : script.graph? options = some (.assemble arena options) := by
      simp [ScriptFile.graph?, read, Except.toOption]
    refine ⟨_, rfl, ?_, represents.addGraph fresh given _ _⟩
    exact (Budget.ceiling_foldl_add _ _).trans unlimited

theorem addAll_unlimited {intake : Intake} {before : List ScriptFile}
    (represents : intake.program.Represents options before)
    (unlimited : intake.budget.ceiling = none)
    (distinct : ((before ++ scripts).map ScriptFile.name).Nodup) :
    ∃ after, intake.addAll options scripts = (after, none) ∧ after.budget.ceiling = none ∧
      after.program.Represents options (before ++ scripts) := by
  induction scripts generalizing intake before with
  | nil => exact ⟨intake, by rw [addAll], unlimited, by simpa using represents⟩
  | cons script rest ih =>
    have fresh : script.name ∉ before.map ScriptFile.name := by
      rw [map_append, nodup_append] at distinct
      intro known
      exact distinct.2.2 _ known script.name (by simp) rfl
    obtain ⟨taken, added, unlimited', represents'⟩ := add_unlimited represents unlimited fresh
    obtain ⟨after, done, free, all⟩ := ih represents' unlimited' (by simpa using distinct)
    refine ⟨after, ?_, free, by simpa using all⟩
    rw [addAll, added]
    exact done

end Intake

namespace Taint

variable {budget : Budget} (calm : budget.check = .ok ())

include calm

theorem Trace.runWithin_of_check (program : Program) (earlier fuel : Nat) (trace : Trace) :
    trace.runWithin budget program earlier fuel = .ok (trace.run program fuel) := by
  induction fuel generalizing trace with
  | zero => rfl
  | succ fuel ih =>
    rw [Trace.runWithin, Trace.run]
    split
    case h_1 => rfl
    case h_2 node rest _ =>
      rw [Budget.checkEvery_of_check calm]
      exact ih _

theorem traceAll_of_check (program : Program) (earlier : Nat)
    (seeds : List (Label × List GlobalNode)) : traceAll budget program earlier seeds =
      .ok (seeds.map fun (label, nodes) => (label, trace program nodes)) := by
  induction seeds generalizing earlier with
  | nil => rfl
  | cons seed rest ih =>
    simp only [traceAll, Trace.runWithin_of_check calm, bind, Except.bind, ih]
    rfl

theorem analyzeWithin_of_check (program : Program) (settings : Settings) :
    analyzeWithin budget program settings = .ok (analyze program settings) := by
  rw [analyzeWithin, traceAll_of_check calm]
  rfl

end Taint

theorem Intake.finish_of_check {intake : Intake} (calm : intake.budget.check = .ok ())
    (unit : String) (settings : Taint.Settings) :
    intake.linked.finish unit (intake.linked.trace settings) =
      intake.linked.concluded unit (Taint.analyze intake.program.link settings) := by
  have calm' : intake.linked.budget.check = .ok () := calm
  have traced : intake.linked.trace settings =
      .ok (Taint.analyze intake.program.link settings) := by
    rw [trace, calm']
    exact Taint.analyzeWithin_of_check calm' _ settings
  rw [traced]
  rfl

theorem SourceUnit.analyze_unlimited {unit : SourceUnit} {config : AnalysisConfig}
    (unlimited : config.memoryCeiling = none)
    (distinct : (unit.scripts.map ScriptFile.name).Nodup) :
    ∃ program : Program, program.Represents config.heap unit.scripts ∧
      (unit.analyze config).1.findings = (Taint.analyze program.link config.taint).findings := by
  let start : Intake :=
    { budget := { ceiling := config.memoryCeiling }, ingestErrors := unit.unreadableErrors }
  have empty : start.program.Represents config.heap [] := Program.represents_nil config.heap
  obtain ⟨after, taken, free, represents⟩ := Intake.addAll_unlimited empty unlimited distinct
  refine ⟨after.program, represents, ?_⟩
  have all : unit.intake config = (after, none) := taken
  simp only [analyze, all, Intake.finish_of_check (Budget.check_unlimited free)]
  rfl

end Seepage

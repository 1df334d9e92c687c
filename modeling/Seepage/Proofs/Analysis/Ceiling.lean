import Mathlib.Algebra.Ring.Nat
import Seepage.Proofs.Analysis.Intake

set_option autoImplicit false

namespace Seepage

open List FileGraph

variable {charged ceiling : Nat}

structure Charge where
  completed : Nat
  bytes : Nat
deriving DecidableEq, Repr

def totalAfter (charged : Nat) (charges : List Charge) : Nat :=
  charges.foldl (fun charged charge => min (charged + charge.bytes) Budget.maxBytes) charged

def runningTotals : Nat → List Charge → List Charge
  | _, [] => []
  | charged, charge :: rest =>
    let charged := min (charged + charge.bytes) Budget.maxBytes
    ⟨charge.completed, charged⟩ :: runningTotals charged rest

def ScriptFile.charges? (options : Alias.Options) (script : ScriptFile) : Option (List Nat) :=
  (Arena.ofFile (Script.File.read script.name script.text)).toOption.map (FileGraph.charges · options)

def chargesOf (options : Alias.Options) (completed : Nat) (scripts : List ScriptFile) : List Charge :=
  ((scripts.filterMap (·.charges? options)).zipIdx completed).flatMap fun (charges, completed) =>
    charges.map (⟨completed, ·⟩)

def SourceUnit.charges (unit : SourceUnit) (options : Alias.Options) : List Charge :=
  chargesOf options 0 unit.scripts

theorem runningTotals_append (charged : Nat) (early late : List Charge) :
    runningTotals charged (early ++ late) =
      runningTotals charged early ++ runningTotals (totalAfter charged early) late := by
  induction early generalizing charged with
  | nil => rfl
  | cons charge rest ih => simp [runningTotals, totalAfter, ih]

theorem completed_of_mem_runningTotals {completed : Nat} {charges : List Nat} {total : Charge}
    (member : total ∈ runningTotals charged (charges.map (⟨completed, ·⟩))) :
    total.completed = completed := by
  induction charges generalizing charged with
  | nil => simp [runningTotals] at member
  | cons bytes rest ih =>
    rcases mem_cons.mp member with rfl | later
    · rfl
    · exact ih later

theorem le_totalAfter (bounded : charged ≤ Budget.maxBytes) (charges : List Charge) :
    charged ≤ totalAfter charged charges := by
  induction charges generalizing charged with
  | nil => exact Nat.le_refl _
  | cons charge rest ih =>
    have later := @ih (min (charged + charge.bytes) Budget.maxBytes) (by omega)
    simp only [totalAfter, foldl_cons] at later ⊢
    omega

theorem totalAfter_le (inside : charged ≤ ceiling) {charges : List Charge}
    (quiet : (runningTotals charged charges).find? (ceiling < ·.bytes) = none) :
    totalAfter charged charges ≤ ceiling := by
  induction charges generalizing charged with
  | nil => exact inside
  | cons charge rest ih =>
    simp only [runningTotals, find?_cons] at quiet
    split at quiet
    case h_1 => cases quiet
    case h_2 below =>
      rw [decide_eq_false_iff_not, Nat.not_lt] at below
      exact ih below quiet

theorem find_runningTotals_eq_none (bounded : charged ≤ Budget.maxBytes)
    (inside : charged ≤ ceiling) (charges : List Charge) :
    (runningTotals charged charges).find? (ceiling < ·.bytes) = none ↔
      totalAfter charged charges ≤ ceiling := by
  refine ⟨totalAfter_le inside, fun below => ?_⟩
  induction charges generalizing charged with
  | nil => rfl
  | cons charge rest ih =>
    have capped : min (charged + charge.bytes) Budget.maxBytes ≤ Budget.maxBytes := by omega
    have later := le_totalAfter capped rest
    simp only [totalAfter, foldl_cons] at later below
    have calm : ¬ceiling < min (charged + charge.bytes) Budget.maxBytes := by omega
    simp only [runningTotals, find?_cons, calm, decide_false]
    exact ih capped (by omega) below

theorem totalAfter_eq (bounded : charged ≤ Budget.maxBytes) (charges : List Charge) :
    totalAfter charged charges = min (charged + (charges.map Charge.bytes).sum) Budget.maxBytes := by
  induction charges generalizing charged with
  | nil =>
    simp [totalAfter]
    omega
  | cons charge rest ih =>
    have later := @ih (min (charged + charge.bytes) Budget.maxBytes) (by omega)
    simp only [totalAfter, foldl_cons, map_cons, sum_cons] at later ⊢
    omega

theorem chargesOf_cons_none {options : Alias.Options} {script : ScriptFile}
    (unread : script.charges? options = none) (completed : Nat) (rest : List ScriptFile) :
    chargesOf options completed (script :: rest) = chargesOf options completed rest := by
  simp [chargesOf, unread]

theorem chargesOf_cons_some {options : Alias.Options} {script : ScriptFile} {charges : List Nat}
    (read : script.charges? options = some charges) (completed : Nat) (rest : List ScriptFile) :
    chargesOf options completed (script :: rest) =
      charges.map (⟨completed, ·⟩) ++ chargesOf options (completed + 1) rest := by
  simp [chargesOf, read]

namespace Budget

theorem charged_foldl_add (budget : Budget) (completed : Nat) (charges : List Nat) :
    (charges.foldl add budget).charged =
      totalAfter budget.charged (charges.map (⟨completed, ·⟩)) := by
  induction charges generalizing budget with
  | nil => rfl
  | cons bytes rest ih =>
    rw [foldl_cons, ih]
    rfl

theorem chargeAll_limited {budget : Budget} (limited : budget.ceiling = some ceiling)
    (completed : Nat) (charges : List Nat) : budget.chargeAll charges =
      match (runningTotals budget.charged (charges.map (⟨completed, ·⟩))).find? (ceiling < ·.bytes) with
      | some total => .error ⟨total.bytes, ceiling⟩
      | none => .ok (charges.foldl add budget) := by
  induction charges generalizing budget with
  | nil => rfl
  | cons bytes rest ih =>
    have limited' : (budget.add bytes).ceiling = some ceiling := limited
    have step : budget.charge bytes = if ceiling < (budget.add bytes).charged then
        .error ⟨(budget.add bytes).charged, ceiling⟩ else .ok (budget.add bytes) := by
      simp only [charge, check, overrun?, limited']
      split <;> simp_all [bind, Except.bind, pure, Except.pure]
    have total : (budget.add bytes).charged = min (budget.charged + bytes) maxBytes := rfl
    rw [chargeAll, foldlM_cons, step]
    by_cases above : ceiling < (budget.add bytes).charged
    · rw [total] at above
      simp [runningTotals, above, total]
      rfl
    · have later := ih limited'
      rw [if_neg above]
      rw [total] at above later
      simp only [map_cons, runningTotals, find?_cons, above, decide_false]
      exact later

end Budget

namespace Intake

def lifted (intake : Intake) : Intake :=
  { intake with budget := { intake.budget with ceiling := none } }

def withScript (intake : Intake) (options : Alias.Options) (script : ScriptFile) (arena : Arena) :
    Intake :=
  intake.addGraph script (.assemble arena options)
    ((FileGraph.charges arena options).foldl Budget.add intake.budget)
    ((Script.File.read script.name script.text).errors.map (recovered script.name))

section

variable (intake : Intake) (options : Alias.Options) (script : ScriptFile) (arena : Arena)

@[simp] theorem filesAnalyzed_withScript :
    (intake.withScript options script arena).filesAnalyzed = intake.filesAnalyzed + 1 := rfl

@[simp] theorem ceiling_withScript :
    (intake.withScript options script arena).budget.ceiling = intake.budget.ceiling :=
  Budget.ceiling_foldl_add _ _

@[simp] theorem charged_withScript :
    (intake.withScript options script arena).budget.charged = totalAfter intake.budget.charged
      ((charges arena options).map (⟨intake.filesAnalyzed, ·⟩)) :=
  Budget.charged_foldl_add _ _ _

end

section

variable {options : Alias.Options} {script : ScriptFile} {arena : Arena}
  (read : Arena.ofFile (Script.File.read script.name script.text) = .ok arena) {intake : Intake}

include read

theorem add_limited (limited : intake.budget.ceiling = some ceiling)
    (inside : intake.budget.charged ≤ ceiling) : intake.add options script =
      match (runningTotals intake.budget.charged
        ((charges arena options).map (⟨intake.filesAnalyzed, ·⟩))).find?
          (ceiling < ·.bytes) with
      | some total => .error ⟨total.bytes, ceiling⟩
      | none => .ok (intake.withScript options script arena) := by
  rw [intake.add_of_tree read, Budget.check_of_le limited inside, build_eq,
    Budget.chargeAll_limited limited intake.filesAnalyzed]
  split <;> rfl

theorem add_lifted :
    intake.lifted.add options script = .ok (intake.withScript options script arena).lifted := by
  have unlimited : intake.lifted.budget.ceiling = none := rfl
  rw [add_of_tree _ read, Budget.check_unlimited unlimited,
    build_unlimited arena options unlimited]
  simp only [Except.bind, Except.map, Except.ok.injEq]
  unfold withScript lifted addGraph
  congr 1

theorem charges_of_tree : script.charges? options = some (charges arena options) := by
  simp [ScriptFile.charges?, read, Except.toOption]

end

theorem charges_of_error {options : Alias.Options} {script : ScriptFile} {error : IngestError}
    (read : Arena.ofFile (Script.File.read script.name script.text) = .error error) :
    script.charges? options = none := by
  simp [ScriptFile.charges?, read, Except.toOption]

theorem addAll_lifted (options : Alias.Options) (intake : Intake) (scripts : List ScriptFile) :
    ∃ after, intake.lifted.addAll options scripts = (after, none) ∧
      after.budget.charged =
        totalAfter intake.budget.charged (chargesOf options intake.filesAnalyzed scripts) := by
  induction scripts generalizing intake with
  | nil => exact ⟨intake.lifted, rfl, rfl⟩
  | cons script rest ih =>
    cases read : Arena.ofFile (Script.File.read script.name script.text) with
    | error error =>
      rw [addAll, add_of_error _ read, chargesOf_cons_none (charges_of_error read)]
      exact ih { intake with ingestErrors := intake.ingestErrors ++ [error] }
    | ok arena =>
      rw [addAll, add_lifted read, chargesOf_cons_some (charges_of_tree read)]
      obtain ⟨after, taken, charged⟩ := ih (intake.withScript options script arena)
      refine ⟨after, taken, ?_⟩
      rw [charged]
      simp [totalAfter]

theorem addAll_limited (options : Alias.Options) (intake : Intake)
    (limited : intake.budget.ceiling = some ceiling) (inside : intake.budget.charged ≤ ceiling)
    (scripts : List ScriptFile) : match (runningTotals intake.budget.charged
      (chargesOf options intake.filesAnalyzed scripts)).find? (ceiling < ·.bytes) with
    | none => ∃ after, after.budget.check = .ok () ∧ intake.addAll options scripts = (after, none) ∧
        intake.lifted.addAll options scripts = (after.lifted, none)
    | some total => ∃ after, after.filesAnalyzed = total.completed ∧
        intake.addAll options scripts = (after, some ⟨total.bytes, ceiling⟩) := by
  induction scripts generalizing intake with
  | nil => exact ⟨intake, Budget.check_of_le limited inside, rfl, rfl⟩
  | cons script rest ih =>
    cases read : Arena.ofFile (Script.File.read script.name script.text) with
    | error error =>
      simp only [addAll, add_of_error _ read, chargesOf_cons_none (charges_of_error read)]
      exact ih { intake with ingestErrors := intake.ingestErrors ++ [error] } limited inside
    | ok arena =>
      simp only [addAll, add_lifted read, add_limited read limited inside,
        chargesOf_cons_some (charges_of_tree read), runningTotals_append, find?_append]
      cases own : (runningTotals intake.budget.charged ((charges arena options).map
          (⟨intake.filesAnalyzed, ·⟩))).find? (ceiling < ·.bytes) with
      | some total =>
        have within := completed_of_mem_runningTotals (mem_of_find?_eq_some own)
        exact ⟨intake, within.symm, rfl⟩
      | none =>
        have inside' := totalAfter_le inside own
        have later := ih (intake.withScript options script arena) (by simpa using limited)
          (by simpa using inside')
        simpa only [Option.none_or, charged_withScript, filesAnalyzed_withScript] using later

end Intake

namespace SourceUnit

theorem analyze_ceiling (unit : SourceUnit) (config : AnalysisConfig) (ceiling : Nat) :
    let unlimited := { config with timeLimit := none, memoryCeiling := none }
    let limited := { config with timeLimit := none, memoryCeiling := some ceiling }
    let total := (unit.intake unlimited).1.budget.charged
    let charges := unit.charges config.heap
    let report := (unit.analyze limited).1
    total = min (charges.map Charge.bytes).sum Budget.maxBytes ∧
      (total ≤ ceiling → report.failure = none ∧ unit.analyze limited = unit.analyze unlimited) ∧
      (ceiling < total → ∃ first,
        (runningTotals 0 charges).find? (ceiling < ·.bytes) = some first ∧
          report.failure = some ⟨first.bytes, ceiling⟩ ∧ report.filesAnalyzed = first.completed ∧
          report.findings = [] ∧ report.diagnostics = []) := by
  intro unlimited limited total charges report
  let start : Intake :=
    { budget := { ceiling := some ceiling }, ingestErrors := unit.unreadableErrors }
  obtain ⟨free, taken, charged⟩ := Intake.addAll_lifted config.heap start unit.scripts
  have whole : unit.intake unlimited = (free, none) := taken
  have known : total = totalAfter 0 charges := by
    simp only [total, whole]
    exact charged
  have run := Intake.addAll_limited config.heap start rfl (Nat.zero_le _) unit.scripts
  have below := find_runningTotals_eq_none (Nat.zero_le Budget.maxBytes) (Nat.zero_le ceiling) charges
  rw [← known] at below
  refine ⟨?_, ?_, ?_⟩
  · rw [known, totalAfter_eq (Nat.zero_le _), Nat.zero_add]
  · intro inside
    have quiet : (runningTotals start.budget.charged
        (chargesOf config.heap start.filesAnalyzed unit.scripts)).find? (ceiling < ·.bytes) = none :=
      below.mpr inside
    simp only [quiet] at run
    obtain ⟨after, calm, ended, endedFree⟩ := run
    have here : unit.intake limited = (after, none) := ended
    have there : unit.intake unlimited = (after.lifted, none) := endedFree
    have calm' : after.lifted.budget.check = .ok () := Budget.check_unlimited rfl
    -- What is concluded from an intake does not depend on its budget.
    have same : unit.analyze limited = unit.analyze unlimited := by
      simp only [analyze, here, there, Intake.finish_of_check calm, Intake.finish_of_check calm']
      rfl
    refine ⟨?_, same⟩
    simp only [report, analyze, here, Intake.finish_of_check calm]
    rfl
  · intro above
    cases found : (runningTotals 0 charges).find? (ceiling < ·.bytes) with
    | none => exact absurd (below.mp found) (by omega)
    | some first =>
      have met : (runningTotals start.budget.charged
          (chargesOf config.heap start.filesAnalyzed unit.scripts)).find? (ceiling < ·.bytes) =
            some first := found
      simp only [met] at run
      obtain ⟨after, completed, ended⟩ := run
      have here : unit.intake limited = (after, some ⟨first.bytes, ceiling⟩) := ended
      simp only [report, analyze, here, Intake.abandoned]
      simpa using completed

end SourceUnit

end Seepage

import Mathlib.Data.List.Pairwise
import Seepage.Output.Files
import Seepage.Proofs.Workspace.Naming

set_option autoImplicit false

namespace Seepage.Output

open Seepage.Path (IsName)

variable {report : Report} {text : String}

def tablePaths (output : Path) (report : Report) : List Path :=
  (tableFiles report).map fun file => output.child file.1

def Apart (a b : Path) : Prop :=
  ¬ a.same b

def HasCrossing (report : Report) : Prop :=
  ∃ finding ∈ report.findings, finding.isInterPage

def Shadows (a b : Report) : Prop :=
  HasCrossing a ∧ b.unit = a.unit ++ "-inter-page"

instance (a b : Path) : Decidable (Apart a b) :=
  inferInstanceAs (Decidable (¬ a.same b))

instance (a b : Report) : Decidable (Shadows a b) :=
  inferInstanceAs (Decidable ((∃ finding ∈ a.findings, finding.isInterPage) ∧ _))

theorem mem_tableNames {name : String} : name ∈ (tableFiles report).map (·.1) ↔
      name = report.unit ++ "-result.csv" ∨
        HasCrossing report ∧ name = report.unit ++ "-inter-page" ++ "-result.csv" := by
  have suffix : report.unit ++ "-inter-page-result.csv" =
      report.unit ++ "-inter-page" ++ "-result.csv" := by
    rw [String.append_assoc]
    rfl
  unfold tableFiles
  split_ifs with crossing
  · have flows : HasCrossing report := by simpa [HasCrossing] using crossing
    simp [flows, suffix]
  · have none : ¬ HasCrossing report := by simpa [HasCrossing] using crossing
    simp [none]

theorem isName_append (plain : '/' ∉ text.toList) : IsName (text ++ "-result.csv") := by
  have long : 2 < (text ++ "-result.csv").toList.length := by simp
  refine ⟨by simp [plain], ?_, ?_, ?_⟩ <;> intro same <;> rw [same] at long <;>
    simp at long

theorem apart_append_iff {a b : String} (first : '/' ∉ a.toList) (second : '/' ∉ b.toList)
    (output : Path) :
    Apart (output.child (a ++ "-result.csv")) (output.child (b ++ "-result.csv")) ↔ a ≠ b := by
  rw [Apart, Path.same_child_iff (isName_append first) (isName_append second),
    String.append_left_inj]

theorem plain_suffix (plain : '/' ∉ text.toList) : '/' ∉ (text ++ "-inter-page").toList := by
  simp [plain]

theorem ne_append_suffix (text : String) : text ≠ text ++ "-inter-page" := by
  intro same
  have length := congrArg (·.toList.length) same
  simp at length

theorem mem_tablePaths {output path : Path} : path ∈ tablePaths output report ↔
      path = output.child (report.unit ++ "-result.csv") ∨
        HasCrossing report ∧
          path = output.child (report.unit ++ "-inter-page" ++ "-result.csv") := by
  have names : path ∈ tablePaths output report ↔
      ∃ name ∈ (tableFiles report).map (·.1), output.child name = path := by
    simp [tablePaths]
  rw [names]
  constructor
  · rintro ⟨name, member, rfl⟩
    rcases mem_tableNames.mp member with rfl | ⟨flows, rfl⟩
    · exact .inl rfl
    · exact .inr ⟨flows, rfl⟩
  · rintro (rfl | ⟨flows, rfl⟩)
    · exact ⟨_, mem_tableNames.mpr (.inl rfl), rfl⟩
    · exact ⟨_, mem_tableNames.mpr (.inr ⟨flows, rfl⟩), rfl⟩

theorem tablePaths_apart_iff {a b : Report} (first : '/' ∉ a.unit.toList)
    (second : '/' ∉ b.unit.toList) (other : a.unit ≠ b.unit) (output : Path) :
    (∀ p ∈ tablePaths output a, ∀ q ∈ tablePaths output b, Apart p q) ↔
      ¬ Shadows a b ∧ ¬ Shadows b a := by
  have pages := apart_append_iff (plain_suffix first) second output
  have pages' := apart_append_iff first (plain_suffix second) output
  constructor
  · intro apart
    refine ⟨fun ⟨flows, same⟩ => ?_, fun ⟨flows, same⟩ => ?_⟩
    · exact pages.mp (apart _ (mem_tablePaths.mpr (.inr ⟨flows, rfl⟩)) _
        (mem_tablePaths.mpr (.inl rfl))) same.symm
    · exact pages'.mp (apart _ (mem_tablePaths.mpr (.inl rfl)) _
        (mem_tablePaths.mpr (.inr ⟨flows, rfl⟩))) same
  · rintro ⟨ahead, behind⟩ p inside q inside'
    rcases mem_tablePaths.mp inside with rfl | ⟨flows, rfl⟩ <;>
      rcases mem_tablePaths.mp inside' with rfl | ⟨flows', rfl⟩
    · exact (apart_append_iff first second output).mpr other
    · exact pages'.mpr fun same => behind ⟨flows', same⟩
    · exact pages.mpr fun same => ahead ⟨flows, same.symm⟩
    · refine (apart_append_iff (plain_suffix first) (plain_suffix second) output).mpr ?_
      exact fun same => other ((String.append_left_inj _).mp same)

theorem pairwise_tablePaths (plain : '/' ∉ report.unit.toList)
    (output : Path) : (tablePaths output report).Pairwise Apart := by
  unfold tablePaths tableFiles
  split_ifs
  · have pages := apart_append_iff plain (plain_suffix plain) output
    simpa [String.append_assoc] using pages.mpr (ne_append_suffix report.unit)
  · simp

theorem tables_apart_iff (output : Path) (roots : List Path) (reports : List Report)
    (named : reports.map (·.unit) = UnitName.assign roots)
    (plain : ∀ root ∈ roots, root.fileName? = none → '/' ∉ root.text.toList) :
    (reports.flatMap (tablePaths output)).Pairwise Apart ↔
      ∀ a ∈ reports, ∀ b ∈ reports, ¬ Shadows a b := by
  have names : ∀ report ∈ reports, '/' ∉ report.unit.toList := by
    intro report member
    have given : report.unit ∈ UnitName.assign roots := named ▸ List.mem_map_of_mem member
    exact UnitName.plain_of_mem_assignFrom plain given
  have units : reports.Pairwise fun a b => a.unit ≠ b.unit :=
    List.pairwise_map.mp (named ▸ UnitName.nodup_assign roots)
  rw [List.pairwise_flatMap]
  constructor
  · rintro ⟨-, between⟩
    have clear : reports.Pairwise fun a b => ¬ Shadows a b ∧ ¬ Shadows b a :=
      (units.and between).imp_of_mem fun {a b} first second ⟨other, apart⟩ =>
        (tablePaths_apart_iff (names a first) (names b second) other output).mp apart
    have own : ∀ a ∈ reports, ¬ Shadows a a :=
      fun a _ shadow => ne_append_suffix a.unit shadow.2
    intro a first b second
    exact (clear.imp And.left).forall_of_forall_of_flip own (clear.imp And.right) first second
  · intro clear
    refine ⟨fun report member => pairwise_tablePaths (names report member) output, ?_⟩
    refine units.imp_of_mem fun {a b} first second other => ?_
    exact (tablePaths_apart_iff (names a first) (names b second) other output).mpr
      ⟨clear a first b second, clear b second a first⟩

def crossingReport (unit : String) : Report where
  unit := unit
  findings := [{
    label := .api "wx.getStorageSync" ⟨1, 4⟩
    sourceFile := "pages/detail/detail"
    sink := ⟨"wx.request", "pages/index/index", 9, 7, 10⟩
    path := []
    method := none
    ident := none
    channel := some "acceptData" }]

theorem tables_apart_of_shops :
    let reports := [crossingReport "shop", crossingReport "shop-2", { unit := "shop-inter-pages" }]
    reports.map (·.unit) = UnitName.assign [⟨"a/shop"⟩, ⟨"b/shop"⟩, ⟨"./shop-inter-pages/"⟩] ∧
      (reports.flatMap (tablePaths ⟨"results"⟩)).Pairwise Apart := by
  refine ⟨by decide, ?_⟩
  refine (tables_apart_iff ⟨"results"⟩ [⟨"a/shop"⟩, ⟨"b/shop"⟩, ⟨"./shop-inter-pages/"⟩] _
    (by decide) (by decide)).mpr ?_
  decide

theorem tables_clash : let reports := [crossingReport "shop", { unit := "shop-inter-page" }]
    reports.map (·.unit) = UnitName.assign [⟨"apps/shop"⟩, ⟨"apps/shop-inter-page"⟩] ∧
      ¬ (reports.flatMap (tablePaths ⟨"results"⟩)).Pairwise Apart := by
  decide

example :
    let reports : List Report := [{ unit := "a/.." }, { unit := "./a/.." }]
    reports.map (·.unit) = UnitName.assign [⟨"a/.."⟩, ⟨"./a/.."⟩] ∧
      ¬ (reports.flatMap (tablePaths ⟨"results"⟩)).Pairwise Apart := by
  decide

end Seepage.Output

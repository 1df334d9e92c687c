import Mathlib.Data.List.Forall2
import Seepage.Proofs.Analysis.Intake
import Seepage.Proofs.Sorting
import Seepage.Proofs.Workspace.Naming
import Seepage.Workspace.Unit

set_option autoImplicit false

namespace Seepage

open List FoundScript FileTree

variable {entries : List (String × FileTree)} {name ending stem extension : String}
  {admits : String → Bool} {names : List String}

inductive FileTree.Readable : FileTree → Prop where
  | file (text : String) : Readable (.file (some text))
  | directory {entries : List (String × FileTree)} (distinct : (entries.map (·.1)).Nodup)
    (named : ∀ entry ∈ entries, Path.IsName entry.1)
    (inner : ∀ entry ∈ entries, Readable entry.2) : Readable (.directory entries)

namespace FileTree

theorem lookup_iff (distinct : (entries.map (·.1)).Nodup) {tree : FileTree} :
    entries.lookup name = some tree ↔ (name, tree) ∈ entries := by
  induction entries with
  | nil => simp
  | cons entry rest ih =>
    obtain ⟨other, first⟩ := entry
    obtain ⟨fresh, later⟩ := nodup_cons.mp distinct
    by_cases same : name = other
    · subst same
      have absent : (name, tree) ∉ rest := fun member => fresh (mem_map.mpr ⟨_, member, rfl⟩)
      simp [absent, eq_comm]
    · simp [lookup_cons, beq_false_of_ne same, ih later, same]

theorem mem_filesIn {text : Option String} : (names, text) ∈ filesIn admits entries ↔
      ∃ name rest tree, names = name :: rest ∧ (name, tree) ∈ entries ∧ admits name ∧
        (rest, text) ∈ tree.files admits := by
  induction entries with
  | nil => simp [filesIn]
  | cons entry others ih =>
    obtain ⟨other, first⟩ := entry
    rw [filesIn, mem_append, ih]
    constructor
    · rintro (here | ⟨name, rest, tree, same, member, known⟩)
      · split_ifs at here with admitted
        · obtain ⟨⟨rest, inner⟩, member, same⟩ := mem_map.mp here
          cases same
          exact ⟨other, rest, first, rfl, mem_cons_self, admitted, member⟩
        · cases here
      · exact ⟨name, rest, tree, same, mem_cons_of_mem _ member, known⟩
    · rintro ⟨name, rest, tree, rfl, member, admitted, inner⟩
      rcases mem_cons.mp member with same | member
      · cases same
        rw [if_pos admitted]
        exact .inl (mem_map.mpr ⟨_, inner, rfl⟩)
      · exact .inr ⟨name, rest, tree, rfl, member, admitted, inner⟩

section

variable {tree : FileTree} (readable : tree.Readable)

include readable

theorem mem_files {text : Option String} :
    (names, text) ∈ tree.files admits ↔
      tree.entry? names = some (.file text) ∧ ∀ name ∈ names, admits name := by
  induction readable generalizing names with
  | file own =>
    rw [files, mem_singleton]
    cases names <;> simp [FileTree.entry?, @eq_comm _ text]
  | @directory entries distinct named inner ih =>
    rw [files, mem_filesIn]
    cases names with
    | nil => simp [FileTree.entry?]
    | cons name rest =>
      simp only [cons.injEq, entry?, forall_mem_cons]
      constructor
      · rintro ⟨_, _, tree, ⟨rfl, rfl⟩, member, admitted, deeper⟩
        obtain ⟨found, every⟩ := (ih _ member).mp deeper
        rw [(lookup_iff distinct).mpr member]
        exact ⟨found, admitted, every⟩
      · rintro ⟨found, admitted, every⟩
        split at found
        case h_1 tree known =>
          have member := (lookup_iff distinct).mp known
          exact ⟨name, rest, tree, ⟨rfl, rfl⟩, member, admitted, (ih _ member).mpr ⟨found, every⟩⟩
        case h_2 => cases found

theorem nodup_files (admits : String → Bool) : ((tree.files admits).map (·.1)).Nodup := by
  induction readable with
  | file text => simp [files]
  | @directory entries distinct named inner ih =>
    rw [files]
    clear named inner
    induction entries with
    | nil => exact nodup_nil
    | cons entry rest more =>
      obtain ⟨name, tree⟩ := entry
      obtain ⟨fresh, later⟩ := nodup_cons.mp distinct
      obtain ⟨here, there⟩ := forall_mem_cons.mp ih
      rw [filesIn, map_append]
      refine nodup_append.mpr ⟨?_, more later there, ?_⟩
      · split_ifs
        · rw [map_map]
          have paths := here.map (f := (name :: ·)) fun _ _ same => (cons.inj same).2
          rwa [map_map] at paths
        · exact nodup_nil
      · intro path first other second same
        split_ifs at first with admitted
        · obtain ⟨_, inner, rfl⟩ := mem_map.mp first
          obtain ⟨_, -, rfl⟩ := mem_map.mp inner
          obtain ⟨⟨path', text⟩, deeper, rfl⟩ := mem_map.mp second
          obtain ⟨name', rest', tree', shape, member, -⟩ := mem_filesIn.mp deeper
          obtain rfl : name = name' := (cons.inj (same.trans shape)).1
          exact fresh (mem_map.mpr ⟨_, member, rfl⟩)
        · cases first

theorem Readable.entry? {found : FileTree} (there : tree.entry? names = some found) :
    found.Readable ∧ ∀ name ∈ names, Path.IsName name := by
  induction readable generalizing names with
  | file text =>
    cases names with
    | nil =>
      cases there
      exact ⟨.file text, by simp⟩
    | cons name rest => cases there
  | @directory entries distinct named inner ih =>
    cases names with
    | nil =>
      cases there
      exact ⟨.directory distinct named inner, by simp⟩
    | cons name rest =>
      rw [FileTree.entry?] at there
      split at there
      case h_1 tree known =>
        have member := (lookup_iff distinct).mp known
        obtain ⟨last, others⟩ := ih _ member there
        exact ⟨last, forall_mem_cons.mpr ⟨named _ member, others⟩⟩
      case h_2 => cases there

theorem Readable.text {names : List String} {text : Option String}
    (there : tree.entry? names = some (.file text)) : ∃ own, text = some own := by
  obtain ⟨⟨own⟩, -⟩ := readable.entry? there
  exact ⟨own, rfl⟩

end

end FileTree

theorem split_reportName (full : names ≠ []) (valid : ∀ name ∈ names, Path.IsName name) :
    Path.split (reportName names).toList = names.map String.toList := by
  rw [reportName, String.toList_intercalate]
  induction names with
  | nil => exact absurd rfl full
  | cons name rest ih =>
    obtain ⟨own, others⟩ := forall_mem_cons.mp valid
    cases rest with
    | nil => simpa using Path.split_of_notMem own.1
    | cons next rest =>
      have inner := ih (cons_ne_nil _ _) others
      simp only [map_cons, intercalate_cons_cons] at inner ⊢
      have slash : "/".toList = ['/'] := rfl
      rw [slash] at inner ⊢
      rw [append_assoc, singleton_append, Path.split_append_slash, inner,
        Path.split_of_notMem own.1]
      rfl

theorem reportName_injective {first second : List String} (some₁ : first ≠ []) (some₂ : second ≠ [])
    (valid₁ : ∀ name ∈ first, Path.IsName name) (valid₂ : ∀ name ∈ second, Path.IsName name)
    (same : reportName first = reportName second) : first = second := by
  have pieces := split_reportName some₁ valid₁
  rw [same, split_reportName some₂ valid₂] at pieces
  exact (map_injective_iff.mpr fun _ _ => String.toList_inj.mp) pieces.symm

theorem endsWith_iff : name.endsWith ending ↔ ∃ stem, name = stem ++ ending := by
  rw [← String.endsWith_toSlice, String.Slice.endsWith_string_iff, String.copy_toSlice]
  constructor
  · rintro ⟨stem, same⟩
    exact ⟨.ofList stem, by simp [← String.toList_inj, same]⟩
  · rintro ⟨stem, rfl⟩
    exact ⟨stem.toList, by simp⟩

theorem splitExtension_append (full : stem ≠ "") (plain : '.' ∉ extension.toList) :
    Path.splitExtension (stem ++ "." ++ extension) = (stem, some extension) := by
  have other : ∀ c ∈ extension.toList.reverse, (c != '.') = true := by
    intro c member
    rw [bne_iff_ne]
    rintro rfl
    exact plain (mem_reverse.mp member)
  have text : (stem ++ "." ++ extension).toList.reverse =
      extension.toList.reverse ++ '.' :: stem.toList.reverse := by simp
  simp only [Path.splitExtension, text, dropWhile_append_of_pos other,
    takeWhile_append_of_pos other]
  cases shape : stem.toList.reverse with
  | nil => exact absurd (by simpa using shape) full
  | cons c rest =>
    have whole : stem.toList = rest.reverse ++ [c] := by simpa using congrArg reverse shape
    simp [← whole]

theorem append_of_splitExtension (split : Path.splitExtension name = (stem, some extension)) :
    name = stem ++ "." ++ extension := by
  have whole := takeWhile_append_dropWhile (p := (· != '.')) (l := name.toList.reverse)
  unfold Path.splitExtension at split
  simp only at split
  split at split
  case h_1 c rest shape =>
    cases split
    rw [shape] at whole
    rw [← String.toList_inj]
    simpa using (congrArg reverse whole).symm
  case h_2 => cases split

def IsShown (name : String) : Prop :=
  ¬name.startsWith "." ∧ name ≠ "node_modules" ∧ name ≠ "miniprogram_npm"

def IsScriptPath (names : List String) : Prop :=
  (∀ name ∈ names, IsShown name) ∧ ∃ name, names.getLast? = some name ∧
    (name.endsWith ".js" ∨ name.endsWith ".ts") ∧ ¬name.endsWith ".d.ts" ∧ ¬name.endsWith ".min.js"

def IsMainPath (names : List String) : Prop :=
  names = ["app.js"] ∨ names = ["app.ts"]

def Precedes (first second : List String) : Prop :=
  (IsMainPath first ∧ ¬IsMainPath second) ∨
    ((IsMainPath first ↔ IsMainPath second) ∧ compare first second = .lt)

structure IsLoaded (tree : FileTree) (names : List String) (script : ScriptFile) : Prop where
  name : script.name = "/".intercalate names
  text : tree.entry? names = some (.file (some script.text))
  markup : ∀ above stem, names = above ++ [stem ++ ".js"] ∨ names = above ++ [stem ++ ".ts"] →
    ∀ page : TextFile, script.markup = some page ↔
      page.name = "/".intercalate (above ++ [stem ++ ".wxml"]) ∧
        tree.entry? (above ++ [stem ++ ".wxml"]) = some (.file (some page.text))

def loadedScript (tree : FileTree) : FoundScript → ScriptFile
  | (names, text) =>
    { name := reportName names
      text := text.getD ""
      markup := (tree.markupOf names).bind fun (name, text) => text.map (⟨name, ·⟩) }

theorem isVisible_iff : isVisible name ↔ IsShown name := by
  simp [isVisible, IsShown, and_assoc]

theorem ne_empty_of_shown (shown : IsShown (stem ++ ("." ++ ending))) : stem ≠ "" := by
  rintro rfl
  refine shown.1 ?_
  simp

section

variable {name : String} (shown : IsShown name)

include shown

theorem extension_iff (plain : '.' ∉ extension.toList) :
    (Path.splitExtension name).2 = some extension ↔ name.endsWith ("." ++ extension) := by
  rw [endsWith_iff]
  constructor
  · intro same
    exact ⟨_, (append_of_splitExtension (Prod.ext rfl same)).trans (String.append_assoc ..)⟩
  · rintro ⟨stem, rfl⟩
    rw [← String.append_assoc, splitExtension_append (ne_empty_of_shown shown) plain]

theorem isScriptName_iff : isScriptName name ↔
    (name.endsWith ".js" ∨ name.endsWith ".ts") ∧
      ¬name.endsWith ".d.ts" ∧ ¬name.endsWith ".min.js" := by
  have first : _ ↔ name.endsWith ".js" := extension_iff shown (show '.' ∉ "js".toList by decide)
  have second : _ ↔ name.endsWith ".ts" := extension_iff shown (show '.' ∉ "ts".toList by decide)
  simp only [isScriptName, Bool.and_eq_true, Bool.or_eq_true, beq_iff_eq, first, second,
    Bool.not_eq_true', Bool.or_eq_false_iff, Bool.not_eq_true]

end

theorem markupNames_append {above : List String} (extension : String)
    (shown : IsShown (stem ++ ("." ++ extension))) (plain : '.' ∉ extension.toList) :
    markupNames (above ++ [stem ++ ("." ++ extension)]) = above ++ [stem ++ ".wxml"] := by
  have split := splitExtension_append (ne_empty_of_shown shown) plain
  rw [String.append_assoc] at split
  simp [markupNames, split]

theorem isMain_iff {names : List String} {text : Option String} (path : IsScriptPath names) :
    isMain (names, text) ↔ IsMainPath names := by
  obtain ⟨shown, name, last, ending, -⟩ := path
  constructor
  · intro main
    rcases names with _ | ⟨own, _ | ⟨next, rest⟩⟩
    · cases main
    · obtain rfl : own = name := Option.some.inj last
      have stem : (Path.splitExtension own).1 = "app" := beq_iff_eq.mp main
      have whole : ∀ extension : String, '.' ∉ extension.toList →
          own.endsWith ("." ++ extension) → own = "app" ++ "." ++ extension :=
        fun extension plain ending => append_of_splitExtension
          (Prod.ext stem ((extension_iff (shown own mem_cons_self) plain).mpr ending))
      exact ending.imp (fun ending => congrArg ([·]) (whole "js" (by decide) ending))
        (fun ending => congrArg ([·]) (whole "ts" (by decide) ending))
    · cases main
  · rintro (rfl | rfl) <;> rfl

section

variable {tree : FileTree} (readable : tree.Readable)

include readable

theorem mem_scripts {text : Option String} :
    (names, text) ∈ tree.scripts ↔ IsScriptPath names ∧ tree.entry? names = some (.file text) := by
  rw [scripts, mem_mergeSort, mem_filter, mem_files readable]
  simp only [isVisible_iff, Option.any_eq_true, IsScriptPath]
  constructor
  · rintro ⟨⟨found, shown⟩, name, last, script⟩
    exact ⟨⟨shown, name, last, (isScriptName_iff (shown _ (mem_of_getLast? last))).mp script⟩, found⟩
  · rintro ⟨⟨shown, name, last, script⟩, found⟩
    exact ⟨⟨found, shown⟩, name, last, (isScriptName_iff (shown _ (mem_of_getLast? last))).mpr script⟩

theorem nodup_scripts : (tree.scripts.map (·.1)).Nodup := by
  have files := nodup_files readable isVisible
  refine ((mergeSort_perm _ _).map _).nodup_iff.mpr ?_
  exact files.sublist (filter_sublist.map _)

theorem pairwise_scripts : (tree.scripts.map (·.1)).Pairwise Precedes := by
  have linear := LinearTest.ofCmp (@compare (List String) _)
  have sorted : tree.scripts.Pairwise fun a b => le a b := by
    refine pairwise_mergeSort ?_ ?_ _
    · intro a b c
      have trans := linear.trans a.1 b.1 c.1
      unfold le
      cases isMain a <;> cases isMain b <;> cases isMain c <;>
        simp_all
    · intro a b
      have total := linear.total a.1 b.1
      unfold le
      cases isMain a <;> cases isMain b <;> simp_all
  have distinct := pairwise_map.mp (nodup_scripts readable)
  refine pairwise_map.mpr ((sorted.and distinct).imp_of_mem ?_)
  rintro ⟨first, text⟩ ⟨second, text'⟩ here there ⟨le, ne⟩
  have main := @isMain_iff first text ((mem_scripts readable).mp here).1
  have main' := @isMain_iff second text' ((mem_scripts readable).mp there).1
  have differ : compare first second ≠ .eq := fun same => ne (Std.LawfulEqOrd.eq_of_compare same)
  revert le
  rw [Precedes, ← main, ← main', le]
  clear main main'
  cases isMain (first, text) <;> cases isMain (second, text') <;>
    cases direction : compare first second <;> simp_all

theorem addFile_eq {text : Option String}
    (member : (names, text) ∈ tree.scripts) (unit : SourceUnit) :
    unit.addFile (reportName names) text (tree.markupOf names) =
      { unit with scripts := unit.scripts ++ [loadedScript tree (names, text)] } := by
  obtain ⟨own, rfl⟩ := readable.text ((mem_scripts readable).mp member).2
  cases given : tree.markupOf names with
  | none => simp [SourceUnit.addFile, SourceUnit.withMarkup, loadedScript, given]
  | some page =>
    obtain ⟨name, content⟩ := page
    obtain ⟨inner, rfl⟩ : ∃ inner, content = some inner := by
      unfold markupOf at given
      split at given
      case h_1 found =>
        cases given
        exact readable.text found
      case h_2 => cases given
    simp [SourceUnit.addFile, SourceUnit.withMarkup, loadedScript, given]

theorem loadUnit_eq (name : String) : tree.loadUnit name =
    { name, scripts := tree.scripts.map (loadedScript tree) } := by
  have each : ∀ (found : List FoundScript) (unit : SourceUnit), found ⊆ tree.scripts →
      found.foldl (fun unit (names, text) =>
        unit.addFile (reportName names) text (tree.markupOf names)) unit =
      { unit with scripts := unit.scripts ++ found.map (loadedScript tree) } := by
    intro found
    induction found with
    | nil => simp
    | cons script rest ih =>
      intro unit part
      obtain ⟨here, there⟩ := cons_subset.mp part
      obtain ⟨names, text⟩ := script
      simp only [foldl_cons, addFile_eq readable here]
      simp [ih _ there]
  exact each tree.scripts { name } (Subset.refl _)

theorem isLoaded {text : Option String} (member : (names, text) ∈ tree.scripts) :
    IsLoaded tree names (loadedScript tree (names, text)) := by
  obtain ⟨⟨shown, -⟩, found⟩ := (mem_scripts readable).mp member
  obtain ⟨own, rfl⟩ := readable.text found
  refine ⟨rfl, found, fun above stem ends page => ?_⟩
  have beside : markupNames names = above ++ [stem ++ ".wxml"] := by
    rcases ends with rfl | rfl
    · exact markupNames_append "js" (shown _ (by simp)) (by decide)
    · exact markupNames_append "ts" (shown _ (by simp)) (by decide)
  simp only [loadedScript, markupOf, beside]
  split
  case h_1 content there =>
    obtain ⟨inner, rfl⟩ := readable.text there
    cases page
    simp [reportName, there, eq_comm]
  case h_2 absent =>
    simpa using fun _ => absent _

theorem nodup_names : ((tree.scripts.map (loadedScript tree)).map (·.name)).Nodup := by
  have distinct := pairwise_map.mp (nodup_scripts readable)
  refine pairwise_map.mpr (pairwise_map.mpr (distinct.imp_of_mem ?_))
  rintro ⟨first, text⟩ ⟨second, text'⟩ here there ne same
  obtain ⟨⟨-, name, last, -⟩, found⟩ := (mem_scripts readable).mp here
  obtain ⟨⟨-, name', last', -⟩, found'⟩ := (mem_scripts readable).mp there
  refine ne (reportName_injective ?_ ?_ (readable.entry? found).2 (readable.entry? found').2 same)
  · exact ne_nil_of_mem (mem_of_getLast? last)
  · exact ne_nil_of_mem (mem_of_getLast? last')

end

namespace Intake

def Separate (intake : Intake) (before : List ScriptFile) : Prop :=
  intake.program.files.size = intake.filesAnalyzed ∧
    ∀ graph ∈ intake.program.files, graph.file ∈ before.map (·.name)

theorem Separate.add {intake after : Intake} {before : List ScriptFile}
    (separate : intake.Separate before) {options : Alias.Options} {script : ScriptFile}
    (fresh : script.name ∉ before.map (·.name)) (added : intake.add options script = .ok after) :
    after.Separate (before ++ [script]) := by
  obtain ⟨counted, named⟩ := separate
  have older : ∀ graph ∈ intake.program.files, graph.file ∈ (before ++ [script]).map (·.name) :=
    fun graph member => by simpa using .inl (mem_map.mp (named graph member))
  cases read : Arena.ofFile (Script.File.read script.name script.text) with
  | error error =>
    rw [add_of_error _ read] at added
    cases added
    exact ⟨counted, older⟩
  | ok arena =>
    rw [add_of_tree _ read] at added
    cases calm : intake.budget.check with
    | error overrun => simp [calm, Except.bind] at added
    | ok =>
    cases made : FileGraph.build arena options intake.budget with
    | error overrun => simp [calm, made, Except.bind, Except.map] at added
    | ok result =>
      obtain ⟨graph, budget⟩ := result
      rw [calm, made] at added
      obtain rfl := FileGraph.eq_assemble_of_build made
      have own : (FileGraph.assemble arena options).file = script.name :=
        (@ScriptFile.graph_eq_some options _ _ (by
          simp [ScriptFile.graph?, read, Except.toOption])).2
      have unknown : intake.program.fileId? (FileGraph.assemble arena options).file = none := by
        rw [Program.fileId?, Array.findIdx?_eq_none_iff]
        intro graph member
        rw [beq_eq_false_iff_ne, own]
        exact fun same => fresh (same ▸ named graph member)
      have files : after.program.files = intake.program.files.push (.assemble arena options) := by
        cases added
        simp only [addGraph, Program.merge, unknown]
        cases script.markup <;> rfl
      cases added
      refine ⟨by rw [files, Array.size_push, counted]; rfl, fun graph member => ?_⟩
      rw [files] at member
      rcases Array.mem_push.mp member with old | rfl
      · exact older graph old
      · simp [own]

theorem Separate.addAll {intake : Intake} {before scripts : List ScriptFile}
    (separate : intake.Separate before) (options : Alias.Options)
    (distinct : ((before ++ scripts).map (·.name)).Nodup) :
    (intake.addAll options scripts).1.program.files.size =
      (intake.addAll options scripts).1.filesAnalyzed := by
  induction scripts generalizing intake before with
  | nil => exact separate.1
  | cons script rest ih =>
    rw [Intake.addAll]
    split
    case h_1 after added =>
      have fresh : script.name ∉ before.map (·.name) := by
        rw [map_append, nodup_append] at distinct
        exact fun known => distinct.2.2 _ known _ (by simp) rfl
      exact ih (separate.add fresh added) (by simpa using distinct)
    case h_2 => exact separate.1

end Intake

theorem loadUnit_exact {workspace : Workspace} {root : Path} {entries : List (String × FileTree)}
    (found : workspace.get? root = some (.directory entries))
    (readable : (FileTree.directory entries).Readable) (name : String) :
    let tree := FileTree.directory entries
    let unit := workspace.loadUnit root name
    (∃ paths : List (List String), Forall₂ (IsLoaded tree) paths unit.scripts ∧ paths.Nodup ∧
        paths.Pairwise Precedes ∧ ∀ names, names ∈ paths ↔
          IsScriptPath names ∧ ∃ text, tree.entry? names = some (.file text)) ∧
      unit.unreadable = [] ∧ (unit.scripts.map (·.name)).Nodup ∧
      ∀ config, (unit.intake config).1.program.files.size = (unit.intake config).1.filesAnalyzed := by
  intro tree unit
  have loaded : unit = { name, scripts := tree.scripts.map (loadedScript tree) } := by
    simp only [unit, Workspace.loadUnit, found]
    exact loadUnit_eq readable name
  have distinct : (unit.scripts.map (·.name)).Nodup := by
    rw [loaded]
    exact nodup_names readable
  refine ⟨⟨tree.scripts.map (·.1), ?_, nodup_scripts readable, pairwise_scripts readable, ?_⟩,
    by rw [loaded], distinct, fun config => ?_⟩
  · rw [loaded, forall₂_map_left_iff, forall₂_map_right_iff, forall₂_same]
    exact fun script member => isLoaded readable member
  · intro names
    rw [← exists_and_left]
    simp only [mem_map, Prod.exists, exists_and_right, exists_eq_right]
    exact exists_congr fun text => mem_scripts readable
  · exact @Intake.Separate.addAll _ [] _ ⟨rfl, by simp⟩ config.heap distinct

def shop : Workspace where
  root := .directory [("list.wxml", .file (some "")), ("list.js", .file (some "")),
    ("node_modules", .directory [("a.js", .file (some ""))])]

theorem loadUnit_exact_shop :
    shop.get? ⟨"/"⟩ = some shop.root ∧ shop.root.Readable ∧
      ∃ paths, Forall₂ (IsLoaded shop.root) paths (shop.loadUnit ⟨"/"⟩ "shop").scripts ∧
        ["list.js"] ∈ paths ∧ ["node_modules", "a.js"] ∉ paths := by
  have found : shop.get? ⟨"/"⟩ = some shop.root := rfl
  have readable : shop.root.Readable := by
    refine .directory (by decide) (by simp [Path.IsName]) ?_
    simp only [forall_mem_cons]
    exact ⟨.file _, .file _, .directory (by decide) (by simp [Path.IsName])
      (by simpa using .file _), by simp⟩
  obtain ⟨⟨paths, loaded, -, -, exact⟩, -⟩ := loadUnit_exact found readable "shop"
  refine ⟨found, readable, paths, loaded, (exact _).mpr ⟨?_, "", rfl⟩, fun member => ?_⟩
  · refine ⟨by simp [IsShown], "list.js", rfl, ?_⟩
    simp only [← String.endsWith_toSlice, String.Slice.endsWith_string_iff, String.copy_toSlice]
    decide
  · have shown := ((exact _).mp member).1.1 "node_modules" mem_cons_self
    exact shown.2.1 rfl

end Seepage

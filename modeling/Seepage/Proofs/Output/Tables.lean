import Mathlib.Data.List.Forall2
import Mathlib.Data.List.TakeWhile
import Seepage.Output.Table

set_option autoImplicit false

namespace Seepage.Output

open Taint (Finding)

def shown (text : List Char) : List Char :=
  text.map fun c => if c ∈ ['|', '\n', '\r'] then ' ' else c

inductive IsPage (file : List Char) : List Char → Prop where
  | bare (none : '.' ∉ file) : IsPage file file
  | folder {stem rest : List Char} (cut : file = stem ++ '.' :: rest) (last : '.' ∉ rest)
    (slash : '/' ∈ rest) : IsPage file file
  | stem {page extension : List Char} (cut : file = page ++ '.' :: extension)
    (last : '.' ∉ extension) (plain : '/' ∉ extension) : IsPage file page

def ShowsFlow (finding : Finding) (cells : List (List Char)) : Prop :=
  ∃ page, IsPage finding.sink.file.toList page ∧
    cells = [shown page, shown (finding.method.getD "").toList, shown (finding.ident.getD "").toList,
      shown finding.source.toList, shown finding.sink.api.toList]

def ShowsCrossing (finding : Finding) (cells : List (List Char)) : Prop :=
  ∃ start page, IsPage finding.sourceFile.toList start ∧ IsPage finding.sink.file.toList page ∧
    cells = [shown start, shown page, shown (finding.channel.getD "").toList,
      shown finding.source.toList, shown finding.sink.api.toList]

def Lists (shows : Finding → List (List Char) → Prop) (header table : String)
    (findings : List Finding) : Prop :=
  ∃ rows, table.toList.splitOn '\n' = header.toList :: rows ++ [[]] ∧
    List.Forall₂ (fun finding row => shows finding (row.splitOn '|')) findings rows

theorem toList_field (text : String) : (field text).toList = shown text.toList := by
  simp [field, fieldChar, shown, or_assoc]

theorem notMem_shown {c : Char} (special : c ∈ ['|', '\n', '\r']) (text : List Char) :
    c ∉ shown text := by
  intro member
  obtain ⟨given, -, made⟩ := List.mem_map.mp member
  split at made
  case isTrue => simp [← made] at special
  case isFalse plain => exact plain (made ▸ special)

theorem isPage_pageName (file : String) : IsPage file.toList (pageName file).toList := by
  by_cases dotted : '.' ∈ file.toList.reverse
  · -- Backwards, the first dot is the last one.
    obtain ⟨extension, stem, cut, last⟩ := List.eq_append_cons_of_mem dotted
    have plain : ∀ c ∈ extension, (c != '.') = true := by
      intro c member
      simpa using ne_of_mem_of_not_mem member last
    have whole : file.toList = stem.reverse ++ '.' :: extension.reverse := by
      rw [← List.reverse_reverse file.toList, cut]
      simp
    have isName : pageName file =
        if extension.contains '/' then file else .ofList stem.reverse := by
      simp [pageName, cut, List.takeWhile_append_of_pos plain, List.dropWhile_append_of_pos plain]
    rw [isName]
    split
    case isTrue slash => exact .folder whole (by simpa using last) (by simpa using slash)
    case isFalse plain =>
      rw [String.toList_ofList]
      exact .stem whole (by simpa using last) (by simpa using plain)
  · have none : file.toList.reverse.dropWhile (· != '.') = [] := by
      rw [List.dropWhile_eq_nil_iff]
      intro c member
      simpa using ne_of_mem_of_not_mem member dotted
    have isName : pageName file = file := by simp [pageName, none]
    rw [isName]
    exact .bare (by simpa using dotted)

theorem row_shown {fields : List String} (filled : fields ≠ []) : ∃ line,
    (row fields).toList = line ++ ['\n'] ∧ '\n' ∉ line ∧
      line.splitOn '|' = fields.map fun text => shown text.toList := by
  refine ⟨['|'].intercalate (fields.map fun text => shown text.toList), ?_, ?_, ?_⟩
  · simp [row, toList_field, Function.comp_def]
  · clear filled
    induction fields with
    | nil => simp
    | cons first rest ih =>
      cases rest with
      | nil => simpa using notMem_shown (by simp) first.toList
      | cons => simpa using ⟨notMem_shown (by simp) first.toList, ih⟩
  · refine List.splitOn_intercalate '|' ?_ (by simpa using filled)
    intro cell member
    obtain ⟨text, -, rfl⟩ := List.mem_map.mp member
    exact notMem_shown (by simp) _

section

variable {shows : Finding → List (List Char) → Prop} {fields : Finding → List String}
  (filled : ∀ finding, fields finding ≠ [])
  (each : ∀ finding, shows finding ((fields finding).map fun text => shown text.toList))

include filled each

theorem exists_rows (findings : List Finding) : ∃ rows,
    (String.join (findings.map fun found => row (fields found))).toList.splitOn '\n' =
      rows ++ [[]] ∧
    List.Forall₂ (fun finding row => shows finding (row.splitOn '|')) findings rows := by
  induction findings with
  | nil => exact ⟨[], by simp, .nil⟩
  | cons first rest ih =>
    obtain ⟨rows, cut, shown⟩ := ih
    obtain ⟨line, isLine, whole, cells⟩ := row_shown (filled first)
    refine ⟨line :: rows, ?_, .cons (cells ▸ each first) shown⟩
    rw [String.toList_join] at cut ⊢
    rw [List.map_cons, List.flatMap_cons, isLine, List.append_assoc, List.singleton_append,
      List.splitOn_append_cons_self_of_not_mem whole, cut, List.cons_append]

theorem lists_of_rows {header : String} (single : '\n' ∉ header.toList) (findings : List Finding) :
    Lists shows header (header ++ "\n" ++ String.join (findings.map fun found => row (fields found)))
      findings := by
  obtain ⟨rows, cut, shown⟩ := exists_rows filled each findings
  have ending : "\n".toList = ['\n'] := rfl
  refine ⟨rows, ?_, shown⟩
  rw [String.toList_append, String.toList_append, ending, List.append_assoc, List.singleton_append,
    List.splitOn_append_cons_self_of_not_mem single, cut, List.cons_append]

end

theorem tables_partition (findings : List Finding) :
    Lists ShowsFlow "page_name|page_method|ident|source|sink" (findingsTable findings)
      (findings.filter fun finding => finding.sourceFile = finding.sink.file) ∧
    Lists ShowsCrossing "from_page|to_page|event_name|source|sink" (interPageTable findings)
      (findings.filter fun finding => finding.sourceFile ≠ finding.sink.file) := by
  constructor
  · have table : findingsTable findings = "page_name|page_method|ident|source|sink" ++ "\n" ++
        String.join ((findings.filter fun finding => finding.sourceFile = finding.sink.file).map
          findingRow) := by
      simp [findingsTable, findingsHeader, Finding.isInterPage, bne, beq_eq_decide]
    rw [table]
    exact lists_of_rows (fun _ => List.cons_ne_nil _ _)
      (fun finding => ⟨_, isPage_pageName _, rfl⟩) (by decide) _
  · have table : interPageTable findings = "from_page|to_page|event_name|source|sink" ++ "\n" ++
        String.join ((findings.filter fun finding => finding.sourceFile ≠ finding.sink.file).map
          interPageRow) := by
      simp [interPageTable, interPageHeader, Finding.isInterPage, bne, beq_eq_decide]
    rw [table]
    exact lists_of_rows (fun _ => List.cons_ne_nil _ _)
      (fun finding => ⟨_, _, isPage_pageName _, isPage_pageName _, rfl⟩) (by decide) _

end Seepage.Output

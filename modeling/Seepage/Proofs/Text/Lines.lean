import Mathlib.Data.List.DropRight
import Seepage.Proofs.Text.Offsets
import Seepage.Script.File

set_option autoImplicit false

namespace Seepage.Text

open List

def bytesBefore (text : String) (offset : Nat) : List UInt8 :=
  text.toUTF8.data.toList.take offset

def wholeLines (bytes : List UInt8) : List UInt8 :=
  bytes.rdropWhile (· != 10)

theorem bytesBefore_eq (text : String) (offset : Nat) :
    bytesBefore text offset = (text.toList.flatMap String.utf8EncodeChar).take offset := by
  rw [bytesBefore, String.toUTF8_eq_toByteArray, ← String.utf8Encode_toList, utf8Encode,
    toList_data_toByteArray]

theorem wholeLines_append (first second : List UInt8) : wholeLines (first ++ second) =
    if wholeLines second = [] then wholeLines first else first ++ wholeLines second := by
  simp only [wholeLines, rdropWhile, reverse_append, dropWhile_append, reverse_eq_nil_iff,
    List.isEmpty_iff]
  split_ifs <;> simp

theorem wholeLines_eq_nil {bytes : List UInt8} (plain : 10 ∉ bytes) : wholeLines bytes = [] := by
  refine rdropWhile_eq_nil_iff.mpr fun byte member => bne_iff_ne.mpr ?_
  rintro rfl
  exact plain member

theorem notMem_utf8EncodeChar {c : Char} (other : c ≠ '\n') : 10 ∉ String.utf8EncodeChar c := by
  have different : c.toNat ≠ 10 := fun same => other (Char.ext (UInt32.toNat_inj.mp same))
  unfold String.utf8EncodeChar
  intro member
  simp only [Char.toNat_val] at member
  split_ifs at member <;> simp [← UInt8.toNat_inj] at member <;> omega

theorem lastStart_startsFrom (offset index start base : Nat) (text : List Char) :
    let before := (text.flatMap String.utf8EncodeChar).take (offset - base)
    lastStart offset index start (startsFrom base text) = (index + before.count 10,
      if wholeLines before = [] then start else base + (wholeLines before).length) := by
  induction text generalizing index start base with
  | nil => simp [startsFrom, lastStart, wholeLines]
  | cons c rest ih =>
    simp only [startsFrom, flatMap_cons, take_append, String.length_utf8EncodeChar, Nat.sub_sub]
    by_cases passed : base + c.utf8Size ≤ offset
    · rw [take_of_length_le (by rw [String.length_utf8EncodeChar]; omega), count_append,
        wholeLines_append]
      by_cases isEnd : c = '\n'
      · subst isEnd
        have single : String.utf8EncodeChar '\n' = [10] := rfl
        have stays : wholeLines [10] = [10] := rfl
        rw [if_pos rfl, lastStart, if_pos passed, ih, single, stays]
        split_ifs <;> simp_all [Char.utf8Size] <;> omega
      · have plain := notMem_utf8EncodeChar isEnd
        rw [if_neg isEnd, ih, count_eq_zero.mpr plain, wholeLines_eq_nil plain]
        split_ifs <;> simp_all
        omega
    · -- The offset is not behind the character, so nothing from there on counts.
      have plain : 10 ∉ (String.utf8EncodeChar c).take (offset - base) := by
        by_cases isEnd : c = '\n'
        · subst isEnd
          have early : offset - base = 0 := by
            simp [Char.utf8Size] at passed
            omega
          simp [early]
        · exact fun member => notMem_utf8EncodeChar isEnd (mem_of_mem_take member)
      have later : offset - (base + c.utf8Size) = 0 := by omega
      rw [later, take_zero, append_nil, count_eq_zero.mpr plain, wholeLines_eq_nil plain, if_pos rfl]
      split_ifs
      · rw [lastStart, if_neg passed]; rfl
      · simp [ih, later, wholeLines]

theorem lineColumn_eq (source : String) (pos : Nat) :
    lineColumn (lineStarts source.toList) pos = (1 + (bytesBefore source (pos - 1)).count 10,
      pos - 1 - (wholeLines (bytesBefore source (pos - 1))).length + 1) := by
  have found := lastStart_startsFrom (pos - 1) 0 0 0 source.toList
  rw [Nat.sub_zero, ← bytesBefore_eq] at found
  simp only [lineColumn, lineStarts, tail_cons, found, Prod.mk.injEq]
  refine ⟨by omega, ?_⟩
  split_ifs with none <;> simp [*]

theorem lineColumn_lt (source : String) {pos later : Nat} (positive : 1 ≤ pos)
    (before : pos < later) :
    Prod.Lex (· < ·) (· < ·) (lineColumn (lineStarts source.toList) pos)
      (lineColumn (lineStarts source.toList) later) := by
  have lines : (lineColumn (lineStarts source.toList) pos).1 ≤
      (lineColumn (lineStarts source.toList) later).1 := by
    have part : pos - 1 ≤ later - 1 := by omega
    rw [lineColumn_eq, lineColumn_eq]
    exact Nat.add_le_add_left ((take_sublist_take_left part).count_le 10) 1
  obtain ⟨start, here, column⟩ := lineColumn_spec (lineStarts source.toList) pos
  obtain ⟨start', there, column'⟩ := lineColumn_spec (lineStarts source.toList) later
  rw [Prod.lex_def]
  rcases Nat.lt_or_eq_of_le lines with less | same
  · exact .inl less
  · rw [same, there] at here
    cases here
    exact .inr ⟨same, by omega⟩

theorem lineColumn_counts (name source : String) (pos : Nat) :
    let starts := (Script.File.read name source).lineStarts
    let before := bytesBefore source (pos - 1)
    lineColumn starts pos =
        (1 + before.count 10, pos - 1 - (wholeLines before).length + 1) ∧
      (lastStart (pos - 1) 0 0 starts.tail).2 ≤ pos - 1 ∧
      ∀ later, 1 ≤ pos → pos < later →
        Prod.Lex (· < ·) (· < ·) (lineColumn starts pos) (lineColumn starts later) := by
  intro starts before
  refine ⟨lineColumn_eq source pos, ?_, fun later => lineColumn_lt source⟩
  obtain ⟨-, -, -, exact⟩ := lastStart_spec (pos - 1) 0 0 starts.tail (Nat.zero_le _)
  exact exact

end Seepage.Text

import Mathlib.Data.List.Infix
import Seepage.Markup.Token
import Seepage.Text.Lines

set_option autoImplicit false

namespace Seepage

open List

variable {text after rest : List Char} {c : Char} {line : Nat}

namespace Text

theorem lastStart_spec (offset index start : Nat) (starts : List Nat) (early : start ≤ offset) :
    ∃ found, (start :: starts)[found]? = some (lastStart offset index start starts).2 ∧
      (lastStart offset index start starts).1 = index + found ∧
      (lastStart offset index start starts).2 ≤ offset := by
  induction starts generalizing index start with
  | nil => exact ⟨0, rfl, rfl, early⟩
  | cons next rest ih =>
    unfold lastStart
    by_cases passed : next ≤ offset
    · rw [if_pos passed]
      obtain ⟨found, here, number, before⟩ := ih (index + 1) next passed
      exact ⟨found + 1, here, by omega, before⟩
    · rw [if_neg passed]
      exact ⟨0, rfl, rfl, early⟩

theorem lineColumn_spec (starts : List Nat) (pos : Nat) :
    ∃ start, (0 :: starts.tail)[(lineColumn starts pos).1 - 1]? = some start ∧
      start + (lineColumn starts pos).2 = pos - 1 + 1 := by
  obtain ⟨found, here, number, before⟩ := lastStart_spec (pos - 1) 0 0 starts.tail (Nat.zero_le _)
  refine ⟨(lastStart (pos - 1) 0 0 starts.tail).2, ?_, ?_⟩
  · simp only [lineColumn, number, Nat.zero_add, Nat.add_sub_cancel]
    exact here
  · simp only [lineColumn]
    omega

end Text

namespace Markup

def breaks (text : List Char) : Nat :=
  text.count '\n'

inductive Cut : Nat → List Char → List (Nat × Token) → Prop where
  | done (line : Nat) (text : List Char) : Cut line text []
  | token {line : Nat} {skipped matched after : List Char} {token : Token}
    {others : List (Nat × Token)}
    (reads : readToken? (matched ++ after) = some (token, after))
    (more : Cut (line + breaks (skipped ++ matched)) after others) :
    Cut line (skipped ++ (matched ++ after)) ((line + breaks skipped, token) :: others)

theorem suffix_skipBlanks (text : List Char) : skipBlanks text <:+ text :=
  dropWhile_suffix _

theorem suffix_of_splitAfter? {mark before : List Char}
    (split : splitAfter? mark text = some (before, after)) : after <:+ text := by
  induction text generalizing before with
  | nil =>
    rw [splitAfter?, Option.ite_none_right_eq_some] at split
    cases split.2
    exact suffix_refl _
  | cons c rest ih =>
    rw [splitAfter?] at split
    split at split
    · cases split
      exact drop_suffix _ _
    · obtain ⟨⟨inner, after'⟩, found, same⟩ := Option.map_eq_some_iff.mp split
      cases same
      exact (ih found).trans (suffix_cons _ _)

theorem suffix_of_readTagName? {name : String}
    (read : readTagName? text = some (name, after)) : after <:+ text := by
  cases text with
  | nil => cases read
  | cons c rest =>
    rw [readTagName?, Option.ite_none_right_eq_some] at read
    cases read.2
    exact (dropWhile_suffix _).trans (suffix_cons _ _)

theorem suffix_of_readValue? {value : String}
    (read : readValue? text = some (value, after)) : after <:+ text := by
  unfold readValue? at read
  split at read
  case h_1 | h_2 =>
    obtain ⟨⟨inner, after'⟩, found, same⟩ := Option.map_eq_some_iff.mp read
    cases same
    exact (suffix_of_splitAfter? found).trans (suffix_cons _ _)
  case h_3 =>
    split at read
    · cases read
    · cases read
      exact dropWhile_suffix _

theorem suffix_of_readAttribute? {given : Attribute}
    (read : readAttribute? text = some (given, after)) : after <:+ text := by
  have name : text.dropWhile isAttributeNameChar <:+ text := dropWhile_suffix _
  unfold readAttribute? at read
  simp only at read
  split at read
  case h_1 rest isEqual =>
    obtain ⟨⟨value, after'⟩, found, same⟩ := Option.map_eq_some_iff.mp read
    cases same
    have behind : rest <:+ skipBlanks (text.dropWhile isAttributeNameChar) :=
      isEqual ▸ suffix_cons _ _
    exact (suffix_of_readValue? found).trans ((suffix_skipBlanks rest).trans
      (behind.trans ((suffix_skipBlanks _).trans name)))
  case h_2 =>
    cases read
    exact name

theorem suffix_of_readAttributes? {fuel : Nat} {attributes : List Attribute}
    (read : readAttributes? fuel text = some (attributes, after)) : after <:+ text := by
  induction fuel generalizing text attributes with
  | zero =>
    cases read
    exact suffix_refl _
  | succ fuel ih =>
    rw [readAttributes?] at read
    split at read
    · obtain ⟨⟨first, rest⟩, one, read⟩ := Option.bind_eq_some_iff.mp read
      obtain ⟨⟨others, rest'⟩, more, same⟩ := Option.bind_eq_some_iff.mp read
      cases same
      exact (ih more).trans ((suffix_of_readAttribute? one).trans (suffix_skipBlanks text))
    · cases read
      exact suffix_refl _

theorem suffix_of_readStartTag? {tag : StartTag}
    (read : readStartTag? text = some (tag, after)) : after <:+ text := by
  obtain ⟨⟨name, rest⟩, named, read⟩ := Option.bind_eq_some_iff.mp read
  obtain ⟨⟨attributes, rest'⟩, given, read⟩ := Option.bind_eq_some_iff.mp read
  have behind : skipBlanks rest' <:+ text := (suffix_skipBlanks rest').trans
    ((suffix_of_readAttributes? given).trans (suffix_of_readTagName? named))
  simp only at read
  split at read
  case h_1 isEnd =>
    cases read
    exact ((suffix_cons _ _).trans (suffix_cons _ _)).trans (isEnd ▸ behind)
  case h_2 isEnd =>
    cases read
    exact (suffix_cons _ _).trans (isEnd ▸ behind)
  case h_3 => cases read

theorem suffix_of_readToken? {token : Token}
    (read : readToken? (c :: rest) = some (token, after)) : after <:+ rest := by
  unfold readToken? at read
  split at read
  case h_1 text same =>
    cases same
    obtain ⟨⟨inner, after'⟩, found, same⟩ := Option.map_eq_some_iff.mp read
    cases same
    exact (suffix_of_splitAfter? found).trans ⟨['!', '-', '-'], rfl⟩
  case h_2 text same =>
    cases same
    obtain ⟨⟨name, behind⟩, named, read⟩ := Option.bind_eq_some_iff.mp read
    have inside : skipBlanks behind <:+ text := (suffix_skipBlanks behind).trans
      ((suffix_of_readTagName? named).trans (suffix_skipBlanks text))
    simp only at read
    split at read
    case h_1 isEnd =>
      cases read
      exact ((suffix_cons _ _).trans (isEnd ▸ inside)).trans (suffix_cons _ _)
    case h_2 => cases read
  case h_3 text _ _ same =>
    cases same
    obtain ⟨⟨tag, after'⟩, found, same⟩ := Option.map_eq_some_iff.mp read
    cases same
    exact suffix_of_readStartTag? found
  case h_4 => cases read

theorem next_line (line : Nat) (c : Char) :
    (if c = '\n' then line + 1 else line) = line + breaks [c] := by
  by_cases isBreak : c = '\n' <;> simp [breaks, isBreak]

theorem breaks_cons (c : Char) (text : List Char) :
    breaks (c :: text) = breaks [c] + breaks text := by
  rw [← singleton_append, breaks, count_append]
  rfl

theorem tokensFrom_pending (line : Nat) (matched after : List Char) :
    tokensFrom line matched.length (matched ++ after) =
      tokensFrom (line + breaks matched) 0 after := by
  induction matched generalizing line with
  | nil => rfl
  | cons c matched ih =>
    rw [cons_append, length_cons, tokensFrom, ih, next_line, breaks_cons c matched,
      Nat.add_assoc]

theorem Cut.skip {tokens : List (Nat × Token)}
    (cut : Cut (line + breaks [c]) rest tokens) : Cut line (c :: rest) tokens := by
  cases cut with
  | done => exact .done _ _
  | @token _ skipped matched after token others reads more =>
    rw [Nat.add_assoc, ← breaks_cons] at more ⊢
    exact @Cut.token line (c :: skipped) matched after token others reads more

theorem tokensFrom_token {matched : List Char} {token : Token}
    (reads : readToken? (c :: (matched ++ after)) = some (token, after)) :
    tokensFrom line 0 (c :: (matched ++ after)) =
      (line, token) :: tokensFrom (line + breaks (c :: matched)) 0 after := by
  have pending : (matched ++ after).length - after.length = matched.length := by simp
  rw [tokensFrom, reads]
  simp only [next_line]
  rw [pending, tokensFrom_pending, breaks_cons c matched, Nat.add_assoc]

theorem cut_tokensFrom (line : Nat) (text : List Char) :
    Cut line text (tokensFrom line 0 text) := by
  induction length : text.length using Nat.strong_induction_on generalizing line text with
  | h size ih =>
    cases text with
    | nil => exact .done _ _
    | cons c rest =>
      rw [length_cons] at length
      cases read : readToken? (c :: rest) with
      | some result =>
        -- the token ends inside the rest, so what is left of it has a length
        obtain ⟨token, after⟩ := result
        obtain ⟨matched, rfl⟩ := suffix_of_readToken? read
        rw [length_append] at length
        rw [tokensFrom_token read]
        exact @Cut.token line [] (c :: matched) after token _ read
          (ih after.length (by omega) _ after rfl)
      | none =>
        rw [tokensFrom, read]
        simp only [next_line]
        exact .skip (ih rest.length (by omega) _ rest rfl)

theorem cut_tokens (text : String) : Cut 1 text.toList (tokens text) :=
  cut_tokensFrom 1 text.toList

end Markup

end Seepage

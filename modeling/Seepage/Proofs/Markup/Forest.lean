import Mathlib.Data.List.Nodup
import Seepage.Proofs.Ordering
import Seepage.Proofs.Text.Offsets

set_option autoImplicit false

namespace Seepage.Markup

open List Text

variable {text rest ending : List Char} {name value : String}

def plainChars : List Char :=
  "abcdefghijklmnopqrstuvwxyzABCDEFGHIJKLMNOPQRSTUVWXYZ0123456789-:".toList

structure Given where
  name : String
  value : Option String
  filled : name.toList ≠ []
  plain : name.toList ⊆ plainChars
  quotable : ∀ text, value = some text → '\"' ∉ text.toList

structure Element where
  name : String
  attributes : List Given
  starts : ∃ c rest, name.toList = c :: rest ∧ c.isAlpha
  plain : name.toList ⊆ plainChars
  distinct : (attributes.map (·.name)).Nodup

-- Elements among text and comments, next to each other and inside each other.
inductive Forest where
  | nil
  | text (content : String) (plain : '<' ∉ content.toList) (rest : Forest)
  | comment (content : String) (unfinished : ¬['-', '-', '>'] <:+: content.toList) (rest : Forest)
  | selfClosed (element : Element) (rest : Forest)
  | pair (element : Element) (inner rest : Forest)

def Given.write (given : Given) : List Char :=
  ' ' :: (given.name.toList ++ given.value.elim [] fun text => '=' :: '\"' :: (text.toList ++ ['\"']))

def endOf (selfClosing : Bool) : List Char :=
  if selfClosing then ['/', '>'] else ['>']

def Element.opening (element : Element) (selfClosing : Bool) : List Char :=
  '<' :: (element.name.toList ++ (element.attributes.flatMap Given.write ++ endOf selfClosing))

def Element.closing (element : Element) : List Char :=
  '<' :: '/' :: (element.name.toList ++ ['>'])

def writeComment (content : String) : List Char :=
  '<' :: '!' :: '-' :: '-' :: (content.toList ++ ['-', '-', '>'])

def Forest.write : Forest → List Char
  | .nil => []
  | .text content _ rest => content.toList ++ rest.write
  | .comment content _ rest => writeComment content ++ rest.write
  | .selfClosed element rest => element.opening true ++ rest.write
  | .pair element inner rest =>
    element.opening false ++ (inner.write ++ (element.closing ++ rest.write))

theorem isWhiteSpace_of_plain : ∀ c ∈ plainChars, ¬isWhiteSpace c :=
  any_eq_false.mp (by decide)

theorem isAttributeNameChar_of_plain : ∀ c ∈ plainChars, isAttributeNameChar c :=
  all_eq_true.mp (by decide)

theorem isTagNameChar_of_plain : ∀ c ∈ plainChars, isTagNameChar c :=
  all_eq_true.mp (by decide)

def Starts (marks text : List Char) : Prop :=
  ∃ c ∈ marks, text.head? = some c

theorem skipBlanks_cons {c : Char} (visible : ¬isWhiteSpace c) (rest : List Char) :
    skipBlanks (c :: rest) = c :: rest :=
  dropWhile_cons_of_neg visible

theorem skipBlanks_of_starts {marks : List Char} (starts : Starts marks text)
    (visible : marks.any isWhiteSpace = false) : skipBlanks text = text := by
  obtain ⟨c, member, first⟩ := starts
  obtain ⟨rest, rfl⟩ := head?_eq_some_iff.mp first
  exact skipBlanks_cons (any_eq_false.mp visible c member) rest

theorem span_of_starts {test : Char → Bool} {marks name rest : List Char} (all : ∀ c ∈ name, test c)
    (starts : Starts marks rest) (others : marks.any test = false) :
    (name ++ rest).takeWhile test = name ∧ (name ++ rest).dropWhile test = rest := by
  obtain ⟨c, member, first⟩ := starts
  obtain ⟨rest, rfl⟩ := head?_eq_some_iff.mp first
  rw [takeWhile_append_of_pos all, dropWhile_append_of_pos all]
  simp [any_eq_false.mp others c member]

theorem readTagName?_write (element : Element) (starts : Starts [' ', '/', '>'] rest) :
    readTagName? (element.name.toList ++ rest) = some (element.name, rest) := by
  obtain ⟨c, name, split, isLetter⟩ := element.starts
  obtain ⟨taken, dropped⟩ := @span_of_starts isTagNameChar _ name rest
    (fun c member => isTagNameChar_of_plain c (element.plain (by simp [split, member]))) starts
    (by decide)
  rw [split, cons_append, readTagName?, if_pos isLetter, taken, dropped, ← split,
    String.ofList_toList]

theorem splitAfter?_quote (quotable : '\"' ∉ text) :
    splitAfter? ['\"'] (text ++ '\"' :: rest) = some (text, rest) := by
  induction text with
  | nil => rfl
  | cons c text ih =>
    obtain ⟨other, later⟩ := not_or.mp (mem_cons.not.mp quotable)
    simp [splitAfter?, isPrefixOf, other, ih later]

theorem splitAfter?_dashes (unfinished : ¬['-', '-', '>'] <:+: text) :
    splitAfter? ['-', '-', '>'] (text ++ '-' :: '-' :: '>' :: rest) = some (text, rest) := by
  induction text with
  | nil => rfl
  | cons c text ih =>
    have apart : ¬['-', '-', '>'].isPrefixOf (c :: (text ++ '-' :: '-' :: '>' :: rest)) := by
      intro starts
      -- the dashes that end the comment cannot begin inside the text
      match text with
      | [] | [_] => simp [isPrefixOf] at starts
      | d :: e :: more =>
        simp [isPrefixOf] at starts
        obtain ⟨rfl, rfl, rfl⟩ := starts
        exact unfinished (prefix_append _ more).isInfix
    rw [cons_append, splitAfter?, if_neg apart, ih fun inner => unfinished (infix_cons inner)]
    rfl

def Given.attribute (given : Given) : Attribute :=
  ⟨given.name, given.value.getD ""⟩

theorem Given.exists_write (given : Given) :
    ∃ c rest, given.write = ' ' :: c :: rest ∧ c ∈ plainChars := by
  cases name : given.name.toList with
  | nil => exact absurd name given.filled
  | cons c rest =>
    exact ⟨c, _, by rw [write, name, cons_append], given.plain (by simp [name])⟩

theorem skipBlanks_write (given : Given) (rest : List Char) :
    skipBlanks (given.write ++ rest) = given.write.tail ++ rest := by
  obtain ⟨c, more, same, plain⟩ := given.exists_write
  rw [same]
  exact (dropWhile_cons_of_pos rfl).trans (skipBlanks_cons (isWhiteSpace_of_plain c plain) _)

theorem readAttribute?_write (given : Given)
    (starts : Starts [' ', '/', '>'] rest) (unequal : (skipBlanks rest).head? ≠ some '=') :
    readAttribute? (given.write.tail ++ rest) = some (given.attribute, rest) := by
  have all : ∀ c ∈ given.name.toList, isAttributeNameChar c := fun c member =>
    isAttributeNameChar_of_plain c (given.plain member)
  simp only [readAttribute?, Given.write, tail_cons, Given.attribute, append_assoc]
  cases value : given.value with
  | none =>
    obtain ⟨taken, dropped⟩ := span_of_starts all starts (by decide)
    simp only [Option.elim_none, nil_append, taken, dropped, String.ofList_toList]
    split
    · simp_all
    · rfl
  | some text =>
    have equals : Starts ['='] ('=' :: '\"' :: (text.toList ++ '\"' :: rest)) :=
      ⟨_, mem_cons_self, rfl⟩
    obtain ⟨taken, dropped⟩ := span_of_starts all equals (by decide)
    simp only [Option.elim_some, cons_append, append_assoc, nil_append, taken, dropped]
    rw [skipBlanks_cons (by decide)]
    simp only
    rw [skipBlanks_cons (by decide), readValue?, splitAfter?_quote (given.quotable text value)]
    simp

theorem starts_attributes (ends : Starts ['/', '>'] ending) (attributes : List Given) :
    Starts [' ', '/', '>'] (attributes.flatMap Given.write ++ ending) ∧
      (skipBlanks (attributes.flatMap Given.write ++ ending)).head? ≠ some '=' := by
  cases attributes with
  | nil =>
    rw [flatMap_nil, nil_append, skipBlanks_of_starts ends (by decide)]
    obtain ⟨c, member, first⟩ := ends
    refine ⟨⟨c, mem_cons_of_mem _ member, first⟩, ?_⟩
    rw [first]
    rintro ⟨⟩
    simp at member
  | cons given others =>
    obtain ⟨c, more, same, plain⟩ := given.exists_write
    refine ⟨⟨' ', mem_cons_self, rfl⟩, ?_⟩
    rw [flatMap_cons, append_assoc, skipBlanks_write, same]
    rintro ⟨⟩
    exact absurd (isAttributeNameChar_of_plain _ plain) (by decide)

theorem readAttributes?_write (ends : Starts ['/', '>'] ending)
    (attributes : List Given) {fuel : Nat} (enough : attributes.length ≤ fuel) :
    readAttributes? fuel (attributes.flatMap Given.write ++ ending) =
      some (attributes.map Given.attribute, ending) := by
  induction attributes generalizing fuel with
  | nil =>
    cases fuel with
    | zero => rfl
    | succ fuel =>
      obtain ⟨c, member, first⟩ := ends
      have visible := any_eq_false.mp (show ['/', '>'].any isWhiteSpace = false by decide) c member
      simp [readAttributes?, first, visible]
  | cons given others ih =>
    cases fuel with
    | zero => cases enough
    | succ fuel =>
      obtain ⟨starts, unequal⟩ := starts_attributes ends others
      obtain ⟨c, more, same, plain⟩ := given.exists_write
      rw [flatMap_cons, append_assoc, readAttributes?, skipBlanks_write,
        readAttribute?_write given starts unequal, same]
      simp [ih (Nat.le_of_succ_le_succ enough), isAttributeNameChar_of_plain _ plain,
        show isWhiteSpace ' ' by decide]

def Element.tag (element : Element) (selfClosing : Bool) : StartTag :=
  ⟨element.name, element.attributes.map Given.attribute, selfClosing⟩

theorem length_attributes (attributes : List Given) (ending : List Char) :
    attributes.length ≤ (attributes.flatMap Given.write ++ ending).length := by
  induction attributes with
  | nil => exact Nat.zero_le _
  | cons given others ih =>
    obtain ⟨c, more, same, -⟩ := given.exists_write
    simp only [flatMap_cons, same, length_append, length_cons] at ih ⊢
    omega

theorem readToken?_opening (element : Element) (selfClosing : Bool) (rest : List Char) :
    readToken? (element.opening selfClosing ++ rest) =
      some (.start (element.tag selfClosing), rest) := by
  have ends : Starts ['/', '>'] (endOf selfClosing ++ rest) := by
    cases selfClosing
    · exact ⟨'>', by simp, rfl⟩
    · exact ⟨'/', by simp, rfl⟩
  have read : readStartTag? (element.name.toList ++ (element.attributes.flatMap Given.write ++
      (endOf selfClosing ++ rest))) = some (element.tag selfClosing, rest) := by
    simp only [readStartTag?, readTagName?_write element (starts_attributes ends _).1,
      Option.bind_eq_bind, Option.bind_some, skipBlanks_of_starts ends (by decide),
      readAttributes?_write ends element.attributes (length_attributes _ _)]
    cases selfClosing <;> rfl
  obtain ⟨c, name, split, isLetter⟩ := element.starts
  simp only [Element.opening, cons_append, append_assoc]
  unfold readToken?
  split
  case h_1 | h_2 =>
    rename_i same
    rw [split] at same
    obtain rfl := (cons.inj (cons.inj same).2).1
    exact absurd isLetter (by decide)
  case h_3 same =>
    cases same
    rw [read]
    rfl
  case h_4 other => exact absurd rfl (other _)

theorem readToken?_closing (element : Element) (rest : List Char) :
    readToken? (element.closing ++ rest) = some (.close element.name, rest) := by
  have starts : Starts [' ', '/', '>'] ('>' :: rest) := ⟨'>', by simp, rfl⟩
  obtain ⟨c, name, split, -⟩ := element.starts
  have visible := isWhiteSpace_of_plain c (element.plain (by simp [split]))
  have read := readTagName?_write element starts
  rw [split] at read
  simp only [Element.closing, split, cons_append, append_assoc, nil_append, readToken?,
    skipBlanks_cons visible] at read ⊢
  rw [read]
  rfl

theorem readToken?_comment {content : String} (unfinished : ¬['-', '-', '>'] <:+: content.toList)
    (rest : List Char) : readToken? (writeComment content ++ rest) = some (.comment, rest) := by
  simp only [writeComment, cons_append, append_assoc, nil_append, readToken?,
    splitAfter?_dashes unfinished, Option.map_some]

theorem tokensFrom_text (line : Nat) (plain : '<' ∉ text) (rest : List Char) :
    tokensFrom line 0 (text ++ rest) = tokensFrom (line + breaks text) 0 rest := by
  induction text generalizing line with
  | nil => rfl
  | cons c text ih =>
    obtain ⟨other, later⟩ := not_or.mp (mem_cons.not.mp plain)
    have none : readToken? (c :: (text ++ rest)) = none := by
      unfold readToken?
      split <;> simp_all
    rw [cons_append, tokensFrom, none, next_line, ih _ later, breaks_cons c text, Nat.add_assoc]

theorem tokensFrom_read {before piece : List Char} {token : Token}
    (reads : readToken? (piece ++ rest) = some (token, rest)) :
    tokensFrom (1 + breaks before) 0 (piece ++ rest) =
      (1 + breaks before, token) :: tokensFrom (1 + breaks (before ++ piece)) 0 rest := by
  cases piece with
  | nil =>
    cases rest with
    | nil => cases reads
    | cons c rest => exact absurd (suffix_of_readToken? reads).length_le (by simp)
  | cons c piece =>
    rw [show breaks (before ++ c :: piece) = breaks before + breaks (c :: piece) from count_append,
      ← Nat.add_assoc]
    exact tokensFrom_token reads

theorem segments_eq (text : List Char) : segments text = text.splitOn '.' := by
  induction text with
  | nil => rfl
  | cons c rest ih =>
    obtain ⟨part, parts, same⟩ := exists_cons_of_ne_nil (splitOn_ne_nil '.' rest)
    rw [splitOn_cons_eq_if_modifyHead, segments.eq_def]
    by_cases dot : c = '.' <;> simp [dot, ih, same]

def IsPadded (text core : List Char) : Prop :=
  (∀ c ∈ core.head?, ¬isWhiteSpace c) ∧ (∀ c ∈ core.getLast?, ¬isWhiteSpace c) ∧
    ∃ front back, text = front ++ (core ++ back) ∧ ∀ c ∈ front ++ back, isWhiteSpace c

theorem dropWhile_blanks {blanks : List Char} (all : ∀ c ∈ blanks, isWhiteSpace c)
    (visible : ∀ c ∈ text.head?, ¬isWhiteSpace c) :
    (blanks ++ text).dropWhile isWhiteSpace = text := by
  rw [dropWhile_append_of_pos all]
  cases text with
  | nil => rfl
  | cons c rest => exact dropWhile_cons_of_neg (visible c rfl)

theorem head?_dropWhile_visible (text : List Char) :
    ∀ c ∈ (text.dropWhile isWhiteSpace).head?, ¬isWhiteSpace c := by
  intro c first
  have visible := head?_dropWhile_not isWhiteSpace text
  rw [Option.mem_def.mp first] at visible
  simpa using visible

theorem isPadded_iff {core : List Char} (filled : core ≠ []) :
    IsPadded text core ↔ trim text = core := by
  constructor
  · rintro ⟨first, last, front, back, rfl, blanks⟩
    obtain ⟨before, behind⟩ := forall_mem_append.mp blanks
    have visible : ∀ c ∈ (core ++ back).head?, ¬isWhiteSpace c := by
      rw [head?_append_of_ne_nil _ filled]
      exact first
    rw [trim, dropWhile_blanks before visible, reverse_append,
      dropWhile_blanks (by simpa using behind) (by simpa using last), reverse_reverse]
  · rintro rfl
    let rest := (text.dropWhile isWhiteSpace).reverse
    have split : text.dropWhile isWhiteSpace = trim text ++ (rest.takeWhile isWhiteSpace).reverse := by
      rw [trim, ← reverse_append, takeWhile_append_dropWhile, reverse_reverse]
    refine ⟨?_, ?_, text.takeWhile isWhiteSpace, (rest.takeWhile isWhiteSpace).reverse, ?_, ?_⟩
    · have visible := head?_dropWhile_visible text
      rwa [split, head?_append_of_ne_nil _ filled] at visible
    · have visible := head?_dropWhile_visible rest
      rwa [trim, getLast?_reverse]
    · rw [← split, takeWhile_append_dropWhile]
    · simp only [mem_append, mem_reverse]
      rintro c (before | behind)
      · exact all_eq_true.mp (all_takeWhile ..) c before
      · exact all_eq_true.mp (all_takeWhile ..) c behind

def IsIdentifier (name : List Char) : Prop :=
  ∃ c rest, name = c :: rest ∧ (c.isAlpha ∨ c = '_' ∨ c = '$') ∧ ∀ d ∈ rest, isWordChar d ∨ d = '$'

theorem isName_iff {name : List Char} : isName name ↔ IsIdentifier name := by
  cases name with
  | nil => simp [isName, IsIdentifier]
  | cons c rest => simp [isName, isNameStart, isNamePart, IsIdentifier, or_assoc]

theorem IsIdentifier.notMem {name : List Char} (valid : IsIdentifier name) : '.' ∉ name := by
  obtain ⟨first, rest, rfl, starts, others⟩ := valid
  intro member
  rcases mem_cons.mp member with rfl | later
  · exact absurd starts (by decide)
  · exact absurd (others _ later) (by decide)

def IsPath (value : String) (names : List (List Char)) : Prop :=
  names ≠ [] ∧ (∀ name ∈ names, IsIdentifier name) ∧ ∃ inner,
    IsPadded value.toList ('\x7b' :: '\x7b' :: (inner ++ ['\x7d', '\x7d'])) ∧
      IsPadded inner (['.'].intercalate names)

theorem boundName?_eq_some : boundName? value = some name ↔
    ∃ names, IsPath value names ∧ names.getLast? = some name.toList := by
  have filled : ∀ names, names ≠ [] → (∀ name ∈ names, IsIdentifier name) →
      ['.'].intercalate names ≠ [] := by
    intro names some valid empty
    have cut := splitOn_intercalate '.' (fun name member => (valid name member).notMem) some
    rw [empty, splitOn_nil] at cut
    obtain ⟨c, rest, none, -⟩ := valid [] (cut ▸ mem_singleton_self _)
    cases none
  constructor
  · intro found
    unfold boundName? at found
    split at found
    case h_1 rest braces =>
      split at found
      case h_1 inner closing =>
        obtain rfl : rest = inner.reverse ++ ['\x7d', '\x7d'] := by
          simpa using congrArg reverse closing
        simp only [Option.ite_none_right_eq_some, Option.map_eq_some_iff] at found
        obtain ⟨valid, last, isLast, rfl⟩ := found
        have some := ne_nil_of_mem (mem_of_getLast? isLast)
        have names : ∀ name ∈ segments (trim inner.reverse), IsIdentifier name := fun name member =>
          isName_iff.mp (all_eq_true.mp valid name member)
        refine ⟨_, ⟨some, names, _, (isPadded_iff (by simp)).mpr braces, ?_⟩, by simpa using isLast⟩
        refine (isPadded_iff (filled _ some names)).mpr ?_
        rw [segments_eq, intercalate_splitOn]
      case h_2 => cases found
    case h_2 => cases found
  · rintro ⟨names, ⟨some, valid, inner, outer, path⟩, last⟩
    have cut := splitOn_intercalate '.' (fun name member => (valid name member).notMem) some
    unfold boundName?
    rw [(isPadded_iff (by simp)).mp outer]
    simp [(isPadded_iff (filled names some valid)).mp path, segments_eq, cut, last]
    exact fun name member => isName_iff.mpr (valid name member)

namespace Element

variable (element : Element)

def Has (name value : String) : Prop :=
  ∃ given ∈ element.attributes, given.name = name ∧ given.value.getD "" = value

theorem attribute?_eq_some (selfClosing : Bool) :
    (element.tag selfClosing).attribute? name = some value ↔ element.Has name value := by
  simp only [StartTag.attribute?, tag, find?_map, Option.map_map, Option.map_eq_some_iff]
  constructor
  · rintro ⟨given, found, rfl⟩
    exact ⟨given, mem_of_find?_eq_some found, by simpa [Given.attribute] using find?_some found, rfl⟩
  · rintro ⟨given, member, rfl, rfl⟩
    refine ⟨given, ?_, rfl⟩
    cases found : element.attributes.find? ((·.name == given.name) ∘ Given.attribute) with
    | none => exact absurd (beq_self_eq_true _) (find?_eq_none.mp found given member)
    | some other =>
      have same : other.name = given.name := by simpa [Given.attribute] using find?_some found
      rw [inj_on_of_nodup_map element.distinct (mem_of_find?_eq_some found) member same]

def IsForm : Prop :=
  element.name = "form" ∨ element.name = "g-form"

instance : Decidable element.IsForm :=
  inferInstanceAs (Decidable (_ ∨ _))

def Binds (name : String) : Prop :=
  (element.name = "input" ∨ element.name = "g-input") ∧ name ≠ "" ∧
      (element.Has "name" name ∨ (∀ other, ¬element.Has "name" other) ∧ element.Has "id" name) ∨
    ∃ given ∈ element.attributes, "model:".toList <+: given.name.toList ∧
      ∃ names, IsPath (given.value.getD "") names ∧ names.getLast? = some name.toList

theorem mem_boundNames (selfClosing : Bool) :
    name ∈ (element.tag selfClosing).boundNames ↔ element.Binds name := by
  rw [StartTag.boundNames, mem_append]
  refine or_congr ?_ (by simp [tag, Given.attribute, boundName?_eq_some, and_assoc])
  rw [Option.mem_toList, StartTag.inputName?, Option.ite_none_right_eq_some]
  refine and_congr (by simp [StartTag.isInput, tag]) ?_
  simp [← element.attribute?_eq_some selfClosing, Option.filter_eq_some_iff,
    Option.or_eq_some_iff, Option.eq_none_iff_forall_ne_some, and_comm]

def Lacks (name : String) : Prop :=
  ∀ value, ¬element.Has name value

theorem attribute?_eq_none (selfClosing : Bool) :
    (element.tag selfClosing).attribute? name = none ↔ element.Lacks name := by
  simp only [Lacks, ← element.attribute?_eq_some selfClosing, Option.eq_none_iff_forall_ne_some, ne_eq]

def HasType (kind : String) : Prop :=
  ¬element.Lacks "password" ∧ kind = "password" ∨ element.Lacks "password" ∧
    (element.Has "type" "safe-password" ∧ kind = "password" ∨
      element.Has "type" kind ∧ kind ≠ "safe-password" ∧ kind ≠ "" ∨
      (element.Has "type" "" ∨ element.Lacks "type") ∧ kind = "text")

theorem eq_inputType (selfClosing : Bool) {kind : String} :
    kind = (element.tag selfClosing).inputType ↔ element.HasType kind := by
  unfold HasType StartTag.inputType
  simp only [← element.attribute?_eq_none selfClosing, ← element.attribute?_eq_some selfClosing]
  cases (element.tag selfClosing).attribute? "password" with
  | some value => simp
  | none =>
    cases (element.tag selfClosing).attribute? "type" with
    | none => simp
    | some value =>
      by_cases safe : value = "safe-password"
      · subst safe
        simp [@eq_comm _ "safe-password" kind]
        exact fun same other => absurd same other
      by_cases empty : value = ""
      · subst empty
        simp [@eq_comm _ "" kind]
        exact fun same _ other => absurd same other
      simp [safe, empty]
      grind

def Submits (handler : String) : Prop :=
  element.Has "bind:submit" handler ∨ element.Lacks "bind:submit" ∧
    (element.Has "bindsubmit" handler ∨ element.Lacks "bindsubmit" ∧
      (element.Has "catch:submit" handler ∨ element.Lacks "catch:submit" ∧
        element.Has "catchsubmit" handler))

theorem submitHandler?_eq_some (selfClosing : Bool) {handler : String} :
    (element.tag selfClosing).submitHandler? = some handler ↔ element.Submits handler := by
  simp only [StartTag.submitHandler?, findSome?_cons, findSome?_nil, Submits,
    ← element.attribute?_eq_none selfClosing, ← element.attribute?_eq_some selfClosing]
  grind

def Offers (file : String) (before : List Char) (handler : Option String) (binding : Binding) :
    Prop :=
  ¬element.IsForm ∧ ∃ name kind, element.Binds name ∧ element.HasType kind ∧
    binding = ⟨file, name, 1 + breaks before, element.name, kind, handler⟩

def Passes (outer inside : Option String) : Prop :=
  element.IsForm ∧ (∃ handler, element.Submits handler ∧ inside = some handler) ∨
    ¬(element.IsForm ∧ ∃ handler, element.Submits handler) ∧ inside = outer

theorem passes_iff {outer inside : Option String} : element.Passes outer inside ↔
    inside = if element.IsForm then (element.tag false).submitHandler?.or outer else outer := by
  simp only [Passes, ← element.submitHandler?_eq_some false]
  by_cases form : element.IsForm
  · cases handler : (element.tag false).submitHandler? <;> simp [form, eq_comm]
  · simp [form]

def handlers (forms : List (Option String)) : List (Option String) :=
  if element.IsForm then (element.tag false).submitHandler? :: forms else forms

end Element

def Forest.Offers (file : String) : Forest → List Char → Option String → Binding → Prop
  | .nil, _, _, _ => False
  | .text content _ rest, before, handler, binding =>
    rest.Offers file (before ++ content.toList) handler binding
  | .comment content _ rest, before, handler, binding =>
    rest.Offers file (before ++ writeComment content) handler binding
  | .selfClosed element rest, before, handler, binding =>
    element.Offers file before handler binding ∨
      rest.Offers file (before ++ element.opening true) handler binding
  | .pair element inner rest, before, handler, binding =>
    element.Offers file before handler binding ∨
      (∃ inside, element.Passes handler inside ∧
        inner.Offers file (before ++ element.opening false) inside binding) ∨
      rest.Offers file (before ++ (element.opening false ++ (inner.write ++ element.closing)))
        handler binding

section

variable (file : String) (element : Element) (forms : List (Option String))
  (others : List (Nat × Token)) {binding : Binding}

theorem mem_bindingsFrom_start (selfClosing : Bool) (before : List Char) :
    binding ∈ bindingsFrom file forms
        ((1 + breaks before, .start (element.tag selfClosing)) :: others) ↔
      element.Offers file before (forms.findSome? id) binding ∨ binding ∈
        bindingsFrom file (if selfClosing then forms else element.handlers forms) others := by
  have isForm : (element.tag selfClosing).isForm ↔ element.IsForm := by
    simp [StartTag.isForm, Element.tag, Element.IsForm]
  rw [bindingsFrom, Element.handlers]
  by_cases form : element.IsForm
  · rw [if_pos (isForm.mpr form), if_pos form]
    simp [Element.Offers, Element.tag, form]
    rfl
  · rw [if_neg (isForm.not.mpr form), if_neg form, mem_append, mem_map]
    simp only [element.mem_boundNames, Element.Offers, ← element.eq_inputType selfClosing, form,
      not_false_iff, true_and, ite_self, @eq_comm _ _ binding, exists_and_left, exists_eq_left]
    rfl

theorem findSome?_handlers : (element.handlers forms).findSome? id =
    if element.IsForm then (element.tag false).submitHandler?.or (forms.findSome? id)
    else forms.findSome? id := by
  unfold Element.handlers
  split_ifs
  · cases (element.tag false).submitHandler? <;> rfl
  · rfl

theorem bindingsFrom_close (line : Nat) :
    bindingsFrom file (element.handlers forms) ((line, .close element.name) :: others) =
      bindingsFrom file forms others := by
  rw [bindingsFrom, Element.handlers]
  by_cases form : element.IsForm <;> simp_all [Element.IsForm]

end

theorem mem_bindingsFrom_write (file : String) (forest : Forest) (before after : List Char)
    (forms : List (Option String)) (binding : Binding) :
    binding ∈ bindingsFrom file forms (tokensFrom (1 + breaks before) 0 (forest.write ++ after)) ↔
      forest.Offers file before (forms.findSome? id) binding ∨ binding ∈
        bindingsFrom file forms (tokensFrom (1 + breaks (before ++ forest.write)) 0 after) := by
  induction forest generalizing before after forms with
  | nil => simp [Forest.write, Forest.Offers]
  | text content plain rest ih =>
    rw [Forest.write, append_assoc, tokensFrom_text _ plain, Forest.Offers, ← append_assoc before,
      ← ih, breaks, breaks, breaks, count_append, Nat.add_assoc]
  | comment content unfinished rest ih =>
    rw [Forest.write, append_assoc, tokensFrom_read (readToken?_comment unfinished _), bindingsFrom,
      Forest.Offers, ← append_assoc before, ← ih]
  | selfClosed element rest ih =>
    rw [Forest.write, append_assoc, tokensFrom_read (readToken?_opening ..),
      mem_bindingsFrom_start, if_pos rfl, ih, Forest.Offers, ← append_assoc before, or_assoc]
  | pair element inner rest ihInner ih =>
    simp only [Forest.write, append_assoc]
    rw [tokensFrom_read (readToken?_opening ..), mem_bindingsFrom_start, if_neg Bool.false_ne_true,
      ihInner, findSome?_handlers, tokensFrom_read (readToken?_closing ..), bindingsFrom_close, ih,
      Forest.Offers]
    simp only [append_assoc, or_assoc, Element.passes_iff, exists_eq_left]

theorem scan_write (file : String) (forest : Forest) :
    let found := scan file (.ofList forest.write)
    found.Pairwise (Binding.le · ·) ∧ found.Nodup ∧
      ∀ binding, binding ∈ found ↔ forest.Offers file [] none binding := by
  have linear : LinearTest Binding.le := .ofCmp Binding.cmp
  refine ⟨pairwise_sortDistinct linear _, nodup_sortDistinct linear _, fun binding => ?_⟩
  have walked := mem_bindingsFrom_write file forest [] [] [] binding
  rw [scan, mem_sortDistinct, tokens, String.toList_ofList]
  simpa [tokensFrom, bindingsFrom, breaks] using walked

def nestedForms : Forest :=
  .pair ⟨"form", [⟨"bindsubmit", some "b", by decide, by decide, by simp⟩,
      ⟨"bind:submit", some "a", by decide, by decide, by simp⟩], ⟨_, _, rfl, by decide⟩, by decide,
      by decide⟩
    (.text "\n" (by decide)
      (.pair ⟨"g-form", [], ⟨_, _, rfl, by decide⟩, by decide, by decide⟩
        (.selfClosed ⟨"input", [⟨"name", some "pin", by decide, by decide, by simp⟩,
          ⟨"password", none, by decide, by decide, by simp⟩], ⟨_, _, rfl, by decide⟩, by decide,
          by decide⟩ .nil)
        (.pair ⟨"form", [⟨"catchsubmit", some "c", by decide, by decide, by simp⟩],
            ⟨_, _, rfl, by decide⟩, by decide, by decide⟩
          (.selfClosed ⟨"input", [⟨"id", some "code", by decide, by decide, by simp⟩],
            ⟨_, _, rfl, by decide⟩, by decide, by decide⟩ .nil) .nil)))
    .nil

theorem scan_write_nestedForms : ∀ binding, nestedForms.Offers "a" [] none binding ↔
    binding ∈ [(⟨"a", "pin", 2, "input", "password", some "a"⟩ : Binding),
      ⟨"a", "code", 2, "input", "text", some "c"⟩] := by
  intro binding
  have found : bindingsFrom "a" [] (tokens (.ofList nestedForms.write)) =
      [⟨"a", "pin", 2, "input", "password", some "a"⟩,
        ⟨"a", "code", 2, "input", "text", some "c"⟩] := by
    decide +kernel
  rw [← (scan_write "a" nestedForms).2.2, scan, mem_sortDistinct, found]

end Seepage.Markup

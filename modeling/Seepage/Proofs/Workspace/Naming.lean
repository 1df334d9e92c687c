import Mathlib.Data.List.Nodup
import Mathlib.Order.Bounds.Basic
import Seepage.Workspace.UnitName

set_option autoImplicit false

namespace Seepage

open List

variable {text name : String} {piece : List Char} {later : List (List Char)} {isFirst : Bool}
  {start : Nat} {path root : Path} {taken : List String} {roots : List Path}

namespace Path

def IsName (text : String) : Prop :=
  '/' ∉ text.toList ∧ text.toList ≠ [] ∧ text.toList ≠ ['.'] ∧ text.toList ≠ ['.', '.']

theorem split_ne_nil (text : List Char) : split text ≠ [] := by
  cases text with
  | nil => simp [split]
  | cons c rest =>
    simp only [split]
    split
    · simp
    · split <;> simp

theorem split_of_notMem {text : List Char} (plain : '/' ∉ text) : split text = [text] := by
  induction text with
  | nil => rfl
  | cons c rest ih =>
    simp only [mem_cons, not_or] at plain
    simp only [split, if_neg (Ne.symm plain.1), ih plain.2]

theorem split_append_slash (text rest : List Char) :
    split (text ++ '/' :: rest) = split text ++ split rest := by
  induction text with
  | nil => simp [split]
  | cons c text ih =>
    by_cases slash : c = '/'
    · simp [split, slash, ih]
    · simp only [cons_append, split, if_neg slash, ih]
      cases pieces : split text with
      | nil => exact absurd pieces (split_ne_nil text)
      | cons piece pieces => rfl

theorem notMem_of_mem_split {text : List Char} (member : piece ∈ split text) : '/' ∉ piece := by
  induction text generalizing piece with
  | nil =>
    obtain rfl := mem_singleton.mp member
    exact not_mem_nil
  | cons c rest ih =>
    by_cases slash : c = '/'
    · simp only [split, if_pos slash, mem_cons] at member
      rcases member with rfl | member
      · exact not_mem_nil
      · exact ih member
    · simp only [split, if_neg slash] at member
      cases pieces : split rest with
      | nil => exact absurd pieces (split_ne_nil rest)
      | cons first others =>
        simp only [pieces, mem_cons] at member ih
        rcases member with rfl | member
        · simp only [mem_cons, not_or]
          exact ⟨Ne.symm slash, ih (.inl rfl)⟩
        · exact ih (.inr member)

theorem split_eq_cons {text : List Char}
    (cut : split text = piece :: later) : text = piece ∧ later = [] ∨
      ∃ rest, text = piece ++ '/' :: rest ∧ split rest = later := by
  induction text generalizing piece with
  | nil =>
    obtain ⟨rfl, rfl⟩ := cons.inj cut
    exact .inl ⟨rfl, rfl⟩
  | cons c rest ih =>
    by_cases slash : c = '/'
    · simp only [split, if_pos slash, cons.injEq] at cut
      obtain ⟨rfl, rfl⟩ := cut
      exact .inr ⟨rest, by rw [slash, nil_append], rfl⟩
    · cases pieces : split rest with
      | nil => exact absurd pieces (split_ne_nil rest)
      | cons first others =>
        simp only [split, if_neg slash, pieces, cons.injEq] at cut
        obtain ⟨rfl, rfl⟩ := cut
        rcases ih pieces with ⟨rfl, rfl⟩ | ⟨tail, rfl, same⟩
        · exact .inl ⟨rfl, rfl⟩
        · exact .inr ⟨tail, rfl, same⟩

inductive IsTrail : List Char → Prop where
  | done : IsTrail []
  | slash {rest : List Char} (later : IsTrail rest) : IsTrail ('/' :: rest)
  | dot {rest : List Char} (later : IsTrail rest) : IsTrail ('/' :: '.' :: rest)

theorem IsTrail.pieces {text : List Char} (trail : IsTrail text) :
    ∃ later, (∀ name, '/' ∉ name → split (name ++ text) = name :: later) ∧
      ∀ piece ∈ later, piece = [] ∨ piece = ['.'] := by
  induction trail with
  | done => exact ⟨[], fun name plain => by rw [append_nil, split_of_notMem plain], by simp⟩
  | @slash rest _ ih =>
    obtain ⟨later, same, all⟩ := ih
    have next : split rest = [] :: later := same [] not_mem_nil
    exact ⟨[] :: later, fun name plain => by
      rw [split_append_slash, split_of_notMem plain, next, singleton_append], by simpa using all⟩
  | @dot rest _ ih =>
    obtain ⟨later, same, all⟩ := ih
    have next : split ('.' :: rest) = ['.'] :: later := same ['.'] (by decide)
    exact ⟨['.'] :: later, fun name plain => by
      rw [split_append_slash, split_of_notMem plain, next, singleton_append], by simpa using all⟩

theorem isTrail_of_pieces (all : ∀ piece ∈ later, piece = [] ∨ piece = ['.']) {rest : List Char}
    (cut : split rest = later) : IsTrail ('/' :: rest) := by
  induction later generalizing rest with
  | nil => exact absurd cut (split_ne_nil rest)
  | cons piece later ih =>
    obtain ⟨here, there⟩ := forall_mem_cons.mp all
    have tail : ∃ tail, rest = piece ++ tail ∧ IsTrail tail := by
      rcases split_eq_cons cut with ⟨rfl, -⟩ | ⟨tail, rfl, same⟩
      · exact ⟨[], by simp, .done⟩
      · exact ⟨_, rfl, ih there same⟩
    obtain ⟨tail, rfl, trail⟩ := tail
    rcases here with rfl | rfl
    · exact .slash trail
    · exact .dot trail

theorem exists_of_split {text : List Char} {earlier : List (List Char)}
    (cut : split text = earlier ++ piece :: later)
    (all : ∀ piece ∈ later, piece = [] ∨ piece = ['.']) :
    ∃ directory trail, text = directory ++ piece ++ trail ∧
      (∀ last ∈ directory.getLast?, last = '/') ∧ IsTrail trail := by
  induction earlier generalizing text with
  | nil =>
    rcases split_eq_cons cut with ⟨rfl, -⟩ | ⟨rest, rfl, same⟩
    · exact ⟨[], [], by simp, by simp, .done⟩
    · exact ⟨[], _, rfl, by simp, isTrail_of_pieces all same⟩
  | cons first others ih =>
    rcases split_eq_cons cut with ⟨-, none⟩ | ⟨rest, rfl, same⟩
    · exact absurd none (by simp)
    · obtain ⟨directory, trail, rfl, ends, isTrail⟩ := ih same
      refine ⟨first ++ '/' :: directory, trail, by simp, fun last found => ?_, isTrail⟩
      cases inner : directory.getLast? with
      | none =>
        obtain rfl := getLast?_eq_none_iff.mp inner
        simpa [eq_comm] using found
      | some found' =>
        obtain rfl : found' = last := by simpa [getLast?_cons, inner] using found
        exact ends _ inner

theorem partOf?_of_isName (valid : IsName text) (isFirst : Bool) :
    partOf? isFirst text.toList = some (.name text) := by
  obtain ⟨-, full, dot, dots⟩ := valid
  simp [partOf?, full, dot, dots]

theorem partOf?_eq_some_name (plain : '/' ∉ piece)
    (named : partOf? isFirst piece = some (.name text)) : IsName text ∧ text.toList = piece := by
  unfold partOf? at named
  split_ifs at named with empty dot first dots
  · cases named
  · cases named
  · cases named
    exact ⟨by simpa [IsName] using ⟨plain, empty, dot, dots⟩, String.toList_ofList⟩

theorem partsFrom_eq_nil_iff {pieces : List (List Char)} :
    partsFrom false start pieces = [] ↔ ∀ piece ∈ pieces, piece = [] ∨ piece = ['.'] := by
  have dropped : ∀ piece, partOf? false piece = none ↔ piece = [] ∨ piece = ['.'] := by
    intro piece
    unfold partOf?
    split_ifs <;> simp_all
  induction pieces generalizing start with
  | nil => simp [partsFrom]
  | cons piece rest ih => simp [partsFrom, ih, dropped]

theorem getLast?_partsFrom {pieces : List (List Char)} (plain : ∀ piece ∈ pieces, '/' ∉ piece) :
    ((partsFrom isFirst start pieces).map (·.1)).getLast? = some (.name text) ↔
      IsName text ∧ ∃ earlier later, pieces = earlier ++ text.toList :: later ∧
        ∀ piece ∈ later, piece = [] ∨ piece = ['.'] := by
  induction pieces generalizing isFirst start with
  | nil => simp [partsFrom]
  | cons piece rest ih =>
    obtain ⟨here, there⟩ := forall_mem_cons.mp plain
    simp only [partsFrom, map_append, getLast?_append, Option.or_eq_some_iff]
    constructor
    · rintro (last | ⟨none, last⟩)
      · obtain ⟨valid, earlier, later, rfl, all⟩ := (ih there).mp last
        exact ⟨valid, piece :: earlier, later, rfl, all⟩
      · have dropped := partsFrom_eq_nil_iff.mp (map_eq_nil_iff.mp (getLast?_eq_none_iff.mp none))
        have named : partOf? isFirst piece = some (.name text) := by
          cases found : partOf? isFirst piece with
          | none => simp [found] at last
          | some part => simpa [found] using last
        obtain ⟨valid, rfl⟩ := partOf?_eq_some_name here named
        exact ⟨valid, [], rest, rfl, dropped⟩
    · rintro ⟨valid, earlier, later, same, all⟩
      cases earlier with
      | nil =>
        obtain ⟨rfl, rfl⟩ := cons.inj same
        simp [partsFrom_eq_nil_iff.mpr all, partOf?_of_isName valid]
      | cons first earlier =>
        obtain ⟨-, rfl⟩ := cons.inj same
        exact .inl ((ih there).mpr ⟨valid, earlier, later, rfl, all⟩)

theorem parts_eq (path : Path) : path.parts =
    (if path.isAbsolute then [.root] else []) ++ (partsFrom true 0 path.pieces).map (·.1) := by
  unfold parts located isAbsolute pieces
  split
  · rename_i absolute
    simp [absolute, split, partsFrom, partOf?]
  · rename_i relative
    cases text : path.text.toList with
    | nil => simp
    | cons c rest =>
      have other : c ≠ '/' := fun slash => relative rest (slash ▸ text)
      simp [other]

theorem fileName?_eq_some_iff :
    path.fileName? = some text ↔ path.parts.getLast? = some (.name text) := by
  unfold fileName?
  split
  · rename_i found
    simp [found]
  · rename_i other
    simpa using other text

def Ends (path : Path) (name : String) : Prop :=
  IsName name ∧ ∃ directory trail, path.text.toList = directory ++ name.toList ++ trail ∧
    (∀ last ∈ directory.getLast?, last = '/') ∧ IsTrail trail

theorem fileName?_iff_ends : path.fileName? = some text ↔ path.Ends text := by
  have plain : ∀ piece ∈ path.pieces, '/' ∉ piece := fun _ => notMem_of_mem_split
  have named : path.parts.getLast? = some (.name text) ↔
      ((partsFrom true 0 path.pieces).map (·.1)).getLast? = some (.name text) := by
    rw [parts_eq, getLast?_append]
    cases ((partsFrom true 0 path.pieces).map (·.1)).getLast? <;> simp
    split <;> simp
  rw [fileName?_eq_some_iff, named, getLast?_partsFrom plain]
  constructor
  · rintro ⟨valid, earlier, later, cut, all⟩
    exact ⟨valid, exists_of_split cut all⟩
  · rintro ⟨valid, directory, trail, place, ends, isTrail⟩
    refine ⟨valid, ?_⟩
    obtain ⟨later, behind, all⟩ := isTrail.pieces
    have last := behind text.toList valid.1
    rw [pieces, place, append_assoc]
    cases found : directory.getLast? with
    | none =>
      obtain rfl := getLast?_eq_none_iff.mp found
      exact ⟨[], later, last, all⟩
    | some last' =>
      obtain rfl := ends last' found
      obtain ⟨front, rfl⟩ := getLast?_eq_some_iff.mp found
      refine ⟨split front, later, ?_, all⟩
      rw [append_assoc, singleton_append, split_append_slash, last]

theorem plain_of_fileName? (named : path.fileName? = some text) : '/' ∉ text.toList :=
  (fileName?_iff_ends.mp named).1.1

theorem fileName?_child (valid : IsName name) (base : Path) :
    (base.child name).fileName? = some name := by
  have relative : ¬ (Path.mk name).isAbsolute := by
    intro absolute
    obtain ⟨rest, start⟩ : ∃ rest, name.toList = '/' :: rest := by
      simpa [isAbsolute, head?_eq_some_iff] using absolute
    exact valid.1 (start ▸ mem_cons_self)
  refine fileName?_iff_ends.mpr ⟨valid, ?_⟩
  unfold child join
  split_ifs with empty slash
  · exact ⟨[], [], by simp, by simp, .done⟩
  · have ends : base.text.toList.getLast? = some '/' := by simpa using slash
    exact ⟨base.text.toList, [], by simp, by simp [ends], .done⟩
  · exact ⟨base.text.toList ++ ['/'], [], by simp, by simp, .done⟩

theorem same_child_iff {a b : String} (first : IsName a) (second : IsName b) (base : Path) :
    (base.child a).same (base.child b) ↔ a = b := by
  constructor
  · intro same
    have parts : (base.child a).parts = (base.child b).parts := by simpa [Path.same] using same
    have name : (base.child a).fileName? = (base.child b).fileName? := by
      simp only [fileName?, parts]
    rw [fileName?_child first, fileName?_child second] at name
    exact Option.some.inj name
  · rintro rfl
    simp [Path.same]

end Path

namespace UnitName

theorem numbered_injective (base : String) : Function.Injective (numbered base) := by
  intro m n same
  have texts : toString m = toString n := (String.append_right_inj _).mp same
  have digits : Nat.toDigits 10 m = Nat.toDigits 10 n := by
    exact String.ofList_injective texts
  calc m = Nat.ofDigitChars 10 (Nat.toDigits 10 m) 0 := Nat.ofDigitChars_ten_toDigits.symm
    _ = n := by rw [digits, Nat.ofDigitChars_ten_toDigits]

theorem exists_firstFree (taken : List String) (base : String) (count number : Nat) :
    ∃ found, firstFree taken base count number = numbered base found ∧ number ≤ found ∧
      found ≤ number + count ∧ (found < number + count → numbered base found ∉ taken) ∧
      ∀ other, number ≤ other → other < found → numbered base other ∈ taken := by
  induction count generalizing number with
  | zero => exact ⟨number, rfl, Nat.le_refl _, Nat.le_refl _, by omega, by omega⟩
  | succ count ih =>
    simp only [firstFree, contains_iff_mem]
    split_ifs with clash
    · obtain ⟨found, same, lower, upper, free, passed⟩ := ih (number + 1)
      refine ⟨found, same, by omega, by omega, fun early => free (by omega), ?_⟩
      intro other behind below
      by_cases first : other = number
      · exact first ▸ clash
      · exact passed other (by omega) below
    · exact ⟨number, rfl, Nat.le_refl _, by omega, fun _ => clash, by omega⟩

theorem firstFree_notMem (taken : List String) (base : String) (number : Nat) :
    firstFree taken base taken.length number ∉ taken := by
  obtain ⟨found, same, lower, upper, free, passed⟩ :=
    exists_firstFree taken base taken.length number
  rw [same]
  intro clash
  let tried := (List.range' number (taken.length + 1)).map (numbered base)
  have distinct : tried.Nodup := (nodup_range' 1).map (numbered_injective base)
  have inside : tried ⊆ taken := by
    intro name member
    obtain ⟨other, range, rfl⟩ := mem_map.mp member
    have bounds := mem_range'_1.mp range
    obtain rfl | below : other = found ∨ other < found := by
      have last : ¬found < number + taken.length := fun early => free early clash
      omega
    · exact clash
    · exact passed other bounds.1 below
  have size := distinct.length_le_of_subset inside
  simp only [tried, length_map, length_range'] at size
  omega

theorem fresh_notMem (taken : List String) (base : String) : fresh taken base ∉ taken := by
  unfold fresh
  split_ifs with found
  · exact firstFree_notMem taken base 2
  · simpa using found

theorem notMem_of_mem_assignFrom (member : name ∈ assignFrom taken roots) : name ∉ taken := by
  induction roots generalizing taken with
  | nil => exact absurd member not_mem_nil
  | cons root rest ih =>
    rcases mem_cons.mp member with rfl | member
    · exact fresh_notMem taken (base root)
    · exact fun old => ih member (mem_cons_of_mem _ old)

theorem nodup_assignFrom (taken : List String) (roots : List Path) :
    (assignFrom taken roots).Nodup := by
  induction roots generalizing taken with
  | nil => exact nodup_nil
  | cons root rest ih =>
    refine nodup_cons.mpr ⟨fun again => ?_, ih _⟩
    exact notMem_of_mem_assignFrom again mem_cons_self

theorem nodup_assign (roots : List Path) : (assign roots).Nodup :=
  nodup_assignFrom [] roots

section

variable {base : String} (plain : '/' ∉ base.toList)

include plain

theorem plain_numbered (number : Nat) : '/' ∉ (numbered base number).toList := by
  have digits : '/' ∉ Nat.toDigits 10 number := by
    intro member
    have digit := Nat.isDigit_of_mem_toDigits (by decide) (by decide) member
    exact absurd digit (by decide)
  simp [numbered, plain, digits]

theorem plain_firstFree (taken : List String) (count number : Nat) :
    '/' ∉ (firstFree taken base count number).toList := by
  obtain ⟨found, same, -⟩ := exists_firstFree taken base count number
  exact same ▸ plain_numbered plain found

theorem plain_fresh (taken : List String) : '/' ∉ (fresh taken base).toList := by
  unfold fresh
  split_ifs
  · exact plain_firstFree plain taken _ 2
  · exact plain

end

theorem plain_base (plain : root.fileName? = none → '/' ∉ root.text.toList) :
    '/' ∉ (base root).toList := by
  cases named : root.fileName? with
  | none => simpa [base, named] using plain named
  | some name => simpa [base, named] using Path.plain_of_fileName? named

theorem plain_of_mem_assignFrom
    (plain : ∀ root ∈ roots, root.fileName? = none → '/' ∉ root.text.toList)
    (member : name ∈ assignFrom taken roots) : '/' ∉ name.toList := by
  induction roots generalizing taken with
  | nil => exact absurd member not_mem_nil
  | cons root rest ih =>
    rcases mem_cons.mp member with rfl | member
    · exact plain_fresh (plain_base (plain root mem_cons_self)) taken
    · exact ih (fun other inside => plain other (mem_cons_of_mem _ inside)) member

def IsNext (earlier : List String) (base name : String) : Prop :=
  if base ∈ earlier then
    ∃ number, IsLeast {number | 2 ≤ number ∧ numbered base number ∉ earlier} number ∧
      number ≤ earlier.length + 2 ∧ name = numbered base number
  else name = base

def IsBase (root : Path) (base : String) : Prop :=
  root.Ends base ∨ (∀ name, ¬root.Ends name) ∧ base = root.text

theorem isBase_base (root : Path) : IsBase root (base root) := by
  unfold IsBase base
  cases named : root.fileName? with
  | some name => exact .inl (Path.fileName?_iff_ends.mp named)
  | none =>
    refine .inr ⟨fun name ends => ?_, rfl⟩
    have found := Path.fileName?_iff_ends.mpr ends
    simp [named] at found

theorem isNext_fresh (taken : List String) (base : String) :
    IsNext taken base (fresh taken base) := by
  unfold IsNext fresh
  simp only [contains_iff_mem]
  split_ifs with clash
  · have free := firstFree_notMem taken base 2
    obtain ⟨found, same, lower, upper, -, passed⟩ := exists_firstFree taken base taken.length 2
    rw [same] at free ⊢
    refine ⟨found, ⟨⟨lower, free⟩, fun other known => ?_⟩, by omega, rfl⟩
    by_contra below
    exact known.2 (passed other known.1 (by omega))
  · rfl

theorem getElem?_assignFrom (taken : List String) {index : Nat}
    (found : roots[index]? = some root) : (assignFrom taken roots)[index]? =
      some (fresh (((assignFrom taken roots).take index).reverse ++ taken) (base root)) := by
  induction roots generalizing taken index with
  | nil => cases found
  | cons first rest ih =>
    cases index with
    | zero =>
      cases found
      rfl
    | succ index =>
      simpa [assignFrom] using ih (fresh taken (base first) :: taken) found

theorem length_assignFrom (taken : List String) (roots : List Path) :
    (assignFrom taken roots).length = roots.length := by
  induction roots generalizing taken with
  | nil => rfl
  | cons root rest ih => rw [assignFrom, length_cons, length_cons, ih]

theorem assign_isNext (roots : List Path) :
    (assign roots).length = roots.length ∧ (assign roots).Nodup ∧
      ∀ index root, roots[index]? = some root → IsBase root (base root) ∧
        ∃ name, (assign roots)[index]? = some name ∧
          IsNext ((assign roots).take index) (base root) name := by
  refine ⟨length_assignFrom [] roots, nodup_assign roots, fun index root found => ?_⟩
  refine ⟨isBase_base root, _, getElem?_assignFrom [] found, ?_⟩
  have next := isNext_fresh (((assignFrom [] roots).take index).reverse ++ []) (base root)
  simpa [IsNext, assign] using next

end UnitName

end Seepage

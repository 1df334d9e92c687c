import Seepage.Proofs.Tree.Ancestry
import Seepage.Proofs.Tree.Layout

set_option autoImplicit false

namespace Seepage

open List

variable {tree : Syntree} {name : String} {key : PropKey}

namespace Syntree

def segments? : Syntree → Option (List String)
  | .node node children =>
    match node.kind, children with
    | .ident name _, _ => some [name]
    | .this, _ => some ["this"]
    | .member (.named name), object :: _ => (segments? object).map (· ++ [name])
    | _, _ => none

def dotted (segments : List String) : List Char :=
  segments.flatMap fun segment => '.' :: segment.toList

theorem dotted_concat (segments : List String) (last : String) :
    dotted (segments ++ [last]) = dotted segments ++ '.' :: last.toList := by
  simp [dotted]

theorem dottedName?_eq (tree : Syntree) :
    (dottedName? tree).map ('.' :: ·.toList) = (segments? tree).map dotted := by
  induction tree using Rose.byChildren with
  | node node children ih =>
    unfold dottedName?
    split
    case h_3 object _ isMember =>
      have inner := ih object mem_cons_self
      unfold segments?
      simp only [isMember, Option.map_map]
      cases name : dottedName? object <;> cases path : segments? object <;>
        simp_all [dotted_concat, ← cons_append]
    all_goals
      unfold segments?
      simp [dotted, *]

end Syntree

theorem suffix_behind (front last : List Char) : last <:+ front ++ '.' :: last :=
  (suffix_cons _ _).trans (suffix_append _ _)

theorem suffix_iff_of_notMem {word front last : List Char} (plain : '.' ∉ word) :
    word <:+ front ++ '.' :: last ↔ word <:+ last := by
  refine ⟨fun ends => ?_, fun ends => ends.trans (suffix_behind front last)⟩
  rcases Nat.lt_or_ge last.length word.length with longer | shorter
  · have held := suffix_of_suffix_length_le (suffix_append front ('.' :: last)) ends longer
    exact absurd (held.subset mem_cons_self) plain
  · exact suffix_of_suffix_length_le ends (suffix_behind front last) shorter

theorem append_suffix_iff {front word before last : List Char} (plain : '.' ∉ word)
    (plain' : '.' ∉ last) :
    front ++ '.' :: word <:+ before ++ '.' :: last ↔ word = last ∧ front <:+ before := by
  constructor
  · rintro ⟨start, same⟩
    rw [← append_assoc] at same
    have ends := (suffix_iff_of_notMem plain).mp (same ▸ suffix_behind _ word)
    have ends' := (suffix_iff_of_notMem plain').mp (same ▸ suffix_behind _ last)
    obtain rfl := ends.eq_of_length_le ends'.length_le
    exact ⟨rfl, start, append_cancel_right same⟩
  · rintro ⟨rfl, start, rfl⟩
    exact ⟨start, by simp⟩

theorem ends_iff {last path : List String} : last <:+ path ↔ last.reverse <+: path.reverse :=
  reverse_prefix.symm

namespace Arena

theorem holdsMarkupValues_iff {text : String} {segments : List String}
    (spelled : '.' :: text.toList = Syntree.dotted segments)
    (plain : ∀ segment ∈ segments, '.' ∉ segment.toList) :
    holdsMarkupValues text ↔ ["data"] <:+ segments ∨
      ∃ own, "detail".toList <:+ own.toList ∧ [own, "value"] <:+ segments := by
  have byText : holdsMarkupValues text ↔ [] ++ '.' :: "data".toList <:+ '.' :: text.toList ∨
      "detail".toList ++ '.' :: "value".toList <:+ '.' :: text.toList := by
    rw [suffix_cons_iff, suffix_cons_iff, holdsMarkupValues, hasSuffix, hasSuffix]
    simp only [Bool.or_eq_true, isSuffixOf_iff_suffix, beq_iff_eq, ← String.toList_inj]
    simp only [String.reduceToList, nil_append, cons_append, cons.injEq, Char.reduceEq, false_and,
      false_or, true_and, @eq_comm _ text.toList]
    tauto
  rw [byText, spelled]
  rcases eq_nil_or_concat' segments with rfl | ⟨init, last, rfl⟩
  · cases spelled
  · have known := plain last (by simp)
    rw [Syntree.dotted_concat, append_suffix_iff (by decide) known,
      append_suffix_iff (by decide) known]
    simp only [String.toList_inj, ends_iff, reverse_append, reverse_cons]
    rcases eq_nil_or_concat' init with rfl | ⟨before, own, rfl⟩
    · simp [Syntree.dotted]
    · rw [Syntree.dotted_concat, @suffix_iff_of_notMem "detail".toList _ _ (by decide)]
      simp [and_comm]

variable {arena : Arena}

theorem mem_bindingTargets (well : arena.WellNumbered) (inside : tree ∈ arena.tree.subtrees) :
    tree.label.id ∈ arena.bindingTargets name ↔ arena.isBindingTarget name tree.label := by
  simp only [bindingTargets, nodes, well.stored, mem_map, mem_filter]
  constructor
  · rintro ⟨_, ⟨⟨other, within, rfl⟩, isTarget⟩, same⟩
    rwa [well.eq_of_id inside (by simpa using within) same.symm]
  · exact fun isTarget => ⟨_, ⟨⟨tree, by simpa using inside, rfl⟩, isTarget⟩, rfl⟩

theorem value_of_property (well : arena.WellNumbered) (laid : arena.LaidOut) {child : Syntree}
    (inside : tree ∈ arena.tree.subtrees) (below : child ∈ tree.children)
    (isProperty : tree.label.kind = .property key) {role : Role}
    (isName : child.label.kind = .ident name role) :
    role.reads ∨ arena.propertyValue? tree.label.id = some child.label.id := by
  obtain ⟨position, found⟩ := getElem?_of_mem below
  obtain ⟨seat, seated⟩ := laid.seated.subtree inside
  have few := (Kind.counts_iff.mp seated.counts).2
  have admitted := (seated.child found).admits
  have bound := (List.getElem?_eq_some_iff.mp found).1
  have here : arena.child? tree.label.id position = some child.label.id := by
    simp [child?, well.children_eq inside, found]
  rw [propertyValue?, well.kind_eq inside]
  simp only [isProperty, isName] at few admitted ⊢
  cases key with
  | named =>
    have most := few 1 rfl
    obtain rfl : position = 0 := by omega
    exact .inr here
  | computed =>
    have most := few 2 rfl
    rcases (by omega : position = 0 ∨ position = 1) with rfl | rfl
    · cases role <;> first | exact .inl rfl | cases admitted
    · exact .inr here

theorem property_of_propertyValue? {id value : Nat} (found : arena.propertyValue? id = some value) :
    value ∈ arena.children id ∧ (arena.propertyKey? id).isSome := by
  unfold propertyValue? at found
  split at found
  case h_1 | h_2 => exact ⟨mem_of_getElem? found, by simp [propertyKey?, *]⟩
  case h_3 => cases found

def IsDelivered (name : String) (segments : List String) : Prop :=
  ["data", name] <:+ segments ∨
    ∃ own, "detail".toList <:+ own.toList ∧ [own, "value", name] <:+ segments

theorem isBindingTarget_member (well : arena.WellNumbered) {node : Node} {children : List Syntree}
    (inside : .node node children ∈ arena.tree.subtrees) (isMember : node.kind = .member key)
    (plain : ∀ segments, Syntree.segments? (.node node children) = some segments →
      ∀ segment ∈ segments, '.' ∉ segment.toList) (name : String) :
    arena.isBindingTarget name node ↔ ∃ segments,
      Syntree.segments? (.node node children) = some segments ∧ IsDelivered name segments := by
  rw [isBindingTarget, isMember, (well.numbered.subtree inside).2.2.1]
  unfold Syntree.segments? at plain ⊢
  rw [isMember] at plain ⊢
  cases key with
  | computed => simp
  | named found =>
    cases children with
    | nil => simp
    | cons object rest =>
      have spelled := Syntree.dottedName?_eq object
      simp only [map_cons, head?_cons, Option.bind_some, dottedName?,
        well.subtree_eq (Rose.child_inside mem_cons_self inside)] at plain ⊢
      cases text : Syntree.dottedName? object <;> cases path : Syntree.segments? object <;>
        simp only [text, path, Option.map_none, Option.map_some, reduceCtorEq] at spelled plain ⊢
      · simp
      · have holds := holdsMarkupValues_iff (Option.some.inj spelled) fun segment member =>
          plain _ rfl segment (mem_append_left _ member)
        simp only [Option.some.injEq, exists_eq_left', IsDelivered, ends_iff,
          reverse_append, reverse_cons] at holds ⊢
        simp [holds, and_or_left, and_left_comm, @eq_comm _ found]

theorem mem_bindingTargets_iff {file : Script.File} (read : ofFile file = .ok arena) (id : Nat)
    (name : String) :
    (∀ own role, arena.kind id = .ident own role → (id ∈ arena.bindingTargets name ↔
      own = name ∧ (role.reads ∨ ∃ property, arena.propertyValue? property = some id))) ∧
    (∀ key, arena.kind id = .member key →
      (∀ segments, Syntree.segments? (arena.subtree id) = some segments →
        ∀ segment ∈ segments, '.' ∉ segment.toList) →
      (id ∈ arena.bindingTargets name ↔ ∃ segments,
        Syntree.segments? (arena.subtree id) = some segments ∧ IsDelivered name segments)) := by
  obtain ⟨well, laid⟩ := shaped_ofFile read
  constructor
  · intro own role isName
    obtain ⟨tree, inside, rfl⟩ := well.exists_subtree (@lt_size_of_kind _ id (by simp [isName]))
    rw [well.kind_eq inside] at isName
    rw [mem_bindingTargets well inside, isBindingTarget, isName]
    simp only [Bool.and_eq_true, beq_iff_eq, Bool.or_eq_true, Option.any_eq_true]
    refine and_congr_right fun _ => ⟨?_, Or.imp_right ?_⟩
    · rintro (reads | ⟨above, parent, isProperty⟩)
      · exact .inl reads
      · obtain ⟨key, given⟩ := Option.isSome_iff_exists.mp isProperty
        have under : arena.parent? tree.label.id = some above := by
          rw [parent?, well.ancestors_eq inside, parent]
        obtain ⟨top, within, rfl, child, below, same⟩ := well.exists_of_parent? under
        obtain rfl := well.eq_of_id (Rose.child_inside below within) inside same
        rw [propertyKey?, well.kind_eq within] at given
        split at given
        · exact (value_of_property well laid within below ‹_› isName).imp_right (⟨_, ·⟩)
        · cases given
    · rintro ⟨property, value⟩
      obtain ⟨below, isProperty⟩ := property_of_propertyValue? value
      have parent := well.parent_of_mem_children below
      rw [parent?, well.ancestors_eq inside] at parent
      exact ⟨property, parent, isProperty⟩
  · intro key isMember plain
    obtain ⟨tree, inside, rfl⟩ := well.exists_subtree (@lt_size_of_kind _ id (by simp [isMember]))
    rw [well.kind_eq inside] at isMember
    rw [well.subtree_eq inside] at plain ⊢
    rw [mem_bindingTargets well inside]
    cases tree
    exact isBindingTarget_member well inside isMember plain name

-- `mydetail.value.x;`
def foreignDetail : Script.File := .sample [
  .expr (.member (.member (.ident "mydetail") (.named "value") false {}) (.named "x") false {}) {}]

theorem mem_bindingTargets_iff_foreignDetail : ∃ arena, ofFile foreignDetail = .ok arena ∧
    4 ∈ arena.bindingTargets "x" ∧ IsDelivered "x" ["mydetail", "value", "x"] := by
  have read : ofFile foreignDetail = .ok _ := rfl
  have delivered : IsDelivered "x" ["mydetail", "value", "x"] :=
    .inr ⟨"mydetail", by decide, suffix_refl _⟩
  refine ⟨_, read, ((mem_bindingTargets_iff read 4 "x").2 _ rfl ?_).mpr ⟨_, rfl, delivered⟩,
    delivered⟩
  rintro _ ⟨⟩
  decide

theorem foreignDetail_delivers : ∃ arena, ofFile foreignDetail = .ok arena ∧
    4 ∈ arena.bindingTargets "x" ∧
    Syntree.segments? (arena.subtree 4) = some ["mydetail", "value", "x"] ∧
    ¬["detail", "value", "x"] <:+ ["mydetail", "value", "x"] ∧
    ¬["data", "x"] <:+ ["mydetail", "value", "x"] :=
  ⟨_, rfl, by decide, rfl, by decide, by decide⟩

end Arena

end Seepage

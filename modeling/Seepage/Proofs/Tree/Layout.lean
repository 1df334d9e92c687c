import Seepage.Proofs.Tree.Seats

set_option autoImplicit false

namespace Seepage

open List

namespace Kind

def startsOwner : List Kind → Bool
  | .entry :: .exit :: _ => true
  | _ => false

def fits (kind : Kind) (parts : List Kind) : Bool :=
  match kind with
  | .program => startsOwner parts
  | .function _ _ paramCount exprBody =>
    startsOwner parts && 2 + paramCount + exprBody.toNat ≤ parts.length &&
      parts.length ≤ 3 + paramCount &&
      (parts.drop (2 + paramCount)).all fun part => part.isBlock || !part.isControl
  | .classDef _ _ hasParent =>
    hasParent.toNat ≤ parts.length && (parts.drop hasParent.toNat).all isProperty
  | .varDecl _ => parts.all isDeclarator
  | .importDecl _ => parts.all isIdent
  | .object => parts.all fun part => part.isProperty || part.isSpread
  | .objectPattern => parts.all fun part => part.isProperty || part.isRest
  | .tryStmt hasHandler hasFinalizer =>
    parts.length == 1 + hasHandler.toNat + hasFinalizer.toNat && (parts.take 1).all isBlock &&
      ((parts.drop 1).take hasHandler.toNat).all isCatch &&
      (parts.drop (1 + hasHandler.toNat)).all isBlock
  | .catchClause hasParam =>
    parts.length == hasParam.toNat + 1 && (parts.drop hasParam.toNat).all isBlock
  | .switchStmt => !parts.isEmpty && (parts.drop 1).all isCase
  | .switchCase isDefault => isDefault || !parts.isEmpty
  | .declarator hasInit => parts.length == 1 + hasInit.toNat
  | .ifStmt hasAlternate => parts.length == 2 + hasAlternate.toNat
  | .forStmt hasInit hasTest hasUpdate =>
    parts.length == hasInit.toNat + hasTest.toNat + hasUpdate.toNat + 1 &&
      parts.dropLast.all fun part => !part.isControl
  | .returnStmt hasArgument | .yield hasArgument => parts.length == hasArgument.toNat
  | .property (.named _) => parts.length ≤ 1
  | .property .computed => 1 ≤ parts.length && parts.length ≤ 2
  | .member (.named _) => parts.length == 1
  | .member .computed => parts.length == 2
  | .call | .new | .tagged => !parts.isEmpty
  | .forIn | .forOf | .conditional => parts.length == 3
  | .whileStmt | .doWhile | .withStmt | .assign _ | .binary _ | .assignPattern => parts.length == 2
  | .exportDefault | .exprStmt | .throwStmt | .labeled _ | .spread | .unary _ | .update .. | .await
  | .rest => parts.length == 1
  | .block | .array | .sequence | .template | .arrayPattern => true
  | .entry | .exit | .breakStmt _ | .continueStmt _ | .empty | .ident .. | .literal _ | .this
  | .unknown _ => parts.isEmpty

theorem all_drop {parts : List Kind} {holds : Kind → Bool} {start : Nat}
    (each : ∀ position part, start ≤ position → parts[position]? = some part → holds part) :
    (parts.drop start).all holds := by
  rw [all_eq_true]
  intro part member
  obtain ⟨position, found⟩ := getElem?_of_mem member
  rw [getElem?_drop] at found
  exact each _ part (Nat.le_add_right _ _) found

theorem all_slice {parts : List Kind} {holds : Kind → Bool} {start count : Nat}
    (each : ∀ position part, start ≤ position → position < start + count →
      parts[position]? = some part → holds part) : ((parts.drop start).take count).all holds := by
  rw [all_eq_true]
  intro part member
  obtain ⟨position, found⟩ := getElem?_of_mem member
  rw [getElem?_take] at found
  split at found
  case isTrue early =>
    rw [getElem?_drop] at found
    exact each _ part (Nat.le_add_right _ _) (by omega) found
  case isFalse => cases found

theorem isControl_of_isValue {kind : Kind} (isValue : kind.isValue) : kind.isControl = false := by
  cases kind <;> first | rfl | cases isValue

end Kind

section

variable {kind : Kind} {outer : Seat} {parts : List Kind}
  (counted : kind.counts parts.length)
  (seats : ∀ position part, parts[position]? = some part → (kind.seat outer position).admits part)

include counted seats

theorem Kind.startsOwner_of_seats (owns : kind.isOwner) : startsOwner parts := by
  have sits : ∀ position part, position < 2 → parts[position]? = some part →
      (Seat.marker position).admits part := by
    intro position part early found
    have seated := seats position part found
    cases kind <;> first | cases owns; done | simpa only [Kind.seat, if_pos early] using seated
  have two : 2 ≤ parts.length := by
    refine Nat.le_trans ?_ (counts_iff.mp counted).1
    cases kind <;> first | (cases owns; done) | (simp only [leading]; omega)
  obtain ⟨first, second, rest, rfl⟩ : ∃ first second rest, parts = first :: second :: rest := by
    rcases parts with _ | ⟨first, _ | ⟨second, rest⟩⟩
    · simp at two
    · simp at two
    · exact ⟨first, second, rest, rfl⟩
  have isEntry : first = .entry := by simpa [Seat.admits_marker] using sits 0 first (by decide) rfl
  have isExit : second = .exit := by simpa [Seat.admits_marker] using sits 1 second (by decide) rfl
  rw [isEntry, isExit]
  rfl

theorem Kind.fits_of_seats : kind.fits parts := by
  have each {holds : Kind → Bool} {seat : Seat} {start : Nat}
      (same : ∀ position, start ≤ position → kind.seat outer position = seat)
      (admits : ∀ part, seat.admits part → holds part) : (parts.drop start).all holds :=
    all_drop fun position part late found =>
      admits part (same position late ▸ seats position part found)
  obtain ⟨least, most⟩ := counts_iff.mp counted
  cases kind with
  | program => exact startsOwner_of_seats counted seats rfl
  | function name form paramCount exprBody =>
    simp only [fits, Bool.and_eq_true, decide_eq_true_eq]
    refine ⟨⟨⟨startsOwner_of_seats counted seats rfl, least⟩, most _ rfl⟩,
      @each _ .body _ (fun position late => ?_) fun part sits => ?_⟩
    · rw [Kind.seat, if_neg (by omega), if_neg (by omega)]
    · exact Bool.or_eq_true_iff.mpr ((Bool.or_eq_true_iff.mp sits).imp id fun isValue => by
        simp [isControl_of_isValue isValue])
  | classDef name isDecl hasParent =>
    simp only [fits, Bool.and_eq_true, decide_eq_true_eq]
    exact ⟨least, @each _ .field _ (fun position late => if_neg (Nat.not_lt_of_le late)) fun _ => id⟩
  | varDecl kind => exact @each _ (.declarator (.ofVar kind)) 0 (fun _ _ => rfl) fun _ => id
  | object => exact @each _ .property 0 (fun _ _ => rfl) fun _ => id
  | importDecl source =>
    refine @each _ .imported 0 (fun _ _ => rfl) fun part sits => ?_
    cases part <;> first | rfl | cases sits
  | objectPattern =>
    refine @each _ outer.inner 0 (fun _ _ => rfl) fun part sits => ?_
    revert sits
    cases outer <;> exact id
  | tryStmt hasHandler hasFinalizer =>
    simp only [fits, Bool.and_eq_true, beq_iff_eq]
    refine ⟨⟨⟨Nat.le_antisymm (most _ rfl) least,
      @all_slice parts _ 0 1 fun position part _ early found => ?_⟩,
      all_slice fun position part late early found => ?_⟩,
      @each _ .finalizer _ (fun position late => ?_) fun _ => id⟩
    · have sits := seats position part found
      rwa [Kind.seat, if_pos (by omega)] at sits
    · have sits := seats position part found
      cases hasHandler with
      | false => exact absurd late (Nat.not_le_of_lt early)
      | true =>
        have second : position = 1 := by simp at early; omega
        rwa [Kind.seat, if_neg (by omega), if_pos ⟨second, rfl⟩] at sits
    · cases hasHandler with
      | false => rw [Kind.seat, if_neg (by omega), if_neg (by simp)]
      | true => rw [Kind.seat, if_neg (by omega), if_neg (by simp at late; omega)]
  | catchClause hasParam =>
    simp only [fits, Bool.and_eq_true, beq_iff_eq]
    exact ⟨Nat.le_antisymm (most _ rfl) least,
      @each _ .guarded _ (fun position late => if_neg (Nat.not_lt_of_le late)) fun _ => id⟩
  | switchStmt =>
    simp only [fits, Bool.and_eq_true, Bool.not_eq_true', isEmpty_eq_false_iff]
    exact ⟨length_pos_iff.mp least,
      @each _ .case _ (fun position late => if_neg (Nat.ne_of_gt late)) fun _ => id⟩
  | forStmt hasInit hasTest hasUpdate =>
    simp only [fits, Bool.and_eq_true, beq_iff_eq]
    have total := Nat.le_antisymm (most _ rfl) least
    refine ⟨total, ?_⟩
    rw [dropLast_eq_take]
    refine @all_slice parts _ 0 _ fun position part _ early found => ?_
    simp only [leading] at total
    have sits := seats position part found
    rw [Kind.seat] at sits
    split at sits
    · cases part <;> first | rfl | cases sits
    · rw [if_pos (by omega)] at sits
      simp [isControl_of_isValue sits]
  | switchCase isDefault =>
    cases isDefault with
    | true => rfl
    | false => simpa [fits] using length_pos_iff.mp least
  | call | new | tagged => simpa [fits] using length_pos_iff.mp least
  | property key | member key =>
    cases key <;> have most := most _ rfl <;> simp only [leading, fits, beq_iff_eq,
      Bool.and_eq_true, decide_eq_true_eq] at * <;> omega
  | block | array | sequence | template | arrayPattern => rfl
  | _ =>
    have most := most _ rfl
    simp only [fits, leading, beq_iff_eq, isEmpty_iff_length_eq_zero] at least most ⊢
    omega

end

namespace Syntree

def Fits (tree : Syntree) : Prop :=
  tree.label.kind.fits (tree.children.map (·.label.kind)) = true

instance (tree : Syntree) : Decidable tree.Fits :=
  inferInstanceAs (Decidable (_ = true))

theorem fits_of_seated {seat : Seat} {tree : Syntree} (seated : Seated seat tree) : tree.Fits := by
  refine @Kind.fits_of_seats _ seat _ (by simpa using seated.counts) fun position part found => ?_
  rw [getElem?_map, Option.map_eq_some_iff] at found
  obtain ⟨child, found, rfl⟩ := found
  exact (seated.child found).admits

end Syntree

structure Arena.LaidOut (arena : Arena) : Prop where
  seated : Syntree.Seated .top arena.tree

namespace Arena.LaidOut

variable {arena : Arena} (laid : arena.LaidOut)

include laid

theorem fits (tree : Syntree) (inside : tree ∈ arena.tree.subtrees) : tree.Fits := by
  obtain ⟨seat, seated⟩ := laid.seated.subtree inside
  exact Syntree.fits_of_seated seated

theorem program : arena.tree.label.kind = .program :=
  eq_of_beq laid.seated.admits

theorem layout {node : Node} {children : List Syntree}
    (inside : .node node children ∈ arena.tree.subtrees) :
    node.kind.fits (children.map (·.label.kind)) = true :=
  laid.fits _ inside

theorem exists_ends {tree : Syntree} (inside : tree ∈ arena.tree.subtrees)
    (owns : tree.label.kind.isOwner) :
    ∃ entry exit rest, tree.children = entry :: exit :: rest ∧
      entry.label.kind = .entry ∧ exit.label.kind = .exit := by
  obtain ⟨node, children⟩ := tree
  have layout := laid.layout inside
  have starts : Kind.startsOwner (children.map (·.label.kind)) := by
    simp only [Rose.label] at owns
    cases isKind : node.kind <;> simp_all [Kind.isOwner, Kind.fits]
  unfold Kind.startsOwner at starts
  split at starts
  case h_1 kinds =>
    obtain ⟨entry, others, rfl, isEntry, behind⟩ := map_eq_cons_iff.mp kinds
    obtain ⟨exit, rest, rfl, isExit, -⟩ := map_eq_cons_iff.mp behind
    exact ⟨entry, exit, rest, rfl, isEntry, isExit⟩
  case h_2 => cases starts

end Arena.LaidOut

section

variable {file : Script.File} {arena : Arena} (read : Arena.ofFile file = .ok arena)

include read

theorem Arena.laidOut_ofFile : arena.LaidOut := by
  obtain ⟨program, -, rfl⟩ := ofFile_eq_ok read
  exact ⟨Syntree.seated_number _ _ _ _ (seated_lowerProgram program)⟩

theorem Arena.shaped_ofFile : arena.WellNumbered ∧ arena.LaidOut :=
  ⟨wellNumbered_ofFile read, laidOut_ofFile read⟩

end

end Seepage

import Seepage.Proofs.Flow.Statements
import Seepage.Proofs.Tree.Ancestry

set_option autoImplicit false

namespace Seepage

open List

variable {kind : Kind} {start id position : Nat} {trees cases stmts : List Syntree} {seat : Seat}
  {tree child block : Syntree}

namespace Kind

def isPlain : Kind → Bool
  | .block | .labeled _ => false
  | _ => true

def stands (kind : Kind) (position : Nat) (part : Kind) : Bool :=
  match kind.seat .top position, kind with
  | .statement, _ => part.isPlain
  | .case, _ | .handler, _ | .finalizer, _ => true
  | .body, _ => !part.isBlock
  | .head, .forStmt .. => true
  | .value, .forStmt hasInit hasTest true => position == hasInit.toNat + hasTest.toNat
  | _, _ => false

end Kind

def Arena.stands (arena : Arena) (id : Nat) : Bool :=
  (arena.parent? id).any fun parent =>
    (arena.kind parent).stands ((arena.children parent).idxOf id) (arena.kind id)

mutual

def places (here : Bool) : Syntree → List Nat
  | .node node children =>
    (if here then [node.id] else []) ++
      if node.kind.isOwner then [] else placesFrom node.kind 0 children

def placesFrom (kind : Kind) (position : Nat) : List Syntree → List Nat
  | [] => []
  | child :: rest =>
    places (kind.stands position child.label.kind) child ++ placesFrom kind (position + 1) rest

end

theorem mem_placesFrom :
    id ∈ placesFrom kind start trees ↔ ∃ position child, trees[position]? = some child ∧
      id ∈ places (kind.stands (start + position) child.label.kind) child := by
  induction trees generalizing start with
  | nil => simp [placesFrom]
  | cons tree rest ih =>
    rw [placesFrom, mem_append, ih]
    constructor
    · rintro (here | ⟨position, child, found, there⟩)
      · exact ⟨0, tree, rfl, here⟩
      · exact ⟨position + 1, child, found, by rwa [Nat.add_right_comm] at there⟩
    · rintro ⟨position, child, found, there⟩
      cases position with
      | zero => cases found; exact .inl there
      | succ position => exact .inr ⟨position, child, found, by rwa [Nat.add_right_comm]⟩

theorem placesFrom_drop (count : Nat)
    (silent : ∀ position < count, ∀ child, trees[position]? = some child →
      places (kind.stands (start + position) child.label.kind) child = []) :
    placesFrom kind start trees = placesFrom kind (start + count) (trees.drop count) := by
  induction count generalizing start trees with
  | zero => rfl
  | succ count ih =>
    cases trees with
    | nil => simp [placesFrom]
    | cons tree rest =>
      have first := silent 0 (Nat.zero_lt_succ count) tree rfl
      rw [Nat.add_zero] at first
      rw [placesFrom, first, ih, Nat.add_right_comm]
      · rfl
      · intro position bound child found
        rw [Nat.add_assoc, Nat.add_comm 1]
        exact silent (position + 1) (Nat.succ_lt_succ bound) child found

namespace Arena.WellNumbered

variable {arena : Arena} (well : arena.WellNumbered) {tree child : Syntree}
  (inside : tree ∈ arena.tree.subtrees) {id : Nat}

include well inside

theorem stands_child (found : tree.children[position]? = some child) :
    arena.stands child.label.id = tree.label.kind.stands position child.label.kind := by
  have below := mem_of_getElem? found
  rw [stands, well.parent_child inside below, Option.any_some, well.idxOf_child inside found,
    well.kind_eq inside, well.kind_eq (Rose.child_inside below inside)]

theorem mem_placesFrom_children : id ∈ placesFrom tree.label.kind 0 tree.children ↔
    ∃ child ∈ tree.children, id ∈ places (arena.stands child.label.id) child := by
  rw [mem_placesFrom]
  constructor
  · rintro ⟨position, child, found, there⟩
    rw [Nat.zero_add, ← well.stands_child inside found] at there
    exact ⟨child, mem_of_getElem? found, there⟩
  · rintro ⟨child, below, there⟩
    obtain ⟨position, found⟩ := getElem?_of_mem below
    rw [well.stands_child inside found] at there
    exact ⟨position, child, found, by rwa [Nat.zero_add]⟩

theorem mem_places (nested : arena.owner tree.label.id < tree.label.id) :
    id ∈ places (arena.stands tree.label.id) tree ↔
      tree.Holds id ∧ arena.owner id = arena.owner tree.label.id ∧ arena.stands id := by
  induction tree using Rose.byChildren with
  | node node children ih =>
    rw [Rose.holds_node]
    have root : id ∈ (if arena.stands node.id then [node.id] else []) ↔
        id = node.id ∧ arena.stands id := by
      cases stands : arena.stands node.id <;> simp +contextual [stands]
    rw [places, mem_append, Rose.label, root]
    cases owns : node.kind.isOwner with
    | true =>
      simp only [if_true, not_mem_nil, or_false]
      constructor
      · rintro ⟨rfl, stands⟩
        exact ⟨.inl rfl, rfl, stands⟩
      · rintro ⟨holds, owned, stands⟩
        obtain rfl | same | inner := well.owner_of_holds inside (Rose.holds_node.mpr holds)
        · exact ⟨rfl, stands⟩
        · simp only [Rose.label, owns, if_true] at same nested
          omega
        · simp only [Rose.label] at inner nested
          omega
    | false =>
      have owner (child : Syntree) (below : child ∈ children) :
          arena.owner child.label.id = arena.owner node.id := by
        rw [well.owner_child inside below]
        exact if_neg (by rw [Rose.label, owns]; decide)
      have deeper (child : Syntree) (below : child ∈ (Rose.node node children).children) :=
        ih child below (Rose.child_inside below inside) (well.owner_lt_child inside below)
      have parts := @Arena.WellNumbered.mem_placesFrom_children _ well _ inside id
      simp only [Rose.label, Rose.children] at parts
      simp only [Bool.false_eq_true, if_false, parts]
      constructor
      · rintro (⟨rfl, stands⟩ | ⟨child, below, there⟩)
        · exact ⟨.inl rfl, rfl, stands⟩
        · obtain ⟨holds, owned, stands⟩ := (deeper child below).mp there
          exact ⟨.inr ⟨child, below, holds⟩, owned.trans (owner child below), stands⟩
      · rintro ⟨rfl | ⟨child, below, holds⟩, owned, stands⟩
        · exact .inl ⟨rfl, stands⟩
        · exact .inr ⟨child, below, (deeper child below).mpr
            ⟨holds, owned.trans (owner child below).symm, stands⟩⟩

end Arena.WellNumbered

def Seat.isQuiet : Seat → Bool
  | .marker _ | .head | .declarator _ | .binding _ | .imported | .property | .field | .member _
  | .value | .key | .updated | .param => true
  | _ => false

theorem Seat.isQuiet_target (seat : Seat) : seat.target.isQuiet := by
  unfold target
  split <;> rfl

theorem Seat.isQuiet_inner (seat : Seat) : seat.inner.isQuiet := by
  cases seat <;> rfl

namespace Kind

def hasPlaces : Kind → Bool
  | .program | .function .. | .block | .ifStmt _ | .forStmt .. | .forIn | .forOf | .whileStmt
  | .doWhile | .labeled _ | .tryStmt .. | .catchClause _ | .switchStmt | .switchCase _
  | .withStmt => true
  | _ => false

theorem hasPlaces_of_isQuiet {kind : Kind} {seat : Seat} (quiet : seat.isQuiet)
    (admitted : seat.admits kind) (plain : kind.isOwner = false) : kind.hasPlaces = false := by
  have isValue (value : kind.isValue) : kind.hasPlaces = false := by
    cases kind <;> first | rfl | cases plain; done | simp [Kind.isValue, isControl] at value
  unfold Seat.admits at admitted
  split at admitted
  all_goals first | cases quiet; done | exact isValue admitted | rfl | skip
  all_goals cases kind <;> first | rfl | cases admitted

variable {kind : Kind} (inert : kind.hasPlaces = false)

include inert

theorem isQuiet_seat (outer : Seat) (position : Nat) : (kind.seat outer position).isQuiet := by
  unfold seat
  split
  all_goals first | cases inert; done | rfl | exact outer.isQuiet_target | exact outer.isQuiet_inner | skip
  all_goals split <;> first | rfl | exact outer.isQuiet_target

theorem stands_eq_false (position : Nat) (part : Kind) : kind.stands position part = false := by
  have quiet := isQuiet_seat inert .top position
  unfold stands
  split <;> simp_all [Seat.isQuiet, hasPlaces]

end Kind

theorem places_still (seated : Syntree.Seated seat tree)
    (still : tree.label.kind.isOwner = false → tree.label.kind.hasPlaces = false) (here : Bool) :
    places here tree = if here then [tree.label.id] else [] := by
  induction tree using Rose.byChildren generalizing seat here with
  | node node children ih =>
    rw [places]
    cases owns : node.kind.isOwner with
    | true => simp [Rose.label]
    | false =>
      have inert : node.kind.hasPlaces = false := still owns
      have silent : placesFrom node.kind 0 children = [] := by
        rw [eq_nil_iff_forall_not_mem]
        intro id member
        obtain ⟨position, child, found, there⟩ := mem_placesFrom.mp member
        have part := seated.child found
        have quiet := Kind.isQuiet_seat inert seat position
        rw [ih child (mem_of_getElem? found) part
          (Kind.hasPlaces_of_isQuiet quiet part.admits), Kind.stands_eq_false inert] at there
        cases there
      simp [Rose.label, silent]

theorem Seat.top_of_loud {outer : Seat} (loud : seat.isQuiet = false)
    (place : kind.seat outer position = seat) : kind.seat .top position = seat := by
  obtain passes | members | ⟨own, same⟩ := kind.seat_cases position
  · rw [← place, passes, outer.isQuiet_target] at loud
    cases loud
  · rw [← place, members, outer.isQuiet_inner] at loud
    cases loud
  · rw [same, ← place, same]

namespace Kind

variable {hasInit hasTest hasUpdate : Bool} {position : Nat}
  (front : position < hasInit.toNat + hasTest.toNat + hasUpdate.toNat)

include front

theorem seat_forStmt (outer : Seat) : (forStmt hasInit hasTest hasUpdate).seat outer position =
    if position < hasInit.toNat then .head else .value := by
  simp only [seat, front, if_true]

theorem stands_forStmt (part : Kind) :
    (forStmt hasInit hasTest hasUpdate).stands position part ↔
      position < hasInit.toNat ∨ hasUpdate ∧ position = hasInit.toNat + hasTest.toNat := by
  unfold stands
  rw [seat_forStmt front]
  by_cases first : position < hasInit.toNat
  · simp [first]
  · cases hasUpdate <;> simp [first]

end Kind

def Emits (here : Bool) (tree : Syntree) : Prop :=
  ∀ exit frames labels preds id,
    id ∈ (flow exit frames labels tree preds).emitted.vertices ↔ id ∈ places here tree

@[simp] theorem vertices_jump (frames : List Frame) (source : Nat) (aim : Aim) :
    (jump frames source aim).vertices = [] := by
  unfold jump
  split
  · rfl
  · split <;> rfl

@[simp] theorem vertices_send (exit : Nat) (frames : List Frame) (source : Nat)
    (aim : Option Aim) : (send exit frames source aim).vertices = [] := by
  cases aim with
  | none => rfl
  | some aim => exact vertices_jump frames source aim

@[simp] theorem vertices_raise (exit source : Nat) (frames : List Frame) :
    (raise exit source frames).vertices = [] := by
  induction frames with
  | nil => rfl
  | cons frame outer ih =>
    unfold raise
    split
    · rfl
    · rfl
    · exact ih

theorem Emitted.vertices_concat {parts : List Emitted} (each : ∀ part ∈ parts, part.vertices = []) :
    (concat parts).vertices = [] := by
  induction parts with
  | nil => rfl
  | cons part rest ih =>
    obtain ⟨here, there⟩ := forall_mem_cons.mp each
    exact (congrArg₂ (· ++ ·) here (ih there) :)

@[simp] theorem vertices_resumeAll (frames : List Frame) (exits : Exits) (aims : List Aim) :
    (resumeAll frames exits aims).vertices = [] :=
  Emitted.vertices_concat (forall_mem_map.mpr fun aim _ =>
    Emitted.vertices_concat (forall_mem_map.mpr fun _ _ => vertices_jump frames _ aim))

@[simp] theorem vertices_departing {leave : Prop} [Decidable leave] (frames : List Frame)
    (exit : Nat) (exits : Exits) :
    (if leave then departAll frames exit exits else {}).vertices = [] := by
  split <;> rfl

theorem mem_flowAll (each : ∀ position child, trees[position]? = some child →
      Emits (kind.stands (start + position) child.label.kind) child) (exit : Nat)
    (frames : List Frame) (preds : Exits) (id : Nat) :
    id ∈ (flowAll exit frames trees preds).emitted.vertices ↔ id ∈ placesFrom kind start trees := by
  induction trees generalizing start preds with
  | nil => simp [flowAll, placesFrom]
  | cons tree rest ih =>
    have here := each 0 tree rfl exit frames [] preds id
    have there (position : Nat) (child : Syntree) (found : rest[position]? = some child) :
        Emits (kind.stands (start + 1 + position) child.label.kind) child := by
      rw [Nat.add_right_comm]
      exact each (position + 1) child found
    simp [flowAll, placesFrom, here, ih there]

section

variable {seat : Seat} {node : Node} {children : List Syntree}
  (seated : Syntree.Seated seat (.node node children)) {kind : Kind} (isKind : node.kind = kind)

include seated isKind

theorem length_children {count : Nat} (least : kind.leading = count)
    (most : kind.most? = some count) : children.length = count := by
  subst isKind
  obtain ⟨enough, bounded⟩ := Kind.counts_iff.mp seated.counts
  exact Nat.le_antisymm (bounded count most) (least ▸ enough)

theorem places_quiet (position : Nat) (found : children[position]? = some child)
    (quiet : (kind.seat seat position).isQuiet) :
    places (kind.stands position child.label.kind) child =
      if kind.stands position child.label.kind then [child.label.id] else [] := by
  subst isKind
  exact places_still (seated.child found)
    (Kind.hasPlaces_of_isQuiet quiet (seated.child found).admits) _

theorem places_silent (position : Nat) (found : children[position]? = some child)
    (quiet : (kind.seat seat position).isQuiet)
    (silent : kind.stands position child.label.kind = false) :
    places (kind.stands position child.label.kind) child = [] := by
  rw [places_quiet seated isKind position found quiet, silent]
  rfl

variable (deeper : ∀ child ∈ children, ∀ part ∈ child.subtrees,
  Syntree.Seated .statement part → Emits part.label.kind.isPlain part)

include deeper

theorem emits_child (position : Nat) (found : children[position]? = some child)
    (place : kind.seat seat position = .statement ∨ kind.seat seat position = .guarded) :
    Emits (kind.stands position child.label.kind) child := by
  subst isKind
  have part := seated.child found
  have whole := deeper child (mem_of_getElem? found) child child.self_mem_subtrees
  obtain place | place := place
  all_goals
    have top := Seat.top_of_loud rfl place
    rw [show (Rose.node node children).label.kind = node.kind from rfl, place] at part
    simp only [Kind.stands, top]
  · exact whole part
  · have isBlock := Kind.eq_block part.admits
    have emits := whole (part.widen .guarded)
    rwa [isBlock] at emits

theorem mem_flowAll_drop (first : Nat)
    (front : ∀ position < first, (kind.seat seat position).isQuiet ∧
      ∀ part, kind.stands position part = false)
    (rest : ∀ position, kind.seat seat (first + position) = .statement) (exit : Nat)
    (frames : List Frame) (preds : Exits) (id : Nat) :
    id ∈ (flowAll exit frames (children.drop first) preds).emitted.vertices ↔
      id ∈ placesFrom kind 0 children := by
  rw [placesFrom_drop first, Nat.zero_add]
  · refine mem_flowAll (fun position child found => ?_) exit frames preds id
    rw [getElem?_drop] at found
    exact emits_child seated isKind deeper _ found (.inl (rest position))
  · intro position bound child found
    rw [Nat.zero_add]
    exact places_silent seated isKind position found (front position bound).1 ((front position bound).2 _)

theorem emits_choose {hasElse : Bool} {test consequent : Syntree} {alternate : Option Syntree}
    (isIf : kind = .ifStmt hasElse) (parts : children = test :: consequent :: alternate.toList) :
    Emits true (.node node children) := by
  subst isIf parts
  intro exit frames labels preds id
  have silent := places_silent seated isKind 0 rfl rfl rfl
  have yes := emits_child seated isKind deeper 1 rfl (.inl rfl)
  cases alternate with
  | none => simp [flow, isKind, places, placesFrom, silent, yes _ _ _ _ id, Kind.isOwner]
  | some =>
    have no := emits_child seated isKind deeper 2 rfl (.inl rfl)
    simp [flow, isKind, places, placesFrom, silent, yes _ _ _ _ id, no _ _ _ _ id, Kind.isOwner]

theorem emits_loop (isLoop : kind = .whileStmt ∨ kind = .forIn ∨ kind = .forOf) :
    Emits true (.node node children) := by
  intro exit frames labels preds id
  rw [flow_loop (by rwa [isKind])]
  obtain rfl | isFor := isLoop
  · obtain ⟨test, body, rfl⟩ := length_eq_two.mp (length_children seated isKind rfl rfl)
    have silent := places_silent seated isKind 0 rfl rfl rfl
    have inner := emits_child seated isKind deeper 1 rfl (.inl rfl)
    simp [isKind, places, placesFrom, silent, flowLast, closeLoop, inner _ _ _ _ id, Kind.isOwner,
      Emitted.ofEdges]
  · obtain ⟨head, object, body, rfl⟩ := length_eq_three.mp (length_children seated isKind
      (by obtain rfl | rfl := isFor <;> rfl) (by obtain rfl | rfl := isFor <;> rfl))
    obtain rfl | rfl := isFor
    all_goals
      have first := places_silent seated isKind 0 rfl rfl rfl
      have second := places_silent seated isKind 1 rfl rfl rfl
      have inner := emits_child seated isKind deeper 2 rfl (.inl rfl)
      simp [isKind, places, placesFrom, first, second, flowLast, closeLoop, inner _ _ _ _ id,
        Kind.isOwner, Emitted.ofEdges]

theorem emits_with (isWith : kind = .withStmt) : Emits true (.node node children) := by
  subst isWith
  intro exit frames labels preds id
  obtain ⟨object, body, rfl⟩ := length_eq_two.mp (length_children seated isKind rfl rfl)
  have silent := places_silent seated isKind 0 rfl rfl rfl
  have inner := emits_child seated isKind deeper 1 rfl (.inl rfl)
  simp [flow, isKind, places, placesFrom, silent, flowLast, inner _ _ _ _ id, Kind.isOwner]

theorem emits_doWhile (isLoop : kind = .doWhile) : Emits true (.node node children) := by
  subst isLoop
  intro exit frames labels preds id
  obtain ⟨body, test, rfl⟩ := length_eq_two.mp (length_children seated isKind rfl rfl)
  have inner := emits_child seated isKind deeper 0 rfl (.inl rfl)
  have silent := places_silent seated isKind 1 rfl rfl rfl
  simp [flow, isKind, places, placesFrom, silent, inner _ _ _ _ id, Kind.isOwner, or_comm]

theorem emits_labelled {label : String} (isLabel : kind = .labeled label) :
    Emits false (.node node children) := by
  subst isLabel
  intro exit frames labels preds id
  obtain ⟨body, rfl⟩ := length_eq_one_iff.mp (length_children seated isKind rfl rfl)
  have inner := emits_child seated isKind deeper 0 rfl (.inl rfl)
  by_cases takes : body.label.kind.takesLabel
  all_goals simp [flow, isKind, places, placesFrom, takes, inner _ _ _ _ id, Kind.isOwner]

theorem emits_for {hasInit hasTest hasUpdate : Bool}
    (isFor : kind = .forStmt hasInit hasTest hasUpdate)
    (linked : node.children = children.map (·.label.id)) : Emits true (.node node children) := by
  subst isFor
  intro exit frames labels preds id
  have count : children.length = hasInit.toNat + hasTest.toNat + hasUpdate.toNat + 1 :=
    length_children seated isKind rfl rfl
  have inner {body : Syntree}
      (found : children[hasInit.toNat + hasTest.toNat + hasUpdate.toNat]? = some body)
      (frames : List Frame) (preds : Exits) :=
    emits_child seated isKind deeper _ found (.inl (by simp [Kind.seat]; omega)) exit frames [] preds id
  have quiet {position : Nat} {child : Syntree} (found : children[position]? = some child)
      (early : position < hasInit.toNat + hasTest.toNat + hasUpdate.toNat) :
      places ((Kind.forStmt hasInit hasTest hasUpdate).stands position child.label.kind) child =
        if position < hasInit.toNat ∨ hasUpdate ∧ position = hasInit.toNat + hasTest.toNat
        then [child.label.id] else [] := by
    rw [places_quiet seated isKind _ found (by rw [Kind.seat_forStmt early]; split <;> rfl)]
    simp only [Kind.stands_forStmt early]
  rw [flow_def, places]
  simp only [isKind, closeLoop, linked, Kind.isOwner]
  cases hasInit <;> cases hasTest <;> cases hasUpdate
  case false.false.false =>
    obtain ⟨body, rfl⟩ := length_eq_one_iff.mp count
    simp [placesFrom, inner, flowLast, Emitted.ofEdges]
  case true.false.false | false.true.false | false.false.true =>
    obtain ⟨first, body, rfl⟩ := length_eq_two.mp count
    simp [placesFrom, quiet, inner, flowLast, Emitted.ofEdges, Piece.simple, or_left_comm]
  case true.true.false | true.false.true | false.true.true =>
    obtain ⟨first, second, body, rfl⟩ := length_eq_three.mp count
    simp [placesFrom, quiet, inner, flowLast, Emitted.ofEdges, Piece.simple, or_left_comm]
  case true.true.true =>
    obtain ⟨init, rest, rfl⟩ := exists_of_length_succ _ count
    obtain ⟨test, update, body, rfl⟩ := length_eq_three.mp (Nat.succ.inj count)
    simp [placesFrom, quiet, inner, flowLast, Emitted.ofEdges, Piece.simple, or_left_comm]

theorem emits_block (isBlock : kind = .block) : Emits false (.node node children) := by
  subst isBlock
  intro exit frames labels preds id
  have each := mem_flowAll_drop seated isKind deeper 0 (by simp) (fun _ => rfl)
  rw [drop_zero] at each
  simp [flow, isKind, places, each, Kind.isOwner]

theorem emits_handler {hasParam : Bool} (isCatch : kind = .catchClause hasParam) (exit : Nat)
    (frames : List Frame) (id : Nat) :
    id ∈ (flowHandler exit frames (.node node children)).emitted.vertices ↔
      id ∈ placesFrom kind 0 children := by
  subst isCatch
  rw [flowHandler]
  cases hasParam with
  | false =>
    obtain ⟨body, rfl⟩ := length_eq_one_iff.mp (length_children seated isKind rfl rfl)
    have inner := emits_child seated isKind deeper 0 rfl (.inr rfl)
    simp [flowLast, placesFrom, inner _ _ _ _ id]
  | true =>
    obtain ⟨param, body, rfl⟩ := length_eq_two.mp (length_children seated isKind rfl rfl)
    have silent := places_silent seated isKind 0 rfl rfl rfl
    have inner := emits_child seated isKind deeper 1 rfl (.inr rfl)
    simp [flowLast, placesFrom, silent, inner _ _ _ _ id]

theorem emits_case {isDefault : Bool} (isCase : kind = .switchCase isDefault) (rest : List Syntree)
    (exit head : Nat) (frames : List Frame) (preds : Exits) : ∃ body : Piece,
      (flowCases exit frames head (.node node children :: rest) preds).emitted.vertices =
        node.id :: body.emitted.vertices ++
          (flowCases exit frames head rest body.exits).emitted.vertices ∧
      ∀ id, id ∈ body.emitted.vertices ↔ id ∈ placesFrom kind 0 children := by
  subst isCase
  rcases flowCases_cons (.node node children) rest exit frames head preds with
    ⟨isDefault', same, whole⟩ | ⟨few, -⟩
  · obtain rfl : isDefault = isDefault' := by simpa using isKind.symm.trans same
    have body := mem_flowAll_drop seated isKind deeper (!isDefault).toNat
      (by cases isDefault <;> simp [Kind.seat, Kind.stands, Seat.isQuiet])
      (by cases isDefault <;> simp [Kind.seat])
    rw [whole]
    exact ⟨_, by simp [Rose.label, Rose.children], body exit frames [(node.id, .fallthrough)]⟩
  · have counted := seated.counts
    cases isDefault <;> simp_all [Rose.label, Rose.children, Kind.counts, Kind.leading]

end

theorem mem_flowCases (start : Nat) (seated : ∀ case ∈ cases, Syntree.Seated .case case)
    (deeper : ∀ case ∈ cases, ∀ part ∈ case.subtrees,
      Syntree.Seated .statement part → Emits part.label.kind.isPlain part) {exit head : Nat}
    {frames : List Frame} {preds : Exits} :
    id ∈ (flowCases exit frames head cases preds).emitted.vertices ↔
      id ∈ placesFrom .switchStmt (start + 1) cases := by
  induction cases generalizing preds start with
  | nil => simp [flowCases, placesFrom]
  | cons case rest ih =>
    obtain ⟨here, there⟩ := forall_mem_cons.mp seated
    obtain ⟨inner, others⟩ := forall_mem_cons.mp deeper
    obtain ⟨node, children⟩ := case
    obtain ⟨isDefault, isCase⟩ := Kind.exists_of_isCase here.admits
    obtain ⟨body, vertices, same⟩ := emits_case here isCase (fun child below part within =>
      inner part (Rose.mem_subtrees.mpr (.inr ⟨child, below, within⟩))) rfl rest exit head frames preds
    simp only [Rose.label] at isCase
    rw [vertices, placesFrom]
    simp [same, ih (start + 1) there others, places, isCase, Kind.isOwner, Kind.stands,
      Kind.seat]

section

variable {node : Node} {children : List Syntree}
  (seated : Syntree.Seated .statement (.node node children))
  (deeper : ∀ child ∈ children, ∀ part ∈ child.subtrees,
    Syntree.Seated .statement part → Emits part.label.kind.isPlain part)

include seated deeper

theorem emits_switch {subject : Syntree} (isSwitch : node.kind = .switchStmt)
    (parts : children = subject :: cases) : Emits true (.node node children) := by
  subst parts
  intro exit frames labels preds id
  have silent := places_silent seated isSwitch 0 rfl rfl rfl
  have each : ∀ case ∈ cases, Syntree.Seated .case case := by
    intro case below
    obtain ⟨position, found⟩ := getElem?_of_mem below
    have found : (Rose.node node (subject :: cases)).children[position + 1]? = some case := found
    have part := seated.child found
    rwa [Rose.label, isSwitch] at part
  obtain ⟨-, inner⟩ := forall_mem_cons.mp deeper
  simp [flow, isSwitch, places, placesFrom, silent, mem_flowCases 0 each inner,
    Kind.isOwner]

variable {hasHandler hasFinalizer : Bool} (isTry : node.kind = .tryStmt hasHandler hasFinalizer)

include isTry

theorem mem_handler {handler : Syntree} (found : children[1]? = some handler)
    (catches : hasHandler = true) (exit : Nat) (frames : List Frame) (id : Nat) :
    id ∈ places ((Kind.tryStmt hasHandler hasFinalizer).stands 1 handler.label.kind) handler ↔
      id = handler.label.id ∨ id ∈ (flowHandler exit frames handler).emitted.vertices := by
  subst catches
  have part := seated.child found
  rw [Rose.label, isTry] at part
  obtain ⟨handlerNode, parts⟩ := handler
  obtain ⟨hasParam, isCatch⟩ := Kind.exists_of_isCatch part.admits
  have inner := emits_handler part isCatch (fun child below part within =>
    deeper _ (mem_of_getElem? found) part (Rose.mem_subtrees.mpr (.inr ⟨child, below, within⟩)))
    rfl exit frames id
  simp only [Rose.label] at isCatch
  simp [inner, places, isCatch, Kind.isOwner, Kind.stands, Kind.seat, Rose.label]

theorem mem_finalizer (position : Nat) {finalizer : Node}
    (found : children[position]? = some (.node finalizer stmts))
    (last : position = 1 + hasHandler.toNat) (exit : Nat) (frames : List Frame) (preds : Exits)
    (id : Nat) :
    id ∈ places ((Kind.tryStmt hasHandler hasFinalizer).stands position
        (Rose.node finalizer stmts).label.kind) (.node finalizer stmts) ↔
      id = finalizer.id ∨ id ∈ (flowAll exit frames stmts preds).emitted.vertices := by
  have part := seated.child found
  have place (outer : Seat) :
      (Kind.tryStmt hasHandler hasFinalizer).seat outer position = .finalizer := by
    subst last
    cases hasHandler <;> rfl
  rw [Rose.label, isTry, place] at part
  have isBlock : finalizer.kind = .block := Kind.eq_block part.admits
  have inner := mem_flowAll_drop part isBlock (fun child below part within =>
    deeper _ (mem_of_getElem? found) part (Rose.mem_subtrees.mpr (.inr ⟨child, below, within⟩)))
    0 (by simp) (fun _ => rfl)
  rw [drop_zero] at inner
  simp [inner, places, isBlock, Kind.isOwner, Kind.stands, place]

theorem mem_guardedFlow {handler : Option Syntree} {rest : List Syntree}
    (parts : children = block :: (handler.toList ++ rest)) (same : handler.isSome = hasHandler)
    (exit : Nat) (frames : List Frame) (finalizer : Option Nat) (id : Nat) :
    id ∈ (guardedFlow exit frames node.id block handler finalizer).emitted.vertices ↔
      id ∈ placesFrom (.tryStmt hasHandler hasFinalizer) 0 (block :: handler.toList) := by
  subst parts same
  have body := emits_child seated isTry deeper 0 rfl (.inr rfl)
  cases handler with
  | none => simp [guardedFlow, placesFrom, body _ _ _ _ id]
  | some handler =>
    have caught := mem_handler seated deeper isTry rfl rfl exit
      (⟨.guarded (some handler.label.id) finalizer true, []⟩ :: frames) id
    simp only [Option.isSome_some] at caught body
    simp [guardedFlow, placesFrom, caught, body _ _ _ _ id, Emitted.ofEdges, Emitted.vertex]

omit isTry in
theorem emits_guarded {handler : Option Syntree} (isTry : node.kind = .tryStmt handler.isSome false)
    (parts : children = block :: handler.toList) : Emits true (.node node children) := by
  intro exit frames labels preds id
  have inner := mem_guardedFlow seated deeper isTry (by rw [parts, append_nil]) rfl exit frames
    none id
  subst parts
  simp [flow_guarded _ _ _ _ _ _ isTry, places, isTry, inner, Kind.isOwner]

omit isTry in
theorem emits_finalized {handler : Option Syntree} {finalizer : Node}
    (isTry : node.kind = .tryStmt handler.isSome true)
    (parts : children = block :: (handler.toList ++ [.node finalizer stmts])) :
    Emits true (.node node children) := by
  intro exit frames labels preds id
  have inner := mem_guardedFlow seated deeper isTry parts rfl exit frames (some finalizer.id) id
  have final := mem_finalizer seated deeper isTry (1 + handler.isSome.toNat)
    (by cases handler <;> rw [parts] <;> rfl) rfl exit frames [(finalizer.id, .fallthrough)] id
  subst parts
  rw [flow_finalized _ _ _ _ _ _ _ _ isTry, places]
  cases handler <;>
    simp [isTry, placesFrom, Kind.isOwner, Emitted.ofEdges, Emitted.vertex] at inner final ⊢ <;>
    simp [inner, final, or_assoc, or_left_comm]

omit deeper isTry in
theorem emits_single (still : node.kind.isOwner = false → node.kind.hasPlaces = false)
    (single : ∀ exit frames labels preds,
      (flow exit frames labels (.node node children) preds).emitted.vertices = [node.id]) :
    Emits true (.node node children) := by
  intro exit frames labels preds id
  rw [single, places_still seated still]
  simp [Rose.label]

omit deeper isTry in
theorem hasPlaces_of_simple (plain : steers node.kind children = false)
    (owned : node.kind.isOwner = false) : node.kind.hasPlaces = false := by
  have admitted : node.kind.isStatement := seated.admits
  cases kind : node.kind with
  | ifStmt hasElse =>
    have count := length_children seated kind rfl rfl
    cases hasElse with
    | false => obtain ⟨test, consequent, rfl⟩ := length_eq_two.mp count; rw [kind] at plain; cases plain
    | true => obtain ⟨test, consequent, alternate, rfl⟩ := length_eq_three.mp count; rw [kind] at plain; cases plain
  | doWhile | labeled | switchStmt =>
    cases children with
    | nil =>
      have counted := seated.counts
      simp only [Rose.label, Rose.children, kind] at counted
      cases counted
    | cons => rw [kind] at plain; cases plain
  | tryStmt hasHandler hasFinalizer =>
    have count := length_children seated kind rfl rfl
    rw [kind] at plain
    cases hasHandler <;> cases hasFinalizer
    case false.false => obtain ⟨block, rfl⟩ := length_eq_one_iff.mp count; cases plain
    case true.true => obtain ⟨block, handler, final, rfl⟩ := length_eq_three.mp count; cases plain
    all_goals obtain ⟨block, second, rfl⟩ := length_eq_two.mp count; cases plain
  | function => rw [kind] at owned; cases owned
  | program | catchClause | switchCase => rw [kind] at admitted; cases admitted
  | block | whileStmt | forIn | forOf | forStmt | withStmt => rw [kind] at plain; cases plain
  | _ => rfl

end

theorem emits (seated : Syntree.Seated .statement tree) (linked : tree.Linked) :
    Emits tree.label.kind.isPlain tree := by
  induction tree using Rose.bySubtrees with
  | node node children ih =>
    have deeper : ∀ child ∈ children, ∀ part ∈ child.subtrees,
        Syntree.Seated .statement part → Emits part.label.kind.isPlain part :=
      fun child below part within statement => ih child below part within statement
        fun lower inside => linked lower (Rose.mem_subtrees.mpr
          (.inr ⟨child, below, Rose.subtrees_trans inside within⟩))
    rw [Rose.label]
    cases form node children with
    | block isBlock => exact isBlock ▸ emits_block seated isBlock deeper rfl
    | choose isIf => exact isIf ▸ emits_choose seated isIf deeper rfl rfl
    | loop isLoop =>
      have plain : node.kind.isPlain := by
        obtain isLoop | isLoop | isLoop := isLoop <;> rw [isLoop] <;> rfl
      exact plain ▸ emits_loop seated rfl deeper isLoop
    | doWhile isLoop => exact isLoop ▸ emits_doWhile seated isLoop deeper rfl
    | forLoop isFor =>
      exact isFor ▸ emits_for seated isFor deeper rfl (linked _ (Rose.self_mem_subtrees _))
    | labelled isLabel => exact isLabel ▸ emits_labelled seated isLabel deeper rfl
    | breaks isKind | continues isKind | returns isKind =>
      rw [isKind]
      refine emits_single seated (by rw [isKind]; exact fun _ => rfl) fun exit frames labels preds => ?_
      rw [flow_jump (by rw [isKind]; rfl)]
      simp
    | throws isThrow =>
      rw [isThrow]
      refine emits_single seated (by rw [isThrow]; exact fun _ => rfl) fun exit frames labels preds => ?_
      rw [flow_def]
      simp [isThrow]
    | switch isSwitch => exact isSwitch ▸ emits_switch seated deeper isSwitch rfl
    | with_ isWith => exact isWith ▸ emits_with seated isWith deeper rfl
    | guarded isTry => exact isTry ▸ emits_guarded seated deeper isTry rfl
    | finalized isTry => exact isTry ▸ emits_finalized seated deeper isTry rfl
    | simple plain =>
      have still := hasPlaces_of_simple seated plain
      have isPlain : node.kind.isPlain := by
        cases kind : node.kind <;> first | rfl | (rw [kind] at still; cases still rfl)
      rw [isPlain]
      exact emits_single seated still fun exit frames labels preds => by rw [flow_simple plain]; rfl

end Seepage

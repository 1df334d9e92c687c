import Seepage.Proofs.Tree.Arena

set_option autoImplicit false

namespace Seepage

open List Role

open Script

variable {kind : Kind} {count : Nat} {role : Role} {name : Option String} {span : Span}
  {shape : Shape}

inductive Seat where
  | top
  | marker (position : Nat)
  | statement
  | head
  | body
  | declarator (kind : DeclKind)
  | binding (kind : DeclKind)
  | param
  | property
  | field
  -- Of an object pattern, which may declare names.
  | member (declared : Option DeclKind)
  | value
  | key
  -- Of what is changed by an operator, and so read first.
  | updated
  | imported
  | case
  | handler
  -- The block of a `try` statement or of a handler.
  | guarded
  | finalizer
deriving DecidableEq

namespace Kind

def isBlock : Kind → Bool
  | .block => true
  | _ => false

def isCatch : Kind → Bool
  | .catchClause _ => true
  | _ => false

def isCase : Kind → Bool
  | .switchCase _ => true
  | _ => false

def isDeclarator : Kind → Bool
  | .declarator _ => true
  | _ => false

def isIdent : Kind → Bool
  | .ident .. => true
  | _ => false

def isProperty : Kind → Bool
  | .property _ => true
  | _ => false

def isSpread : Kind → Bool
  | .spread => true
  | _ => false

def isRest : Kind → Bool
  | .rest => true
  | _ => false

def isParam : Kind → Bool
  | .ident _ (.declare .param) | .arrayPattern | .objectPattern | .assignPattern | .rest
  | .unknown _ => true
  | _ => false

def isControl : Kind → Bool
  | .block | .ifStmt _ | .forStmt .. | .forIn | .forOf | .whileStmt | .doWhile | .returnStmt _
  | .throwStmt | .breakStmt _ | .continueStmt _ | .labeled _ | .tryStmt .. | .switchStmt
  | .withStmt => true
  | _ => false

def leading : Kind → Nat
  | .program => 2
  | .function _ _ paramCount exprBody => 2 + paramCount + exprBody.toNat
  | .classDef _ _ hasParent => hasParent.toNat
  | .declarator hasInit => 1 + hasInit.toNat
  | .ifStmt hasAlternate => 2 + hasAlternate.toNat
  | .forStmt hasInit hasTest hasUpdate => hasInit.toNat + hasTest.toNat + hasUpdate.toNat + 1
  | .tryStmt hasHandler hasFinalizer => 1 + hasHandler.toNat + hasFinalizer.toNat
  | .catchClause hasParam => hasParam.toNat + 1
  | .switchCase isDefault => (!isDefault).toNat
  | .returnStmt hasArgument | .yield hasArgument => hasArgument.toNat
  | .property .computed | .member (.named _) => 1
  | .member .computed => 2
  | .call | .new | .tagged | .switchStmt | .exportDefault | .exprStmt | .throwStmt | .labeled _
  | .spread | .unary _ | .update .. | .await | .rest => 1
  | .whileStmt | .doWhile | .withStmt | .assign _ | .binary _ | .assignPattern => 2
  | .forIn | .forOf | .conditional => 3
  | .property (.named _) | .varDecl _ | .importDecl _ | .block | .array | .object | .objectPattern
  | .arrayPattern | .sequence | .template | .entry | .exit | .breakStmt _ | .continueStmt _ | .empty
  | .ident .. | .literal _ | .this | .unknown _ => 0

def most? : Kind → Option Nat
  | .program | .classDef .. | .varDecl _ | .importDecl _ | .object | .objectPattern | .switchStmt
  | .switchCase _ | .call | .new | .tagged | .block | .array | .sequence | .template
  | .arrayPattern => none
  | .function _ _ paramCount _ => some (3 + paramCount)
  | .property (.named _) => some 1
  | .property .computed => some 2
  | kind => some kind.leading

def counts (kind : Kind) (count : Nat) : Bool :=
  kind.leading ≤ count && kind.most?.all (count ≤ ·)

theorem counts_iff : kind.counts count ↔
    kind.leading ≤ count ∧ ∀ most, kind.most? = some most → count ≤ most := by
  simp [counts, Option.all_eq_true]

def isStatement : Kind → Bool
  | .function .. | .classDef .. | .varDecl _ | .importDecl _ | .exportDefault | .exprStmt | .empty
  | .unknown _ => true
  | kind => kind.isControl

def isValue : Kind → Bool
  | .ident _ (.declare _) | .ident _ .readWrite => false
  | .program | .entry | .exit | .varDecl _ | .declarator _ | .importDecl _ | .exportDefault
  | .exprStmt | .catchClause _ | .switchCase _ | .empty | .property _ => false
  | kind => !kind.isControl

end Kind

theorem Kind.eq_block (isBlock : kind.isBlock) : kind = .block := by
  cases kind <;> first | rfl | cases isBlock

theorem Kind.exists_of_isCatch (isCatch : kind.isCatch) :
    ∃ hasParam, kind = .catchClause hasParam := by
  cases kind <;> first | exact ⟨_, rfl⟩ | cases isCatch

theorem Kind.exists_of_isCase (isCase : kind.isCase) :
    ∃ isDefault, kind = .switchCase isDefault := by
  cases kind <;> first | exact ⟨_, rfl⟩ | cases isCase

namespace Seat

def admits : Seat → Kind → Bool
  | .top, kind => kind == .program
  | .marker position, .entry => position == 0
  | .marker position, .exit => position == 1
  | .marker _, _ => false
  | .statement, kind => kind.isStatement
  | .head, .varDecl _ => true
  | .head, kind => kind.isValue
  | .body, kind => kind.isBlock || kind.isValue
  | .declarator _, kind => kind.isDeclarator
  | .binding declared, .ident _ (.declare kind) => kind == declared
  | .binding _, kind => kind.isValue
  | .param, kind => kind.isParam
  | .property, kind => kind.isProperty || kind.isSpread
  | .field, kind => kind.isProperty
  | .member _, kind => kind.isProperty || kind.isRest
  | .value, kind => kind.isValue
  | .key, .ident _ .write => false
  | .key, kind => kind.isValue
  | .updated, .ident _ .readWrite => true
  | .updated, kind => kind.isValue
  | .case, kind => kind.isCase
  | .handler, kind => kind.isCatch
  | .guarded, kind | .finalizer, kind => kind.isBlock
  | .imported, .ident _ (.declare .imported) => true
  | .imported, _ => false

theorem admits_marker {position : Nat} : (Seat.marker position).admits kind ↔
    kind = .entry ∧ position = 0 ∨ kind = .exit ∧ position = 1 := by
  cases kind <;> simp [admits]

def target : Seat → Seat
  | .declarator kind | .binding kind | .member (some kind) => .binding kind
  | .imported => .binding .imported
  | .param => .binding .param
  | _ => .value

def inner : Seat → Seat
  | .binding kind => .member (some kind)
  | .param => .member (some .param)
  | _ => .member none

def ofRole : Role → Seat
  | .declare kind => .binding kind
  | .readWrite => .updated
  | _ => .value

theorem target_ofRole (plain : role ≠ .readWrite) : (ofRole role).target = ofRole role := by
  cases role <;> first | rfl | exact absurd rfl plain

theorem target_inner_ofRole (plain : role ≠ .readWrite) :
    (ofRole role).inner.target = ofRole role := by
  cases role <;> first | rfl | exact absurd rfl plain

def holds (seat : Seat) (kind : Kind) (count : Nat) : Bool :=
  seat.admits kind && kind.counts count

theorem holds_inner (seat : Seat)
    (held : (Seat.member none).holds kind count) : seat.inner.holds kind count := by
  cases seat <;> exact held

inductive Widens : Seat → Seat → Prop where
  | refl (seat : Seat) : Widens seat seat
  | head : Widens .value .head
  | body : Widens .value .body
  | updated : Widens .value .updated
  | binding (kind : DeclKind) : Widens .value (.binding kind)
  | member (kind : DeclKind) : Widens (.member none) (.member (some kind))
  | guarded : Widens .guarded .statement
  | key : Widens .key .value

theorem Widens.target {seat wider : Seat} (widens : Widens seat wider) :
    Widens seat.target wider.target := by
  cases widens with
  | refl => exact .refl _
  | head | body | updated | guarded | key => exact .refl _
  | binding kind | member kind => exact .binding kind

theorem Widens.inner {seat wider : Seat} (widens : Widens seat wider) :
    Widens seat.inner wider.inner := by
  cases widens with
  | refl => exact .refl _
  | head | body | updated | member | guarded | key => exact .refl _
  | binding kind => exact .member kind

theorem Widens.admits {seat wider : Seat} (widens : Widens seat wider)
    (admitted : seat.admits kind) : wider.admits kind := by
  cases widens with
  | refl | member => exact admitted
  | body => exact Bool.or_eq_true_iff.mpr (.inr admitted)
  | guarded =>
    rw [Kind.eq_block admitted]
    rfl
  | head | updated =>
    unfold Seat.admits
    split <;> simp_all [Seat.admits]
  | binding =>
    unfold Seat.admits at admitted ⊢
    split <;> simp_all [Kind.isValue]
  | key =>
    unfold Seat.admits at admitted
    split at admitted <;> simp_all [Seat.admits]

theorem widens_ofRole (role : Role) : Widens .value (ofRole role) := by
  cases role with
  | declare kind => exact .binding kind
  | readWrite => exact .updated
  | _ => exact .refl _

theorem Widens.holds {seat wider : Seat} (widens : Widens seat wider)
    (held : seat.holds kind count) : wider.holds kind count := by
  obtain ⟨admitted, counted⟩ := Bool.and_eq_true_iff.mp held
  exact Bool.and_eq_true_iff.mpr ⟨widens.admits admitted, counted⟩

theorem holds_ofRole (role : Role)
    (held : Seat.value.holds kind count) : (ofRole role).holds kind count :=
  (widens_ofRole role).holds held

end Seat

def Kind.seat (kind : Kind) (outer : Seat) (position : Nat) : Seat :=
  match kind with
  | .program => if position < 2 then .marker position else .statement
  | .function _ _ paramCount _ =>
    if position < 2 then .marker position
    else if position < 2 + paramCount then .param
    else .body
  | .varDecl kind => .declarator (.ofVar kind)
  | .declarator _ | .assignPattern => if position = 0 then outer.target else .value
  | .importDecl _ => .imported
  | .block | .labeled _ => .statement
  | .ifStmt _ | .whileStmt | .withStmt => if position = 0 then .value else .statement
  | .doWhile => if position = 0 then .statement else .value
  | .forStmt hasInit hasTest hasUpdate =>
    if position < hasInit.toNat then .head
    else if position < hasInit.toNat + hasTest.toNat + hasUpdate.toNat then .value
    else .statement
  | .forIn | .forOf =>
    if position = 0 then .head else if position = 1 then .value else .statement
  | .tryStmt hasHandler _ =>
    if position = 0 then .guarded
    else if position = 1 ∧ hasHandler then .handler
    else .finalizer
  | .catchClause hasParam => if position < hasParam.toNat then .binding .caught else .guarded
  | .switchStmt => if position = 0 then .value else .case
  | .switchCase isDefault => if position = 0 ∧ !isDefault then .value else .statement
  | .object => .property
  | .classDef _ _ hasParent => if position < hasParent.toNat then .value else .field
  | .objectPattern => outer.inner
  | .property .computed => if position = 0 then .key else outer.target
  | .property (.named _) | .arrayPattern | .rest => outer.target
  | .update .. => .updated
  | .assign op => if position = 0 ∧ op ≠ "=" then .updated else .value
  | _ => .value

theorem Kind.seat_cases (kind : Kind) (position : Nat) :
    (∀ outer, kind.seat outer position = outer.target) ∨
      (∀ outer, kind.seat outer position = outer.inner) ∨
      ∃ seat, ∀ outer, kind.seat outer position = seat := by
  unfold Kind.seat
  split
  case h_4 | h_5 =>
    by_cases first : position = 0
    · exact .inl fun outer => if_pos first
    · exact .inr (.inr ⟨.value, fun outer => if_neg first⟩)
  case h_22 => exact .inr (.inl fun outer => rfl)
  case h_23 =>
    by_cases first : position = 0
    · exact .inr (.inr ⟨.key, fun outer => if_pos first⟩)
    · exact .inl fun outer => if_neg first
  case h_24 | h_25 | h_26 => exact .inl fun outer => rfl
  all_goals exact .inr (.inr ⟨_, fun outer => rfl⟩)

theorem Kind.widens_seat (kind : Kind) {seat wider : Seat} (widens : seat.Widens wider)
    (position : Nat) : (kind.seat seat position).Widens (kind.seat wider position) := by
  obtain passes | members | ⟨own, same⟩ := kind.seat_cases position
  · rw [passes, passes]
    exact widens.target
  · rw [members, members]
    exact widens.inner
  · rw [same, same]
    exact .refl _

namespace Rose

variable {seats : Nat → Seat}

variable {α : Type} {kindOf : α → Kind}

inductive Seated (kindOf : α → Kind) : Seat → Rose α → Prop where
  | node {seat : Seat} {label : α} {children : List (Rose α)}
    (held : seat.holds (kindOf label) children.length = true)
    (below : ∀ position child, children[position]? = some child →
      Seated kindOf ((kindOf label).seat seat position) child) :
    Seated kindOf seat (.node label children)

def AllSeated (kindOf : α → Kind) (seats : Nat → Seat) (trees : List (Rose α)) : Prop :=
  ∀ position tree, trees[position]? = some tree → Seated kindOf (seats position) tree

theorem Seated.admits {seat : Seat} {tree : Rose α} (seated : Seated kindOf seat tree) :
    seat.admits (kindOf tree.label) = true := by
  obtain ⟨held, -⟩ := seated
  exact (Bool.and_eq_true_iff.mp held).1

theorem Seated.counts {seat : Seat} {tree : Rose α} (seated : Seated kindOf seat tree) :
    (kindOf tree.label).counts tree.children.length = true := by
  obtain ⟨held, -⟩ := seated
  exact (Bool.and_eq_true_iff.mp held).2

theorem Seated.child {seat : Seat} {tree child : Rose α} {position : Nat}
    (seated : Seated kindOf seat tree) (found : tree.children[position]? = some child) :
    Seated kindOf ((kindOf tree.label).seat seat position) child := by
  obtain ⟨-, below⟩ := seated
  exact below position child found

theorem Seated.subtree {seat : Seat} {top tree : Rose α} (seated : Seated kindOf seat top)
    (inside : tree ∈ top.subtrees) : ∃ seat, Seated kindOf seat tree := by
  induction seated with
  | @node seat label children held below ih =>
    obtain rfl | ⟨child, member, under⟩ := mem_subtrees.mp inside
    · exact ⟨seat, .node held below⟩
    · obtain ⟨position, found⟩ := getElem?_of_mem member
      exact ih position child found under

theorem allSeated_nil (seats : Nat → Seat) : AllSeated kindOf seats [] := by
  intro position tree found
  cases found

theorem allSeated_cons {tree : Rose α} {rest : List (Rose α)} (first : Seated kindOf (seats 0) tree)
    (others : AllSeated kindOf (fun position => seats (position + 1)) rest) :
    AllSeated kindOf seats (tree :: rest) := by
  intro position other found
  cases position with
  | zero => cases found; exact first
  | succ position => exact others position other found

theorem allSeated_append {left right : List (Rose α)} (first : AllSeated kindOf seats left)
    (others : AllSeated kindOf (fun position => seats (left.length + position)) right) :
    AllSeated kindOf seats (left ++ right) := by
  intro position tree found
  rcases Nat.lt_or_ge position left.length with before | behind
  · rw [getElem?_append_left before] at found
    exact first position tree found
  · rw [getElem?_append_right behind] at found
    simpa only [Nat.add_sub_of_le behind] using others _ tree found

theorem allSeated_of_forall {seat : Seat} {trees : List (Rose α)}
    (same : ∀ position, position < trees.length → seats position = seat)
    (each : ∀ tree ∈ trees, Seated kindOf seat tree) : AllSeated kindOf seats trees := by
  intro position tree found
  obtain ⟨bound, -⟩ := List.getElem?_eq_some_iff.mp found
  rw [same position bound]
  exact each tree (mem_of_getElem? found)

theorem Seated.widen {seat wider : Seat} {tree : Rose α} (seated : Seated kindOf seat tree)
    (widens : seat.Widens wider) : Seated kindOf wider tree := by
  induction seated generalizing wider with
  | node held below ih =>
    exact .node (widens.holds held) fun position child found =>
      ih position child found (Kind.widens_seat _ widens position)

theorem Seated.key {tree : Rose α} (seated : Seated kindOf .value tree)
    (unwritten : ∀ name, kindOf tree.label ≠ .ident name .write) : Seated kindOf .key tree := by
  obtain ⟨held, below⟩ := seated
  obtain ⟨admitted, counted⟩ := Bool.and_eq_true_iff.mp held
  refine .node (Bool.and_eq_true_iff.mpr ⟨?_, counted⟩) fun position child found => ?_
  · unfold Seat.admits
    split <;> simp_all [Rose.label, Seat.admits]
  · exact below position child found

section Shapes

variable {seat inner : Seat} {label : α} {children : List (Rose α)} {first second third : Rose α}

theorem Seated.leaf (held : seat.holds (kindOf label) 0) : Seated kindOf seat (.node label []) :=
  .node held (allSeated_nil _)

theorem Seated.each (held : seat.holds (kindOf label) children.length)
    (uniform : ∀ position, (kindOf label).seat seat position = inner)
    (below : ∀ child ∈ children, Seated kindOf inner child) :
    Seated kindOf seat (.node label children) :=
  .node held (allSeated_of_forall (fun position _ => uniform position) below)

theorem Seated.single (held : seat.holds (kindOf label) 1)
    (below : Seated kindOf ((kindOf label).seat seat 0) first) :
    Seated kindOf seat (.node label [first]) :=
  .node held (allSeated_cons below (allSeated_nil _))

theorem Seated.pair (held : seat.holds (kindOf label) 2)
    (left : Seated kindOf ((kindOf label).seat seat 0) first)
    (right : Seated kindOf ((kindOf label).seat seat 1) second) :
    Seated kindOf seat (.node label [first, second]) :=
  .node held (allSeated_cons left (allSeated_cons right (allSeated_nil _)))

theorem Seated.triple (held : seat.holds (kindOf label) 3)
    (left : Seated kindOf ((kindOf label).seat seat 0) first)
    (middle : Seated kindOf ((kindOf label).seat seat 1) second)
    (right : Seated kindOf ((kindOf label).seat seat 2) third) :
    Seated kindOf seat (.node label [first, second, third]) :=
  .node held
    (allSeated_cons left (allSeated_cons middle (allSeated_cons right (allSeated_nil _))))

end Shapes

end Rose

open Rose (AllSeated allSeated_nil allSeated_cons allSeated_append allSeated_of_forall)

abbrev Shape.Seated : Seat → Shape → Prop :=
  Rose.Seated Prod.fst

open Shape (Seated)

theorem seated_ident (id : Ident) (role : Role) :
    Seated (.ofRole role) (Sink.tree.ident () id role) := by
  cases role with
  | declare kind => exact .leaf (Bool.and_eq_true_iff.mpr ⟨by simp [Seat.ofRole, Seat.admits], rfl⟩)
  | _ => exact .leaf rfl

theorem length_lowerParams (params : List Param) :
    (lowerParams .tree () params).length = params.length := by
  induction params with
  | nil => rfl
  | cons param rest ih => simp [lowerParams, ih]

theorem length_lowerOptional (expr : Option Expr) :
    (lowerOptional .tree () expr).length = expr.isSome.toNat := by
  cases expr <;> rfl

theorem seated_function {seat : Seat} {form : FunctionForm} {exprBody : Bool} {params : List Param}
    {body : Body} (admitted : seat.admits (.function name form params.length exprBody))
    (agrees : exprBody.toNat ≤ (lowerBody .tree () body).length)
    (each : ∀ shape ∈ lowerParams .tree () params, Seated .param shape)
    (run : ∀ shape ∈ lowerBody .tree () body, Seated .body shape) :
    Seated seat (Sink.tree.owner () (.function name form params.length exprBody) span
      fun _ => lowerParams .tree () params ++ lowerBody .tree () body) := by
  have single : (lowerBody .tree () body).length ≤ 1 := by cases body <;> simp [lowerBody]
  have counted : (Kind.function name form params.length exprBody).counts
      (lowerParams .tree () params ++ lowerBody .tree () body).length.succ.succ := by
    rw [Kind.counts_iff, length_append, length_lowerParams]
    refine ⟨?_, fun most same => ?_⟩
    · simp only [Kind.leading]
      omega
    · cases same
      omega
  refine .node (Bool.and_eq_true_iff.mpr ⟨admitted, counted⟩) (allSeated_cons (.leaf rfl)
    (allSeated_cons (.leaf rfl)
      (allSeated_append (allSeated_of_forall ?_ each) (allSeated_of_forall ?_ run))))
  · intro position bound
    rw [length_lowerParams] at bound
    simp only [Kind.seat]
    rw [if_neg (by omega), if_pos (by omega)]
  · intro position bound
    simp only [Kind.seat, length_lowerParams]
    rw [if_neg (by omega), if_neg (by omega)]

theorem lowerExpr_update (op : String) (before : Bool) (operand : Expr) (span : Span) :
    ∃ shape, lowerExpr .tree () (.update op before operand span) = .mk (.update op before) span [shape] ∧
      (shape = lowerExpr .tree () operand ∨ ∃ id, shape = Sink.tree.ident () id .readWrite) := by
  cases operand with
  | ident id => exact ⟨_, rfl, .inr ⟨id, rfl⟩⟩
  | _ => exact ⟨_, rfl, .inl rfl⟩

theorem unwritten_lowerExpr (expr : Expr) (name : String) :
    (lowerExpr .tree () expr).label.1 ≠ .ident name .write := by
  cases expr with
  | paren inner _ | typed _ inner _ => exact unwritten_lowerExpr inner name
  | function _ body | arrow body =>
    cases body
    simp [lowerExpr, lowerFunction, Sink.owner, Sink.tree, Rose.label]
  | update op before operand span =>
    obtain ⟨shape, same, -⟩ := lowerExpr_update op before operand span
    simp [same, Rose.label]
  | _ => simp [lowerExpr, Sink.leaf, Sink.ident, Sink.tree, Rose.label]

theorem seated_property {seat : Seat} {key : Key} {value : List Shape}
    (admitted : ∀ key, seat.admits (.property key)) (single : value.length ≤ 1)
    (keys : ∀ shape ∈ lowerKey .tree () key, Seated .key shape)
    (values : ∀ shape ∈ value, Seated seat.target shape) :
    Seated seat (.mk (.property (propKey key)) span (lowerKey .tree () key ++ value)) := by
  have counted : (Kind.property (propKey key)).counts (lowerKey .tree () key ++ value).length := by
    have few (name : String) : (Kind.property (.named name)).counts value.length :=
      Kind.counts_iff.mpr ⟨Nat.zero_le _, fun most same => Option.some.inj same ▸ single⟩
    cases key with
    | named | privateName => exact few _
    | computed key =>
      cases known : literalKey? key with
      | none =>
        simp only [propKey, keyName?, lowerKey, known]
        exact Kind.counts_iff.mpr ⟨Nat.succ_le_succ (Nat.zero_le _), fun most same =>
          Option.some.inj same ▸ Nat.succ_le_succ single⟩
      | some name =>
        simp only [propKey, keyName?, lowerKey, known]
        exact few name
  refine .node (Bool.and_eq_true_iff.mpr ⟨admitted _, counted⟩) ?_
  cases key with
  | named | privateName => exact allSeated_of_forall (fun _ _ => rfl) values
  | computed key =>
    cases known : literalKey? key with
    | none =>
      simp only [lowerKey, propKey, keyName?, known, Option.isSome_none] at keys ⊢
      exact allSeated_cons (keys _ (mem_singleton_self _))
        (allSeated_of_forall (fun _ _ => rfl) values)
    | some name =>
      simp only [lowerKey, propKey, keyName?, known, Option.isSome_some, if_true, nil_append]
      exact allSeated_of_forall (fun _ _ => rfl) values

theorem counts_member (key : Key) (object : Shape) :
    Seat.value.holds (.member (propKey key)) (object :: lowerKey .tree () key).length := by
  cases key with
  | named | privateName => rfl
  | computed key =>
    cases known : literalKey? key <;>
      simp only [propKey, keyName?, lowerKey, known] <;> rfl

theorem seated_lowerTarget? {target : Expr}
    (found : lowerTarget? .tree () role target = some shape) : Seated (.ofRole role) shape := by
  unfold lowerTarget? at found
  split at found <;> cases found
  case h_1 id | h_2 id _ => exact seated_ident id role
  case h_3 | h_4 => exact .leaf (Seat.holds_ofRole role rfl)

theorem length_lowerForInit (init : Option ForHead) :
    (lowerForInit .tree () init).length = init.isSome.toNat := by
  cases init <;> rfl

theorem Role.write_plain : write ≠ .readWrite := by simp

theorem Role.declare_plain (kind : DeclKind) : declare kind ≠ .readWrite := by simp

theorem seated_target (plain : role ≠ .readWrite)
    (seated : Seated (.ofRole role) shape) : Seated (Seat.ofRole role).target shape := by
  rwa [Seat.target_ofRole plain]

theorem seated_inner (plain : role ≠ .readWrite)
    (seated : Seated (.ofRole role) shape) : Seated (Seat.ofRole role).inner.target shape := by
  rwa [Seat.target_inner_ofRole plain]

theorem seated_member (plain : role ≠ .readWrite) {key : Key}
    {value : Shape} (keys : ∀ shape ∈ lowerKey .tree () key, Seated .key shape)
    (seated : Seated (.ofRole role) value) :
    Seated (Seat.ofRole role).inner
      (.mk (.property (propKey key)) span (lowerKey .tree () key ++ [value])) := by
  refine seated_property (fun key => ?_) (Nat.le_refl _) keys
    (forall_mem_singleton.mpr (seated_inner plain seated))
  cases role <;> rfl

theorem seated_class {seat : Seat} {isDecl : Bool} {parent : Option Expr} {members : List Shape}
    (admitted : seat.admits (.classDef name isDecl parent.isSome))
    (parents : ∀ shape ∈ lowerOptional .tree () parent, Seated .value shape)
    (each : ∀ shape ∈ members, Seated .field shape) :
    Seated seat (.mk (.classDef name isDecl parent.isSome) span (lowerOptional .tree () parent ++ members)) := by
  refine .node (Bool.and_eq_true_iff.mpr ⟨admitted, ?_⟩)
    (allSeated_append (allSeated_of_forall ?_ parents) (allSeated_of_forall ?_ each))
  · simp [Kind.counts, Kind.leading, Kind.most?, length_lowerOptional]
  all_goals simp only [Kind.seat, length_lowerOptional]
  · exact fun position bound => if_pos bound
  · exact fun position bound => if_neg (by omega)

theorem Kind.seat_assign (op : String) (outer : Seat) :
    (Kind.assign op).seat outer 0 = .ofRole (assignRole op) := by
  by_cases plain : op = "=" <;> simp [Kind.seat, assignRole, plain, Seat.ofRole]

mutual

theorem seated_lowerExpr : (expr : Expr) → Seated .value (lowerExpr .tree () expr)
  | .this _ => .leaf rfl
  | .ident id => seated_ident id .read
  | .literal .. => .leaf rfl
  | .array elements _ => .each rfl (fun _ => rfl) (seated_lowerExprs elements)
  | .object members _ => .each rfl (fun _ => rfl) (seated_lowerObjectMembers members)
  | .function _ body => seated_lowerFunction rfl body
  | .arrow body => seated_lowerFunction rfl body
  | .classExpr _ parent members _ => seated_class rfl (seated_lowerOptional parent)
    (seated_lowerClassMembers members)
  | .unary _ operand _ => .single rfl (seated_lowerExpr operand)
  | .update op before operand span => by
    obtain ⟨shape, same, plain | ⟨id, named⟩⟩ := lowerExpr_update op before operand span
    · rw [same, plain]
      exact .single rfl ((seated_lowerExpr operand).widen .updated)
    · rw [same, named]
      exact .single rfl (seated_ident id .readWrite)
  | .binary _ left right _ => .pair rfl (seated_lowerExpr left) (seated_lowerExpr right)
  | .assign op target value _ => by
    refine .pair rfl ?_ (seated_lowerExpr value)
    rw [Kind.seat_assign]
    split
    case h_1 found => exact seated_lowerTarget? found
    case h_2 => exact (seated_lowerExpr target).widen (Seat.widens_ofRole _)
  | .assignPattern target value _ =>
    .pair rfl (seated_lowerPattern write_plain target) (seated_lowerExpr value)
  | .member object key _ _ => .each (counts_member key _) (fun _ => rfl)
    (forall_mem_cons.mpr
      ⟨seated_lowerExpr object, fun shape member => (seated_lowerKey key shape member).widen .key⟩)
  | .superMember _ key _ => .each (counts_member key _) (fun _ => rfl)
    (forall_mem_cons.mpr
      ⟨.leaf rfl, fun shape member => (seated_lowerKey key shape member).widen .key⟩)
  | .conditional test consequent alternate _ =>
    .triple rfl (seated_lowerExpr test) (seated_lowerExpr consequent) (seated_lowerExpr alternate)
  | .call callee args _ _ => .each rfl (fun _ => rfl)
    (forall_mem_cons.mpr ⟨seated_lowerExpr callee, seated_lowerExprs args⟩)
  | .new callee args _ => .each rfl (fun _ => rfl)
    (forall_mem_cons.mpr ⟨seated_lowerExpr callee, seated_lowerExprs args⟩)
  | .sequence exprs _ => .each rfl (fun _ => rfl) (seated_lowerExprs exprs)
  | .template _ exprs _ => .each rfl (fun _ => rfl) (seated_lowerExprs exprs)
  | .tagged tag exprs _ => .each rfl (fun _ => rfl)
    (forall_mem_cons.mpr ⟨seated_lowerExpr tag, seated_lowerExprs exprs⟩)
  | .yield argument _ => .each (by cases argument <;> rfl) (fun _ => rfl)
    (seated_lowerOptional argument)
  | .await argument _ => .single rfl (seated_lowerExpr argument)
  | .paren inner _ => seated_lowerExpr inner
  | .typed _ inner _ => seated_lowerExpr inner
  | .spread inner _ => .single rfl (seated_lowerExpr inner)
  | .hole _ => .leaf rfl
  | .missing _ => .leaf rfl
  | .unsupported .. => .leaf rfl

theorem seated_lowerExprs :
    (exprs : List Expr) → ∀ shape ∈ lowerExprs .tree () exprs, Seated .value shape
  | [] => forall_mem_nil _
  | expr :: rest => by
    cases expr with
    | hole => exact seated_lowerExprs rest
    | _ => exact forall_mem_cons.mpr ⟨seated_lowerExpr _, seated_lowerExprs rest⟩

theorem seated_lowerOptional :
    (expr : Option Expr) → ∀ shape ∈ lowerOptional .tree () expr, Seated .value shape
  | none => forall_mem_nil _
  | some expr => forall_mem_singleton.mpr (seated_lowerExpr expr)

theorem seated_lowerKey : (key : Key) → ∀ shape ∈ lowerKey .tree () key, Seated .key shape
  | .named _ => forall_mem_nil _
  | .privateName _ => forall_mem_nil _
  | .computed key => by
    rw [lowerKey]
    split
    · exact forall_mem_nil _
    · exact forall_mem_singleton.mpr ((seated_lowerExpr key).key (unwritten_lowerExpr key))

theorem seated_lowerObjectMembers : (members : List ObjectMember) →
    ∀ shape ∈ lowerObjectMembers .tree () members, Seated .property shape
  | [] => forall_mem_nil _
  | member :: rest =>
    forall_mem_cons.mpr ⟨seated_lowerObjectMember member, seated_lowerObjectMembers rest⟩

theorem seated_lowerObjectMember :
    (member : ObjectMember) → Seated .property (lowerObjectMember .tree () member)
  | .shorthand id => .single rfl (seated_ident id .read)
  | .keyed key value _ => seated_property (fun _ => rfl) (Nat.le_refl _) (seated_lowerKey key)
    (forall_mem_singleton.mpr (seated_lowerExpr value))
  | .initialized _ value _ => .single rfl (seated_lowerExpr value)
  | .method key form body _ => seated_lowerMethod rfl (fun _ => rfl) form _ (seated_lowerKey key) body
  | .spread value _ => .single rfl (seated_lowerExpr value)

theorem seated_lowerMethod {seat : Seat} (values : seat.target = .value)
    (admitted : ∀ key, seat.admits (.property key)) {key : Key} (form : MethodForm) (whole : Span)
    (keys : ∀ shape ∈ lowerKey .tree () key, Seated .key shape) : (function : Script.Function) →
    Seated seat (lowerMethod .tree () key form (lowerKey .tree · key) whole function)
  | .mk params body _ => seated_property admitted (Nat.le_refl _) keys
    (forall_mem_singleton.mpr (values ▸ seated_function rfl (Nat.zero_le _)
      (seated_lowerParams params) (seated_lowerBody body)))

theorem seated_lowerFunction {seat : Seat} {name : Option String} {form : FunctionForm}
    (admitted : ∀ {count exprBody}, seat.admits (.function name form count exprBody)) :
    (function : Script.Function) → Seated seat (lowerFunction .tree () name form function)
  | .mk params body _ => seated_function admitted (by cases body <;> simp [lowerBody])
    (seated_lowerParams params) (seated_lowerBody body)

theorem seated_lowerBody : (body : Body) → ∀ shape ∈ lowerBody .tree () body, Seated .body shape
  | .absent => forall_mem_nil _
  | .block body => forall_mem_singleton.mpr (seated_lowerBlock rfl body)
  | .expr value =>
    forall_mem_singleton.mpr ((seated_lowerExpr value).widen .body)

theorem seated_lowerClassMembers : (members : List ClassMember) →
    ∀ shape ∈ lowerClassMembers .tree () members, Seated .field shape
  | [] => forall_mem_nil _
  | member :: rest =>
    forall_mem_cons.mpr ⟨seated_lowerClassMember member, seated_lowerClassMembers rest⟩

theorem seated_lowerClassMember :
    (member : ClassMember) → Seated .field (lowerClassMember .tree () member)
  | .constructor body => .single rfl (seated_lowerFunction rfl body)
  | .method key form body => seated_lowerMethod rfl (fun _ => rfl) form _ (seated_lowerKey key) body
  | .field key value _ => seated_property (fun _ => rfl) (by cases value <;> simp [lowerOptional])
    (seated_lowerKey key) (seated_lowerOptional value)
  | .staticBlock body _ => .single rfl (.triple rfl (.leaf rfl) (.leaf rfl)
    (seated_lowerBlock rfl body))

theorem seated_lowerParams :
    (params : List Param) → ∀ shape ∈ lowerParams .tree () params, Seated .param shape
  | [] => forall_mem_nil _
  | param :: rest => forall_mem_cons.mpr ⟨seated_lowerParam param, seated_lowerParams rest⟩

theorem seated_lowerParam : (param : Param) → Seated .param (lowerParam .tree () param)
  | .ident _ => .leaf rfl
  | .array elements _ => .each rfl (fun _ => rfl)
    (seated_lowerPatterns (declare_plain .param) elements)
  | .object members _ => .each rfl (fun _ => rfl)
    (seated_lowerPatternMembers (declare_plain .param) members)
  | .rest inner _ => .single rfl (seated_lowerPattern (declare_plain .param) inner)
  | .initialized target value _ => .pair rfl
    (seated_lowerPattern (declare_plain .param) target) (seated_lowerExpr value)
  | .unsupported .. => .leaf rfl

theorem seated_lowerPattern {role : Role} (plain : role ≠ .readWrite) :
    (pattern : Pattern) → Seated (.ofRole role) (lowerPattern .tree () role pattern)
  | .ident id => seated_ident id role
  | .array elements _ => .each (Seat.holds_ofRole role rfl) (fun _ => Seat.target_ofRole plain)
    (seated_lowerPatterns plain elements)
  | .object members _ => .each (Seat.holds_ofRole role rfl) (fun _ => rfl)
    (seated_lowerPatternMembers plain members)
  | .rest inner _ => .single (Seat.holds_ofRole role rfl)
    (seated_target plain (seated_lowerPattern plain inner))
  | .initialized target value _ => .pair (Seat.holds_ofRole role rfl)
    (seated_target plain (seated_lowerPattern plain target)) (seated_lowerExpr value)
  | .expr target => (seated_lowerExpr target).widen (Seat.widens_ofRole role)
  | .unsupported .. => .leaf (Seat.holds_ofRole role rfl)

theorem seated_lowerPatterns {role : Role} (plain : role ≠ .readWrite) :
    (patterns : List Pattern) → ∀ shape ∈ lowerPatterns .tree () role patterns, Seated (.ofRole role) shape
  | [] => forall_mem_nil _
  | pattern :: rest =>
    forall_mem_cons.mpr ⟨seated_lowerPattern plain pattern, seated_lowerPatterns plain rest⟩

theorem seated_lowerPatternMembers {role : Role} (plain : role ≠ .readWrite) :
    (members : List PatternMember) →
    ∀ shape ∈ lowerPatternMembers .tree () role members, Seated (Seat.ofRole role).inner shape
  | [] => forall_mem_nil _
  | member :: rest => forall_mem_cons.mpr
    ⟨seated_lowerPatternMember plain member, seated_lowerPatternMembers plain rest⟩

theorem seated_lowerPatternMember {role : Role} (plain : role ≠ .readWrite) :
    (member : PatternMember) → Seated (Seat.ofRole role).inner (lowerPatternMember .tree () role member)
  | .keyed key value _ => seated_member plain (seated_lowerKey key) (seated_lowerPattern plain value)
  | .shorthand id none _ => .single (Seat.holds_inner _ rfl)
    (seated_inner plain (seated_ident id role))
  | .shorthand id (some value) _ => .single (Seat.holds_inner _ rfl)
    (seated_inner plain (.pair (Seat.holds_ofRole role rfl)
      (seated_target plain (seated_ident id role)) (seated_lowerExpr value)))
  | .rest inner _ => .single (Seat.holds_inner _ rfl)
    (seated_inner plain (seated_lowerPattern plain inner))

theorem seated_lowerBlock {seat : Seat} (admitted : seat.admits .block) :
    (block : Block) → Seated seat (lowerBlock .tree () block)
  | .mk body _ => .each (Bool.and_eq_true_iff.mpr ⟨admitted, rfl⟩) (fun _ => rfl)
    (seated_lowerStmts body)

theorem seated_lowerDeclarators (kind : DeclKind) : (declarators : List Declarator) →
    ∀ shape ∈ lowerDeclarators .tree () kind declarators, Seated (.declarator kind) shape
  | [] => forall_mem_nil _
  | .mk target value _ :: rest => forall_mem_cons.mpr
    ⟨.node (by cases value <;> rfl) (allSeated_cons
      (seated_lowerPattern (declare_plain kind) target)
      (allSeated_of_forall (fun _ _ => rfl) (seated_lowerOptional value))),
      seated_lowerDeclarators kind rest⟩

theorem seated_lowerForHead : (head : ForHead) → Seated .head (lowerForHead .tree () head)
  | .vars _ declarators _ => .each rfl (fun _ => rfl) (seated_lowerDeclarators _ declarators)
  | .expr value => (seated_lowerExpr value).widen .head
  | .pattern target => (seated_lowerPattern write_plain target).widen .head

theorem seated_lowerForInit :
    (init : Option ForHead) → ∀ shape ∈ lowerForInit .tree () init, Seated .head shape
  | none => forall_mem_nil _
  | some head => forall_mem_singleton.mpr (seated_lowerForHead head)

theorem seated_lowerCases :
    (cases : List SwitchCase) → ∀ shape ∈ lowerCases .tree () cases, Seated .case shape
  | [] => forall_mem_nil _
  | .mk none body _ :: rest => forall_mem_cons.mpr
    ⟨.each rfl (fun _ => by simp [Kind.seat]) (seated_lowerStmts body), seated_lowerCases rest⟩
  | .mk (some test) body _ :: rest => forall_mem_cons.mpr
    ⟨.node rfl (allSeated_cons (seated_lowerExpr test)
      (allSeated_of_forall (fun _ _ => rfl) (seated_lowerStmts body))), seated_lowerCases rest⟩

theorem seated_lowerHandler :
    (handler : Handler) → ∀ shape ∈ lowerHandler .tree () handler, Seated .handler shape
  | .absent => forall_mem_nil _
  | .bare body _ => forall_mem_singleton.mpr (.single rfl (seated_lowerBlock rfl body))
  | .binding param body _ => forall_mem_singleton.mpr
    (.pair rfl (seated_lowerPattern (declare_plain .caught) param) (seated_lowerBlock rfl body))

theorem seated_lowerFinalizer :
    (finalizer : Option Block) → ∀ shape ∈ lowerFinalizer .tree () finalizer, Seated .finalizer shape
  | none => forall_mem_nil _
  | some body => forall_mem_singleton.mpr (seated_lowerBlock rfl body)

theorem seated_lowerStmt : (stmt : Stmt) → Seated .statement (lowerStmt .tree () stmt)
  | .block body => seated_lowerBlock rfl body
  | .empty _ => .leaf rfl
  | .expr value _ => .single rfl (seated_lowerExpr value)
  | .vars _ declarators _ => .each rfl (fun _ => rfl) (seated_lowerDeclarators _ declarators)
  | .function _ body => seated_lowerFunction rfl body
  | .classDecl _ parent members _ => seated_class rfl (seated_lowerOptional parent)
    (seated_lowerClassMembers members)
  | .withStmt object body _ => .pair rfl (seated_lowerExpr object) (seated_lowerStmt body)
  | .returnStmt argument _ => .each (by cases argument <;> rfl) (fun _ => rfl)
    (seated_lowerOptional argument)
  | .throwStmt argument _ => .single rfl (seated_lowerExpr argument)
  | .labeled _ body _ => .single rfl (seated_lowerStmt body)
  | .breakStmt .. => .leaf rfl
  | .continueStmt .. => .leaf rfl
  | .ifThen test consequent _ => .pair rfl (seated_lowerExpr test) (seated_lowerStmt consequent)
  | .ifElse test consequent alternate _ =>
    .triple rfl (seated_lowerExpr test) (seated_lowerStmt consequent) (seated_lowerStmt alternate)
  | .switchStmt subject cases _ => .node rfl (allSeated_cons (seated_lowerExpr subject)
    (allSeated_of_forall (fun _ _ => rfl) (seated_lowerCases cases)))
  | .tryStmt body handler finalizer _ => by
    have guarded : Seated .guarded (lowerBlock .tree () body) := seated_lowerBlock rfl body
    have catches := seated_lowerHandler handler
    have cleanup := seated_lowerFinalizer finalizer
    refine .node (by cases handler <;> cases finalizer <;> rfl) (allSeated_cons guarded ?_)
    cases handler with
    | absent => exact allSeated_of_forall (fun position _ => by simp [Kind.seat]) cleanup
    | bare =>
      exact allSeated_cons (catches _ (mem_singleton_self _))
        (allSeated_of_forall (fun position _ => by simp [Kind.seat]) cleanup)
    | binding =>
      exact allSeated_cons (catches _ (mem_singleton_self _))
        (allSeated_of_forall (fun position _ => by simp [Kind.seat]) cleanup)
  | .whileStmt test body _ => .pair rfl (seated_lowerExpr test) (seated_lowerStmt body)
  | .doWhile body test _ => .pair rfl (seated_lowerStmt body) (seated_lowerExpr test)
  | .forStmt init test update body _ => by
    refine .node (by cases init <;> cases test <;> cases update <;> rfl)
      (allSeated_append (allSeated_append (allSeated_append
      (allSeated_of_forall ?_ (seated_lowerForInit init))
      (allSeated_of_forall ?_ (seated_lowerOptional test)))
      (allSeated_of_forall ?_ (seated_lowerOptional update))) (allSeated_cons ?_ (allSeated_nil _)))
    all_goals simp only [Kind.seat, length_lowerOptional, length_lowerForInit, length_append]
    · exact fun position bound => if_pos bound
    · exact fun position bound => (if_neg (by omega)).trans (if_pos (by omega))
    · exact fun position bound => (if_neg (by omega)).trans (if_pos (by omega))
    · rw [if_neg (by omega), if_neg (by omega)]
      exact seated_lowerStmt body
  | .forIn head object body _ =>
    .triple rfl (seated_lowerForHead head) (seated_lowerExpr object) (seated_lowerStmt body)
  | .forOf head object body _ =>
    .triple rfl (seated_lowerForHead head) (seated_lowerExpr object) (seated_lowerStmt body)
  | .importDecl _ locals _ => .each rfl (fun _ => rfl)
    (forall_mem_map.mpr fun id _ => .leaf rfl)
  | .exportDefault value _ => .single rfl (seated_lowerExpr value)
  | .unsupported .. => .leaf rfl

theorem seated_lowerStmts :
    (stmts : List Stmt) → ∀ shape ∈ lowerStmts .tree () stmts, Seated .statement shape
  | [] => forall_mem_nil _
  | stmt :: rest => forall_mem_cons.mpr ⟨seated_lowerStmt stmt, seated_lowerStmts rest⟩

end

theorem seated_lowerProgram (program : Program) : Seated .top (lowerProgram .tree () program) :=
  .node rfl (allSeated_cons (.leaf rfl) (allSeated_cons (.leaf rfl)
    (allSeated_of_forall (fun _ _ => rfl) (seated_lowerStmts program.body))))

namespace Syntree

abbrev Seated : Seat → Syntree → Prop :=
  Rose.Seated Node.kind

theorem length_numberAll (starts ancestors : List Nat) (start : Nat) (shapes : List Shape) :
    (numberAll starts ancestors start shapes).length = shapes.length := by
  induction shapes generalizing start with
  | nil => rfl
  | cons shape rest ih => rw [numberAll, length_cons, length_cons, ih]

mutual

theorem seated_number (starts ancestors : List Nat) (start : Nat) : (shape : Shape) →
    {seat : Seat} → Shape.Seated seat shape → Seated seat (number starts ancestors start shape)
  | .node _ children, _, .node held below =>
    .node (by rwa [length_numberAll]) (seated_numberAll starts _ _ children below)

theorem seated_numberAll (starts ancestors : List Nat) (start : Nat) : (shapes : List Shape) →
    {seats : Nat → Seat} → AllSeated Prod.fst seats shapes →
    AllSeated Node.kind seats (numberAll starts ancestors start shapes)
  | [], seats, _ => allSeated_nil seats
  | shape :: rest, _, each => allSeated_cons
    (seated_number starts ancestors start shape (each 0 shape rfl))
    (seated_numberAll starts ancestors _ rest fun position other found =>
      each (position + 1) other found)

end

end Syntree

end Seepage

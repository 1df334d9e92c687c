import Seepage.Proofs.Scope.Surroundings

set_option autoImplicit false

namespace Seepage

open List Kind Syntree

variable {seat outer : Seat} {kind : Kind} {position scope : Nat} {trees children : List Syntree}
  {arena : Arena} {declared : DeclKind} {entry : Hoisted} {name : String} {child tree : Syntree}
  {form : Script.VarKind} {isBody : Bool} {node : Node}

namespace Seat

def declared? : Seat → Option DeclKind
  | .declarator kind | .binding kind | .member (some kind) => some kind
  | .imported => some .imported
  | .param => some .param
  | _ => none

theorem declared?_target (seat : Seat) : seat.target.declared? = seat.declared? := by
  unfold target
  split <;> try rfl
  unfold declared?
  split <;> simp_all

theorem declared?_of_inner {kind : DeclKind}
    (declares : seat.inner.declared? = some kind) : seat.declared? = some kind := by
  cases seat <;> first | exact declares | cases declares

def holdsStatements : Seat → Bool
  | .statement | .head | .case | .handler | .guarded | .finalizer => true
  | _ => false

end Seat

namespace Kind

def isPattern : Kind → Bool
  | .declarator _ | .assignPattern | .objectPattern | .property _ | .arrayPattern | .rest => true
  | _ => false

def isFrame : Kind → Bool
  | .block | .ifStmt _ | .forStmt .. | .forIn | .forOf | .whileStmt | .doWhile | .labeled _
  | .tryStmt .. | .catchClause _ | .switchStmt | .switchCase _ | .withStmt => true
  | _ => false

theorem isFrame_of_seat
    (statements : (kind.seat outer position).holdsStatements) : kind = .program ∨ kind.isFrame := by
  have target : outer.target.holdsStatements = false := by
    unfold Seat.target
    split <;> rfl
  have inner : outer.inner.holdsStatements = false := by
    unfold Seat.inner
    split <;> rfl
  cases kind with
  | program => exact .inl rfl
  | block | ifStmt | forStmt | forIn | forOf | whileStmt | doWhile | labeled | tryStmt
  | catchClause | switchStmt | switchCase | withStmt => exact .inr rfl
  | property key =>
    cases key <;> simp only [seat] at statements <;> (repeat' split at statements) <;>
      first | cases statements | (rw [target] at statements; cases statements)
  | _ =>
    simp only [seat] at statements
    repeat' split at statements
    all_goals first
      | cases statements
      | (rw [target] at statements; cases statements)
      | (rw [inner] at statements; cases statements)

theorem isValue_of_isFrame (frame : kind.isFrame) : kind.isValue = false := by
  cases kind <;> first | rfl | cases frame

theorem seat_of_isFrame (frame : kind.isFrame) (admitted : outer.admits kind) :
    outer.holdsStatements ∨ outer = .body ∧ kind = .block := by
  have noValue := isValue_of_isFrame frame
  cases outer with
  | statement | head | case | handler | guarded | finalizer => exact .inl rfl
  | body =>
    have isBlock : kind.isBlock := by simpa [Seat.admits, noValue] using admitted
    exact .inr ⟨rfl, eq_block isBlock⟩
  | _ => cases kind <;> first | (cases frame; done) | cases admitted

theorem seat_ne_top (kind : Kind) (outer : Seat) (position : Nat) :
    kind.seat outer position ≠ .top := by
  have target : outer.target ≠ .top := by
    unfold Seat.target
    split <;> nofun
  have inner : outer.inner ≠ .top := by
    unfold Seat.inner
    split <;> nofun
  unfold seat
  repeat' split
  all_goals first | exact target | exact inner | (intro same; cases same)

theorem eq_switchStmt_of_seat
    (isCase : kind.seat outer position = .case) : kind = .switchStmt ∧ 1 ≤ position := by
  have statements : (kind.seat outer position).holdsStatements := by rw [isCase]; rfl
  have frame := isFrame_of_seat statements
  cases kind with
  | switchStmt =>
    refine ⟨rfl, Nat.one_le_iff_ne_zero.mpr fun first => ?_⟩
    rw [seat, if_pos first] at isCase
    cases isCase
  | program | block | ifStmt | forStmt | forIn | forOf | whileStmt | doWhile | labeled | tryStmt
  | catchClause | switchCase | withStmt =>
    simp only [seat] at isCase
    repeat' split at isCase
    all_goals cases isCase
  | _ => rcases frame with frame | frame <;> cases frame

def isLexical : Kind → Bool
  | .varDecl .letBinding | .varDecl .constBinding | .importDecl _ => true
  | _ => false

def holdsLexical (kind : Kind) (position : Nat) : Bool :=
  match kind with
  | .program | .block | .switchCase _ => true
  | .forStmt hasInit _ _ => hasInit && position == 0
  | .forIn | .forOf => position == 0
  | _ => false

end Kind

def Arena.isGrammatical (arena : Arena) : Bool :=
  arena.ids.all fun id => !(arena.kind id).isLexical ||
    (arena.parent? id).any fun parent =>
      (arena.kind parent).holdsLexical ((arena.children parent).idxOf id)

namespace Resolution

def declaredIdents (seat : Seat) (tree : Syntree) : List Nat :=
  match seat with
  | .declarator _ => declaratorIdents [tree]
  | .binding _ | .imported | .param => Syntree.bindings false tree
  | .member (some _) => Syntree.bindings true tree
  | _ => []

section

variable {asMember : Bool} {node : Node} {children : List Syntree} {position : Nat}
  {child : Syntree}

theorem bindings_subset_bindingsAll (member : child ∈ trees) :
    bindings asMember child ⊆ bindingsAll asMember trees := by
  induction trees with
  | nil => cases member
  | cons tree rest ih =>
    obtain rfl | later := mem_cons.mp member
    · exact subset_append_left _ _
    · exact List.Subset.trans (ih later) (subset_append_right _ _)

theorem bindings_isIdent (isIdent : child.label.kind.isIdent) :
    bindings asMember child = [child.label.id] := by
  obtain ⟨⟨id, form, place, ancestors, ids⟩, children⟩ := child
  cases form with
  | ident => rfl
  | _ => cases isIdent

theorem declaredIdents_child {kind : DeclKind}
    (admitted : outer.admits node.kind) (declares : outer.declared? = some kind)
    (isPattern : node.kind.isPattern) (layout : node.kind.fits (children.map (·.label.kind)))
    (found : children[position]? = some child) :
    declaredIdents (node.kind.seat outer position) child ⊆
      declaredIdents outer (.node node children) := by
  have member := mem_of_getElem? found
  have bound := (List.getElem?_eq_some_iff.mp found).1
  obtain ⟨id, form, place, ancestors, ids⟩ := node
  cases outer with
  | declarator =>
    cases form with
    | declarator =>
      cases position with
      | zero =>
        obtain _ | ⟨first, rest⟩ := children <;> cases found
        simp [seat, Seat.target, declaredIdents, declaratorIdents, Rose.children]
      | succ => exact nil_subset _
    | _ => cases admitted
  | binding | param =>
    cases form with
    | assignPattern =>
      cases position with
      | zero =>
        obtain _ | ⟨first, rest⟩ := children <;> cases found
        exact List.Subset.refl _
      | succ => exact nil_subset _
    | objectPattern => exact bindings_subset_bindingsAll member
    | arrayPattern => exact bindings_subset_bindingsAll member
    | rest =>
      obtain rfl : position = 0 := by
        simp [fits] at layout
        omega
      obtain _ | ⟨first, rest⟩ := children <;> cases found
      exact List.Subset.refl _
    | declarator | property => cases admitted
    | _ => cases isPattern
  | member declared =>
    obtain _ | kind := declared
    · cases declares
    · cases form with
      | property key =>
        cases key with
        | named =>
          obtain rfl : position = 0 := by
            simp [fits] at layout
            omega
          obtain _ | ⟨first, rest⟩ := children <;> cases found
          exact List.Subset.refl _
        | computed =>
          obtain rfl | rfl : position = 0 ∨ position = 1 := by
            simp [fits] at layout
            omega
          · exact nil_subset _
          · obtain _ | ⟨first, _ | ⟨second, rest⟩⟩ := children <;> cases found
            exact List.Subset.refl _
      | rest =>
        obtain rfl : position = 0 := by
          simp [fits] at layout
          omega
        obtain _ | ⟨first, rest⟩ := children <;> cases found
        exact List.Subset.refl _
      | declarator | assignPattern | objectPattern | arrayPattern => cases admitted
      | _ => cases isPattern
  | imported => cases form <;> first | (cases isPattern; done) | cases admitted
  | _ => cases declares

theorem openedBy_isPattern (isPattern : node.kind.isPattern) :
    openedBy arena node children = none := by
  obtain ⟨id, form, place, ancestors, ids⟩ := node
  cases form with
  | declarator | assignPattern | objectPattern | property | arrayPattern | rest => rfl
  | _ => cases isPattern

end

theorem declared_seat (declares : (kind.seat outer position).declared? = some declared) :
    (kind.isPattern ∧ outer.declared? = some declared) ∨
    (∃ form, kind = .varDecl form ∧ declared = .ofVar form ∧
      kind.seat outer position = .declarator declared) ∨
    (∃ source, kind = .importDecl source ∧ kind.seat outer position = .imported ∧
      declared = .imported) ∨
    (∃ hasParam, kind = .catchClause hasParam ∧ position < hasParam.toNat ∧
      kind.seat outer position = .binding declared ∧ declared = .caught) ∨
    ∃ name form paramCount isExpr, kind = .function name form paramCount isExpr ∧
      2 ≤ position ∧ position < 2 + paramCount ∧
      kind.seat outer position = .param ∧ declared = .param := by
  have passes (same : kind.seat outer position = outer.target) :
      outer.declared? = some declared := by
    rw [same, Seat.declared?_target] at declares
    exact declares
  cases kind with
  | function name form paramCount isExpr =>
    refine .inr (.inr (.inr (.inr ⟨name, form, paramCount, isExpr, rfl, ?_⟩)))
    simp only [seat] at declares ⊢
    split at declares
    case isTrue => cases declares
    case isFalse late =>
      split at declares
      case isTrue early =>
        cases declares
        exact ⟨by omega, early, by rw [if_neg late, if_pos early], rfl⟩
      case isFalse => cases declares
  | varDecl form =>
    cases declares
    exact .inr (.inl ⟨form, rfl, rfl, rfl⟩)
  | importDecl source =>
    cases declares
    exact .inr (.inr (.inl ⟨source, rfl, rfl, rfl⟩))
  | catchClause hasParam =>
    refine .inr (.inr (.inr (.inl ⟨hasParam, rfl, ?_⟩)))
    simp only [seat] at declares ⊢
    split at declares
    case isTrue early =>
      cases declares
      exact ⟨early, if_pos early, rfl⟩
    case isFalse => cases declares
  | declarator | assignPattern =>
    refine .inl ⟨rfl, ?_⟩
    simp only [seat] at declares passes
    split at declares
    case isTrue first => exact passes (if_pos first)
    case isFalse => cases declares
  | property key =>
    refine .inl ⟨rfl, ?_⟩
    cases key with
    | named => exact passes rfl
    | computed =>
      simp only [seat] at declares passes
      split at declares
      case isTrue => cases declares
      case isFalse later => exact passes (if_neg later)
  | objectPattern => exact .inl ⟨rfl, Seat.declared?_of_inner declares⟩
  | arrayPattern | rest => exact .inl ⟨rfl, passes rfl⟩
  | _ =>
    simp only [seat] at declares
    repeat' split at declares
    all_goals cases declares

def lexicals (arena : Arena) (tree : Syntree) : List Hoisted :=
  (hoistedHere arena tree).filter fun entry => !entry.ownNode

def needs (arena : Arena) (seat : Seat) (tree : Syntree) : List String :=
  match seat with
  | .statement | .head | .handler | .guarded | .finalizer =>
    (hoistedVars arena tree ++ lexicals arena tree).map (·.name)
  | .case => (hoistedVars arena tree ++ tree.children.flatMap (lexicals arena)).map (·.name)
  | seat => (declaredIdents seat tree).filterMap arena.identName?

section

variable {arena : Arena} {seat : Seat} {tree : Syntree}

theorem needs_hoistedVars (statements : seat.holdsStatements)
    (member : entry ∈ hoistedVars arena tree) : entry.name ∈ needs arena seat tree := by
  cases seat <;> first
    | cases statements; done
    | exact mem_map_of_mem (mem_append_left _ member)

theorem needs_lexicals (statements : seat = .statement ∨ seat = .head)
    (member : entry ∈ lexicals arena tree) : entry.name ∈ needs arena seat tree := by
  rcases statements with rfl | rfl <;>
    exact mem_map_of_mem (mem_append_right _ member)

theorem needs_declared {kind : DeclKind} (declares : seat.declared? = some kind) :
    needs arena seat tree = (declaredIdents seat tree).filterMap arena.identName? := by
  cases seat <;> first | rfl | cases declares

theorem names_hoistIdents (kind : SymbolKind) (idents : List Nat) :
    (hoistIdents arena kind idents).map (·.name) = idents.filterMap arena.identName? := by
  rw [hoistIdents, map_filterMap]
  congr 1
  funext id
  cases arena.identName? id <;> rfl

theorem mem_lexicals {kind : SymbolKind} {idents : List Nat}
    (here : hoistedHere arena tree = hoistIdents arena kind idents)
    (member : name ∈ idents.filterMap arena.identName?) :
    name ∈ (lexicals arena tree).map (·.name) := by
  rw [← names_hoistIdents kind] at member
  obtain ⟨entry, listed, rfl⟩ := mem_map.mp member
  refine mem_map_of_mem (mem_filter.mpr ⟨here ▸ listed, ?_⟩)
  rw [ownNode_hoistIdents listed]
  rfl

theorem isLexical_of_mem (member : entry ∈ lexicals arena tree) : tree.label.kind.isLexical := by
  obtain ⟨listed, foreign⟩ := mem_filter.mp member
  unfold hoistedHere at listed
  simp only at listed
  split at listed
  case h_1 | h_2 =>
    obtain rfl := mem_singleton.mp listed
    cases foreign
  case h_3 same | h_4 same | h_5 same =>
    rw [same]
    rfl
  case h_6 => cases listed

variable {node : Node} {children : List Syntree}

theorem hoistedVars_isFrame (frame : node.kind.isFrame) :
    hoistedVars arena (.node node children) = hoistedVarsAll arena children := by
  obtain ⟨id, form, place, ancestors, ids⟩ := node
  cases form <;> first | rfl | cases frame

theorem mem_hoistedVarsAll :
    entry ∈ hoistedVarsAll arena trees ↔ ∃ tree ∈ trees, entry ∈ hoistedVars arena tree := by
  induction trees with
  | nil => simp [hoistedVarsAll]
  | cons tree rest ih => simp [hoistedVarsAll, ih]

end

section

variable {arena : Arena} {isBody : Bool} {scope next : Nat} {node : Node} {children : List Syntree}
  {opened : Opening} (same : opening arena isBody scope next node children = opened)
  {entry : Hoisted}

include same

theorem declare_own {kind : ScopeKind} {hoisted : List Hoisted}
    (opens : openedBy arena node children = some (kind, hoisted)) (noBlock : node.kind ≠ .block)
    (member : entry ∈ hoisted) : .declare opened.inner entry ∈ opened.own := by
  subst same
  obtain ⟨-, isBlock, -⟩ | ⟨-, ⟨kind', hoisted', opens', same⟩ | ⟨closed, -⟩⟩ :=
    opening_cases arena isBody scope next node children
  · exact absurd isBlock noBlock
  · rw [opens] at opens'
    cases opens'
    rw [same]
    exact mem_cons_of_mem _ (mem_map_of_mem member)
  · rw [opens] at closed
    cases closed

theorem declare_own_block (isBlock : node.kind = .block)
    (member : entry ∈ hoistedBlock arena children ∨
      isBody = true ∧ entry ∈ hoistedVarsAll arena children) :
    .declare opened.inner entry ∈ opened.own := by
  subst same
  have own : openedBy arena node children = some (.block, hoistedBlock arena children) := by
    simp [openedBy, opens, isBlock]
  obtain ⟨-, -, same⟩ | ⟨other, ⟨kind, hoisted, opened, same⟩ | ⟨closed, -⟩⟩ :=
    opening_cases arena isBody scope next node children
  · rw [same]
    refine mem_cons_of_mem _ (mem_map_of_mem (mem_append.mpr ?_))
    exact member.elim .inr fun var => .inl var.2
  · rw [own] at opened
    cases opened
    rw [same]
    refine mem_cons_of_mem _ (mem_map_of_mem ?_)
    exact member.resolve_right fun var => other ⟨var.1, isBlock⟩
  · rw [own] at closed
    cases closed

theorem declare_case (isSwitch : node.kind = .switchStmt) {case : Syntree}
    (found : children[position]? = some case) (late : 1 ≤ position)
    (member : entry ∈ hoistedBlock arena case.children) :
    .declare opened.inner entry ∈ opened.own := by
  have own : openedBy arena node children = some (.block, (children.drop 1).flatMap
      fun case => hoistedBlock arena case.children) := by
    simp [openedBy, opens, isSwitch]
  refine declare_own same own (by simp [isSwitch]) (mem_flatMap.mpr ⟨case, ?_, member⟩)
  refine mem_of_getElem? (i := position - 1) ?_
  rw [getElem?_drop, Nat.add_sub_cancel' late, found]

theorem declare_lexical (found : children[position]? = some child) (proper : node.kind ≠ .program)
    (holds : node.kind.holdsLexical position) (member : entry ∈ hoistedHere arena child) :
    node.kind.isCase ∨ .declare opened.inner entry ∈ opened.own := by
  have head (loop : openedBy arena node children =
        some (.forLoop, hoistedBlock arena (children.take 1))) (noBlock : node.kind ≠ .block)
      (first : position = 0) : .declare opened.inner entry ∈ opened.own := by
    subst first
    refine declare_own same loop noBlock (mem_flatMap.mpr ⟨child, ?_, member⟩)
    refine mem_of_getElem? (i := 0) ?_
    rw [getElem?_take_of_lt Nat.one_pos, found]
  unfold holdsLexical at holds
  split at holds
  case h_1 isProgram => exact absurd isProgram proper
  case h_2 isBlock =>
    exact .inr (declare_own_block same isBlock (.inl (mem_flatMap.mpr
      ⟨child, mem_of_getElem? found, member⟩)))
  case h_3 isCase =>
    rw [isCase]
    exact .inl rfl
  case h_4 isLoop =>
    rw [Bool.and_eq_true, beq_iff_eq] at holds
    exact .inr (head (by simp [openedBy, opens, isLoop]) (by simp [isLoop]) holds.2)
  case h_5 isLoop | h_6 isLoop =>
    exact .inr (head (by simp [openedBy, opens, isLoop]) (by simp [isLoop])
      (beq_iff_eq.mp holds))
  case h_7 => cases holds

end

theorem exists_parameter {count : Nat} (found : trees[position]? = some child)
    (early : position < count)
    (needed : name ∈ (declaredIdents .param child).filterMap arena.identName?) :
    ∃ entry ∈ hoistIdents arena .parameter ((trees.take count).flatMap (bindings false)),
      entry.name = name := by
  have taken : child ∈ trees.take count := mem_of_getElem? (i := position) (by
    rw [getElem?_take_of_lt early, found])
  have idents : declaredIdents .param child ⊆
      (trees.take count).flatMap (bindings false) := fun id bound =>
    mem_flatMap.mpr ⟨child, taken, bound⟩
  have needed := filterMap_subset arena.identName? idents needed
  rw [← names_hoistIdents .parameter] at needed
  exact mem_map.mp needed

theorem holdsLexical_of_isGrammatical (well : arena.WellNumbered)
    {parent : Syntree} (inside : parent ∈ arena.tree.subtrees)
    (found : parent.children[position]? = some child) (grammatical : arena.isGrammatical)
    (lexical : child.label.kind.isLexical) : parent.label.kind.holdsLexical position := by
  have below := mem_of_getElem? found
  have deeper := Rose.child_inside below inside
  have known := all_eq_true.mp grammatical child.label.id
    (mem_range.mpr (well.id_lt deeper))
  rw [well.kind_eq deeper, lexical, well.parent_child inside below,
    Option.any_some, well.kind_eq inside, well.idxOf_child inside found] at known
  exact known

def Supplied (arena : Arena) (seat : Seat) (tree : Syntree) (opened : Opening) (name : String) :
    Prop :=
  name ∈ needs arena seat tree ∨
    ∃ entry, .declare opened.inner entry ∈ opened.own ∧ entry.name = name

section

variable {arena : Arena} {isBody : Bool} {scope next : Nat} {node : Node} {children : List Syntree}
  {opened : Opening} (same : opening arena isBody scope next node children = opened) {seat : Seat}
  {position : Nat} {child : Syntree} (found : children[position]? = some child)
  (admitted : seat.admits node.kind)

theorem declaratorIdents_child (member : child ∈ children) :
    declaratorIdents [child] ⊆ declaratorIdents children := by
  intro id listed
  obtain ⟨declarator, held, bound⟩ := mem_flatMap.mp listed
  obtain rfl := mem_singleton.mp held
  exact mem_flatMap.mpr ⟨declarator, member, bound⟩

theorem hoistedHere_varDecl {form : Script.VarKind} (isVar : node.kind = .varDecl form)
    (lexical : form ≠ .varBinding) : ∃ kind, hoistedHere arena (.node node children) =
      hoistIdents arena kind (declaratorIdents children) := by
  cases form with
  | varBinding => exact absurd rfl lexical
  | letBinding | constBinding =>
    simp only [hoistedHere, Rose.label, isVar, Rose.children]
    exact ⟨_, rfl⟩

theorem seat_of_varDecl (admits : seat.admits (.varDecl form)) :
    seat = .statement ∨ seat = .head := by
  cases seat <;> first | exact .inl rfl | exact .inr rfl | cases admits

include admitted in
theorem needs_varDecl (isVar : node.kind = .varDecl form) (member : child ∈ children)
    (needed : name ∈ (declaredIdents (.declarator declared) child).filterMap arena.identName?) :
    name ∈ needs arena seat (.node node children) := by
  have stands := seat_of_varDecl (isVar ▸ admitted)
  have needed := filterMap_subset arena.identName? (declaratorIdents_child member) needed
  by_cases lexical : form = .varBinding
  · have vars : hoistedVars arena (.node node children) =
        hoistIdents arena .variable (declaratorIdents children) := by
      simp [hoistedVars, isVar, lexical]
    rw [← names_hoistIdents .variable, ← vars] at needed
    obtain ⟨entry, listed, rfl⟩ := mem_map.mp needed
    exact needs_hoistedVars (by rcases stands with rfl | rfl <;> rfl) listed
  · obtain ⟨kind, here⟩ := @hoistedHere_varDecl arena _ children _ isVar lexical
    obtain ⟨entry, listed, rfl⟩ := mem_map.mp (mem_lexicals here needed)
    exact needs_lexicals stands listed

include same found admitted

theorem supplied_var (frame : node.kind.isFrame) (body : seat = .body → isBody = true)
    (member : entry ∈ hoistedVars arena child) :
    Supplied arena seat (.node node children) opened entry.name := by
  have all : entry ∈ hoistedVarsAll arena children :=
    mem_hoistedVarsAll.mpr ⟨child, mem_of_getElem? found, member⟩
  obtain statements | ⟨rfl, isBlock⟩ := seat_of_isFrame frame admitted
  · refine .inl (needs_hoistedVars statements ?_)
    rw [hoistedVars_isFrame frame]
    exact all
  · exact .inr ⟨entry, declare_own_block same isBlock (.inr ⟨body rfl, all⟩), rfl⟩

variable (well : arena.WellNumbered) (inside : .node node children ∈ arena.tree.subtrees)

include well inside

theorem supplied_declared (laid : arena.LaidOut)
    (declares : (node.kind.seat seat position).declared? = some declared)
    (needed : name ∈ needs arena (node.kind.seat seat position) child) :
    Supplied arena seat (.node node children) opened name := by
  rw [needs_declared declares] at needed
  have member := mem_of_getElem? found
  have layout := laid.layout inside
  obtain ⟨isPattern, outer⟩ | ⟨form, isVar, -, place⟩ | ⟨source, isImport, place, -⟩ |
    ⟨hasParam, isCatch, early, place, -⟩ | ⟨own, form, paramCount, isExpr, isFunction, late, early,
      place, -⟩ := declared_seat declares
  · refine .inl ?_
    rw [needs_declared outer]
    have fewer := declaredIdents_child admitted outer isPattern layout found
    exact filterMap_subset _ fewer needed
  · exact .inl (needs_varDecl admitted isVar member (place ▸ needed))
  · have stands : seat = .statement := by
      rw [isImport] at admitted
      cases seat <;> first | rfl | cases admitted
    have ids : node.children = children.map (·.label.id) := (well.numbered.subtree inside).2.2.1
    have here : hoistedHere arena (.node node children) =
        hoistIdents arena .imported (children.map (·.label.id)) := by
      simp [hoistedHere, Rose.label, isImport, ids]
    have isIdent : child.label.kind.isIdent := by
      rw [isImport, fits, all_eq_true] at layout
      exact layout _ (mem_map_of_mem member)
    rw [place] at needed
    subst stands
    have idents : bindings false child ⊆ children.map (·.label.id) := by
      rw [bindings_isIdent isIdent]
      exact cons_subset.mpr ⟨mem_map_of_mem member, nil_subset _⟩
    obtain ⟨entry, listed, rfl⟩ := mem_map.mp
      (mem_lexicals here (filterMap_subset _ idents needed))
    exact .inl (needs_lexicals (.inl rfl) listed)
  · obtain ⟨rfl, rfl⟩ : hasParam = true ∧ position = 0 := by
      cases hasParam with
      | false => exact absurd early (Nat.not_lt_zero _)
      | true => exact ⟨rfl, Nat.lt_one_iff.mp early⟩
    have own : openedBy arena node children = some (.caught, hoistIdents arena .parameter
        ((children.take 1).flatMap (bindings false))) := by
      simp [openedBy, opens, isCatch]
    rw [place] at needed
    obtain ⟨entry, listed, named⟩ := exists_parameter found Nat.one_pos needed
    have noBlock : node.kind ≠ .block := by simp [isCatch]
    exact .inr ⟨entry, declare_own same own noBlock listed, named⟩
  · have owns : (Rose.node node children).label.kind.isOwner := by
      rw [Rose.label, isFunction]
      rfl
    obtain ⟨entry, exit, parts, same', -⟩ := laid.exists_ends inside owns
    obtain rfl : children = entry :: exit :: parts := same'
    have head : openedBy arena node (entry :: exit :: parts) =
        some (.function, headHoisted arena node paramCount parts) := by
      simp [openedBy, isFunction]
    obtain ⟨index, rfl⟩ := Nat.exists_eq_add_of_le' late
    have part : parts[index]? = some child := found
    rw [place] at needed
    have early : index < paramCount := by omega
    obtain ⟨entry', listed, named⟩ := exists_parameter part early needed
    have noBlock : node.kind ≠ .block := by simp [isFunction]
    refine .inr ⟨entry', declare_own same head noBlock ?_, named⟩
    exact mem_append_right _ listed

theorem supplied_lexical (proper : node.kind ≠ .program) (grammatical : arena.isGrammatical)
    (member : entry ∈ lexicals arena child) :
    Supplied arena seat (.node node children) opened entry.name := by
  have here : entry ∈ hoistedHere arena child := (mem_filter.mp member).1
  have holds : node.kind.holdsLexical position :=
    holdsLexical_of_isGrammatical well inside found grammatical (isLexical_of_mem member)
  obtain isCase | own := declare_lexical same found proper holds here
  · obtain ⟨isDefault, isCase⟩ := exists_of_isCase isCase
    have stands : seat = .case := by
      rw [isCase] at admitted
      cases seat <;> first | rfl | cases admitted
    subst stands
    exact .inl (mem_map_of_mem (mem_append_right _ (mem_flatMap.mpr
      ⟨child, mem_of_getElem? found, member⟩)))
  · exact .inr ⟨entry, own, rfl⟩

theorem supplied_statements (statements : (node.kind.seat seat position).holdsStatements)
    (body : seat = .body → isBody = true) (proper : node.kind ≠ .program)
    (grammatical : arena.isGrammatical)
    (needed : name ∈ needs arena (node.kind.seat seat position) child) :
    Supplied arena seat (.node node children) opened name := by
  have frame := (isFrame_of_seat statements).resolve_left proper
  have vars {entry : Hoisted} (member : entry ∈ hoistedVars arena child) :=
    supplied_var same found admitted frame body member
  have lexicals {entry : Hoisted} (member : entry ∈ lexicals arena child) :=
    supplied_lexical same found admitted well inside proper grammatical member
  cases place : node.kind.seat seat position with
  | statement | head | handler | guarded | finalizer =>
    rw [place] at needed
    obtain ⟨entry, listed, rfl⟩ := mem_map.mp needed
    exact (mem_append.mp listed).elim vars lexicals
  | case =>
    rw [place] at needed
    obtain ⟨entry, listed, rfl⟩ := mem_map.mp needed
    refine (mem_append.mp listed).elim vars fun inCase => ?_
    obtain ⟨isSwitch, late⟩ := eq_switchStmt_of_seat place
    obtain ⟨stmt, held, member⟩ := mem_flatMap.mp inCase
    have here := mem_flatMap.mpr ⟨stmt, held, (mem_filter.mp member).1⟩
    exact .inr ⟨entry, declare_case same isSwitch found late here, rfl⟩
  | _ =>
    rw [place] at statements
    cases statements

end

theorem needs_cases (needed : name ∈ needs arena seat tree) :
    seat.holdsStatements ∨ ∃ kind, seat.declared? = some kind := by
  cases seat with
  | statement | head | case | handler | guarded | finalizer => exact .inl rfl
  | declarator kind | binding kind => exact .inr ⟨kind, rfl⟩
  | imported => exact .inr ⟨.imported, rfl⟩
  | param => exact .inr ⟨.param, rfl⟩
  | member declared =>
    cases declared with
    | none => cases needed
    | some kind => exact .inr ⟨kind, rfl⟩
  | top | marker | body | property | field | value | key | updated => cases needed

theorem isSome_findLocal?_run {moves : List Move} {place : Nat}
    (member : .declare place entry ∈ moves) (resolution : Resolution) :
    ((run resolution moves).symbols.findLocal? entry.name place).isSome := by
  obtain ⟨before, after, rfl⟩ := append_of_mem member
  rw [run_append]
  obtain ⟨symbol, found⟩ := (run resolution before).symbols.exists_findLocal?_declare entry.name
    entry.kind place entry.node
  have still := extends_run ((run resolution before).declare place entry) after
  exact Option.isSome_of_eq_some (still.kept _ _ _ found)

theorem Supplied.finds {opened : Opening} {resolution : Resolution}
    (supplied : Supplied arena seat (.node node children) opened name)
    (known : scope < resolution.scopes.size)
    (same : opening arena isBody scope resolution.scopes.size node children = opened)
    (outer : ∀ name ∈ needs arena seat (.node node children), resolution.Finds scope name) :
    (run resolution opened.own).Finds opened.inner name := by
  refine finds_iff.mpr ?_
  obtain needed | ⟨entry, member, rfl⟩ := supplied
  · obtain ⟨place, above, found⟩ := finds_iff.mp (outer name needed)
    obtain ⟨symbol, found⟩ := Option.isSome_iff_exists.mp found
    have still := (extends_run resolution opened.own).kept _ _ _ found
    refine ⟨place, ?_, Option.isSome_of_eq_some still⟩
    obtain chain | ⟨chain, -⟩ := chain_opening known same
    · rw [chain]
      exact above
    · rw [chain]
      exact mem_cons_of_mem _ above
  · exact ⟨opened.inner, mem_cons_self, isSome_findLocal?_run member _⟩

def Covered (arena : Arena) (seat : Seat) (tree : Syntree) (isBody : Bool) (scope : Nat)
    (before : List Move) : Prop :=
  seat ≠ .top ∧ (seat = .body → isBody = true) ∧
    ∀ name ∈ needs arena seat tree, (run bare before).Finds scope name

section

variable {arena : Arena} (well : arena.WellNumbered) (laid : arena.LaidOut)

theorem covered_top {stmt : Syntree} (member : stmt ∈ arena.tree.children.drop 2)
    (left : List Move) :
    Covered arena .statement stmt false globalScope (topHoisted arena ++ left) := by
  refine ⟨nofun, nofun, fun name needed => ?_⟩
  obtain ⟨entry, listed, rfl⟩ := mem_map.mp needed
  have hoisted : entry ∈ globalHoisted arena := by
    refine mem_append.mpr ((mem_append.mp listed).imp (fun var => ?_) fun lexical => ?_)
    · exact mem_hoistedVarsAll.mpr ⟨stmt, member, var⟩
    · exact mem_flatMap.mpr ⟨stmt, member, (mem_filter.mp lexical).1⟩
  have declared : .declare globalScope entry ∈ topHoisted arena ++ left :=
    mem_append_left _ (mem_cons_of_mem _ (mem_map_of_mem hoisted))
  exact finds_iff.mpr ⟨globalScope, mem_cons_self, isSome_findLocal?_run declared _⟩

include well laid

theorem covered_child (grammatical : arena.isGrammatical) {before after : List Move}
    (inside : .node node children ∈ arena.tree.subtrees)
    (seated : Syntree.Seated seat (.node node children))
    (visits : Visits arena (.node node children) isBody scope before after)
    (covered : Covered arena seat (.node node children) isBody scope before)
    (found : children[position]? = some child) {opened : Opening}
    (same : opening arena isBody scope (2 + entered before) node children = opened) {isBody' : Bool}
    (body : node.kind.seat seat position = .body → isBody' = true) (left : List Move) :
    Covered arena (node.kind.seat seat position) child isBody' opened.inner
      (before ++ opened.own ++ left) := by
  obtain ⟨proper, wasBody, outer⟩ := covered
  have admitted : seat.admits node.kind := seated.admits
  obtain ⟨-, size⟩ := grounded_before visits.whole
  refine ⟨seat_ne_top _ _ _, body, fun name needed => ?_⟩
  have supplied : Supplied arena seat (.node node children) opened name := by
    obtain statements | ⟨kind, declares⟩ := needs_cases needed
    · refine supplied_statements same found admitted well inside statements wasBody ?_ grammatical
        needed
      intro isProgram
      rw [isProgram] at admitted
      cases seat <;> first | exact proper rfl | cases admitted
    · exact supplied_declared same found admitted well inside laid declares needed
  have known : scope < (run bare before).scopes.size := size ▸ visits.known
  have inner := (visits.known_inner same).1
  rw [← size] at same
  have finds := supplied.finds known same outer
  rw [run_append, run_append]
  refine finds.run ?_ left
  rw [size_run, size]
  rwa [entered_append, ← Nat.add_assoc] at inner

theorem finds_declared (grammatical : arena.isGrammatical) (inside : tree ∈ arena.tree.subtrees)
    {kind : DeclKind} (isIdent : tree.label.kind = .ident name (.declare kind)) :
    ∃ isBody scope before after, Visits arena tree isBody scope before after ∧
      (run bare before).Finds scope name := by
  obtain rfl | isEntry | isExit | ⟨seat, isBody, scope, before, after, sits, visits, covered⟩ :=
    visits_everywhere well laid (fun stmt member left _ _ => covered_top member left)
      (fun seat node children isBody scope before after inside sits visits covered position child
          found opened same isBody' left right _ body _ =>
        covered_child well laid grammatical inside sits visits covered found same body.mp left)
      inside
  · rw [laid.program] at isIdent
    cases isIdent
  · rw [isEntry] at isIdent
    cases isIdent
  · rw [isExit] at isIdent
    cases isIdent
  · refine ⟨isBody, scope, before, after, visits, covered.2.2 name ?_⟩
    have admitted : seat.admits tree.label.kind := sits.admits
    have place : seat = .imported ∨ seat = .param ∨ ∃ declared, seat = .binding declared := by
      rw [isIdent] at admitted
      cases seat <;>
        first | exact .inl rfl | exact .inr (.inl rfl) | exact .inr (.inr ⟨_, rfl⟩) | cases admitted
    have bound : bindings false tree = [tree.label.id] :=
      bindings_isIdent (by rw [isIdent]; rfl)
    have named : arena.identName? tree.label.id = some name := by
      rw [Arena.identName?, well.kind_eq inside, isIdent]
    obtain rfl | rfl | ⟨declared, rfl⟩ := place <;> simp [needs, declaredIdents, bound, named]

end

end Resolution

end Seepage

import Seepage.Proofs.Scope.Coverage
import Seepage.Proofs.Scope.Reference

set_option autoImplicit false

namespace Seepage

open List

variable {arena : Arena} {node : Node} {children : List Syntree} {position id home symbol : Nat}
  {tree : Syntree} {kind : DeclKind} {name : String}

def Kind.isVarDecl : Kind → Bool
  | .varDecl _ => true
  | _ => false

namespace Arena

def region? (arena : Arena) (stmt : Nat) : Option Nat :=
  (arena.parent? stmt).bind fun parent =>
    if (arena.kind parent).holdsLexical ((arena.children parent).idxOf stmt) then
      match arena.kind parent with
      | .program => none
      | .switchCase _ => arena.parent? parent
      | _ => some parent
    else none

-- The region of a name that is declared by `let`, `const` or `class`.
def home? (arena : Arena) (id : Nat) : Option Nat :=
  match arena.kind id with
  | .ident _ (.declare .let) | .ident _ (.declare .const) =>
    ((arena.ancestors id).find? fun above => (arena.kind above).isVarDecl).bind arena.region?
  | .classDef (some _) true _ => arena.region? id
  | _ => none

theorem region?_cases (well : arena.WellNumbered)
    (inside : .node node children ∈ arena.tree.subtrees) {child : Syntree}
    (found : children[position]? = some child) {region : Nat}
    (isRegion : arena.region? child.label.id = some region) :
    node.kind ≠ .program ∧ node.kind.holdsLexical position ∧
      (node.kind.isCase ∧ arena.parent? node.id = some region ∨
        node.kind.isCase = false ∧ region = node.id) := by
  have below : child ∈ (Rose.node node children).children := mem_of_getElem? found
  have parent : arena.parent? child.label.id = some node.id := well.parent_child inside below
  have kind : arena.kind node.id = node.kind := well.kind_eq inside
  have place : (arena.children node.id).idxOf child.label.id = position :=
    well.idxOf_child inside found
  simp only [region?, parent, Option.bind_some, kind, place] at isRegion
  split at isRegion
  case isFalse => cases isRegion
  case isTrue holds =>
    split at isRegion
    case h_1 => cases isRegion
    case h_2 isCase =>
      rw [isCase] at holds ⊢
      exact ⟨nofun, holds, .inl ⟨rfl, isRegion⟩⟩
    case h_3 proper noCase =>
      refine ⟨proper, holds, .inr ⟨?_, (Option.some.inj isRegion).symm⟩⟩
      cases same : node.kind with
      | switchCase isDefault => exact absurd same (noCase isDefault)
      | _ => rfl

theorem exists_home (well : arena.WellNumbered) (isHome : arena.home? id = some home) :
    ∃ tree ∈ arena.tree.subtrees, tree.label.id = home ∧ ∃ child, child ∈ tree.children := by
  obtain ⟨stmt, isRegion⟩ : ∃ stmt, arena.region? stmt = some home := by
    unfold home? at isHome
    split at isHome
    case h_1 | h_2 =>
      obtain ⟨stmt, -, isRegion⟩ := Option.bind_eq_some_iff.mp isHome
      exact ⟨stmt, isRegion⟩
    case h_3 => exact ⟨id, isHome⟩
    case h_4 => cases isHome
  obtain ⟨node, parent, isRegion⟩ := Option.bind_eq_some_iff.mp isRegion
  obtain ⟨child, above⟩ : ∃ child, arena.parent? child = some home := by
    split at isRegion
    case isFalse => cases isRegion
    case isTrue =>
      split at isRegion
      case h_1 => cases isRegion
      case h_2 => exact ⟨node, isRegion⟩
      case h_3 => exact ⟨stmt, isRegion ▸ parent⟩
  obtain ⟨tree, inside, same, part, member, -⟩ := well.exists_of_parent? above
  exact ⟨tree, inside, same, part, member⟩

end Arena

namespace Resolution

def homeAt? (arena : Arena) (seat : Seat) (tree : Syntree) : Option Nat :=
  match seat.declared? with
  | some .let | some .const =>
    ((arena.ancestors tree.label.id).find? fun above => (arena.kind above).isVarDecl).bind
      arena.region?
  | some _ => none
  | none => if seat = .case then arena.parent? tree.label.id else arena.region? tree.label.id

def housed (arena : Arena) (seat : Seat) (tree : Syntree) : List String :=
  match seat.declared? with
  | some _ => (declaredIdents seat tree).filterMap arena.identName?
  | none =>
    if seat = .case then (hoistedBlock arena tree.children).map (·.name)
    else (hoistedHere arena tree).map (·.name)

def Homed (arena : Arena) (seat : Seat) (tree : Syntree) (scope : Nat) (before : List Move) :
    Prop :=
  ∀ home, homeAt? arena seat tree = some home →
    (ofArena arena).scopeOf[home]? = some scope ∧
    ∀ name ∈ housed arena seat tree, ((run bare before).symbols.findLocal? name scope).isSome

section

variable {arena : Arena} {isBody : Bool} {scope next : Nat} {node : Node} {children : List Syntree}
  {opened : Opening} (same : opening arena isBody scope next node children = opened)

include same

theorem opening_closed (noBlock : node.kind ≠ .block)
    (closed : openedBy arena node children = none) : opened.own = [] ∧ opened.inner = scope := by
  subst same
  obtain ⟨-, isBlock, -⟩ | ⟨-, ⟨kind, hoisted, opens, -⟩ | ⟨-, same⟩⟩ :=
    opening_cases arena isBody scope next node children
  · exact absurd isBlock noBlock
  · rw [closed] at opens
    cases opens
  · rw [same]
    exact ⟨rfl, rfl⟩

theorem own_ne_nil (opens : (openedBy arena node children).isSome) : opened.own ≠ [] := by
  subst same
  obtain ⟨-, -, same⟩ | ⟨-, ⟨kind, hoisted, -, same⟩ | ⟨closed, -⟩⟩ :=
    opening_cases arena isBody scope next node children
  · rw [same]
    exact cons_ne_nil _ _
  · rw [same]
    exact cons_ne_nil _ _
  · rw [closed] at opens
    cases opens

end

theorem openedBy_of_holdsLexical (proper : node.kind ≠ .program) (noCase : node.kind.isCase = false)
    (holds : node.kind.holdsLexical position) : (openedBy arena node children).isSome := by
  obtain ⟨id, form, place, ancestors, ids⟩ := node
  cases form with
  | program => exact absurd rfl proper
  | switchCase => cases noCase
  | block | forStmt | forIn | forOf => rfl
  | _ => cases holds

theorem Homed.mono {seat seat' : Seat} {tree' : Syntree} {scope : Nat}
    {before : List Move} (homed : Homed arena seat tree scope before)
    (same : homeAt? arena seat' tree' = homeAt? arena seat tree)
    (fewer : housed arena seat' tree' ⊆ housed arena seat tree) (more : List Move) :
    Homed arena seat' tree' scope (before ++ more) := by
  intro home isHome
  obtain ⟨there, declared⟩ := homed home (same ▸ isHome)
  refine ⟨there, fun name member => ?_⟩
  obtain ⟨symbol, found⟩ := Option.isSome_iff_exists.mp (declared name (fewer member))
  rw [run_append]
  exact Option.isSome_of_eq_some ((extends_run _ more).kept _ _ _ found)

section

variable {arena : Arena} (well : arena.WellNumbered) (laid : arena.LaidOut) {node : Node}
  {children : List Syntree} (inside : .node node children ∈ arena.tree.subtrees) {isBody : Bool}
  {scope : Nat} {before after : List Move}
  (visits : Visits arena (.node node children) isBody scope before after) {seat : Seat}
  {opened : Opening} (same : opening arena isBody scope (2 + entered before) node children = opened)
  {position : Nat} {child : Syntree} (found : children[position]? = some child)

include well inside visits same

theorem homed_own {place : Seat} (left : List Move) (noIdent : node.kind.isIdent = false)
    (opens : (openedBy arena node children).isSome)
    (self : ∀ home, homeAt? arena place child = some home → home = node.id)
    (own : ∀ name ∈ housed arena place child, ∃ entry, .declare opened.inner entry ∈ opened.own ∧
      entry.name = name) : Homed arena place child opened.inner (before ++ opened.own ++ left) := by
  intro home isHome
  obtain rfl := self home isHome
  refine ⟨?_, fun name member => ?_⟩
  · rw [visits.scopeOf_opened well inside noIdent same, if_neg (own_ne_nil same opens)]
  · obtain ⟨entry, declared, rfl⟩ := own name member
    refine isSome_findLocal?_run ?_ _
    exact mem_append_left _ (mem_append_right _ declared)

variable (admitted : seat.admits node.kind)
  (homed : Homed arena seat (.node node children) scope before)

include found admitted homed

omit visits in
theorem homed_declared (laid : arena.LaidOut) (left : List Move)
    (declares : (node.kind.seat seat position).declared? = some kind) :
    Homed arena (node.kind.seat seat position) child opened.inner
      (before ++ opened.own ++ left) := by
  have member := mem_of_getElem? found
  have path : arena.ancestors child.label.id = node.id :: arena.ancestors node.id :=
    path_child well inside member
  have own : arena.kind node.id = node.kind := well.kind_eq inside
  obtain ⟨isPattern, outer⟩ | ⟨form, isVar, rfl, place⟩ | ⟨source, -, -, rfl⟩ |
    ⟨hasParam, -, -, -, rfl⟩ | ⟨_, _, _, _, -, -, -, -, rfl⟩ := declared_seat declares
  · have noBlock : node.kind ≠ .block := fun isBlock => by
      rw [isBlock] at isPattern
      cases isPattern
    have noVar : node.kind.isVarDecl = false := by
      cases same : node.kind with
      | varDecl => rw [same] at isPattern; cases isPattern
      | _ => rfl
    obtain ⟨empty, inner⟩ := opening_closed same noBlock (openedBy_isPattern isPattern)
    rw [empty, inner, append_nil]
    refine homed.mono ?_ ?_ left
    · simp only [homeAt?, declares, outer, path, find?_cons, own, noVar]
      cases kind <;> rfl
    · simp only [housed, declares, outer]
      exact filterMap_subset _
        (declaredIdents_child admitted outer isPattern (laid.layout inside) found)
  · have noBlock : node.kind ≠ .block := by simp [isVar]
    have closed : openedBy arena node children = none := by simp [openedBy, opens, isVar]
    obtain ⟨empty, inner⟩ := opening_closed same noBlock closed
    rw [empty, inner, append_nil]
    by_cases lexical : form = .varBinding
    · subst lexical
      intro home isHome
      simp only [homeAt?, declares, DeclKind.ofVar] at isHome
      cases isHome
    · obtain ⟨kind, here⟩ := @hoistedHere_varDecl arena _ children _ isVar lexical
      have stands : seat.declared? = none ∧ seat ≠ .case := by
        rcases seat_of_varDecl (isVar ▸ admitted) with rfl | rfl <;> simp [Seat.declared?]
      refine homed.mono ?_ ?_ left
      · have first : (arena.kind node.id).isVarDecl := by
          rw [own, isVar]
          rfl
        simp only [homeAt?, declares, stands, path, find?_cons, first]
        cases form with
        | varBinding => exact absurd rfl lexical
        | letBinding | constBinding => rfl
      · simp only [housed, stands, here, names_hoistIdents, place]
        exact filterMap_subset _ (declaratorIdents_child member)
  all_goals
    intro home isHome
    simp only [homeAt?, declares] at isHome
    cases isHome

theorem homed_statement (noIdent : node.kind.isIdent = false) (left : List Move)
    (plain : (node.kind.seat seat position).declared? = none) :
    Homed arena (node.kind.seat seat position) child opened.inner
      (before ++ opened.own ++ left) := by
  have member := mem_of_getElem? found
  have parent : arena.parent? child.label.id = some node.id := well.parent_child inside member
  by_cases isCase : node.kind.seat seat position = .case
  · obtain ⟨isSwitch, late⟩ := Kind.eq_switchStmt_of_seat isCase
    have opens : (openedBy arena node children).isSome := by simp [openedBy, opens, isSwitch]
    refine homed_own well inside visits same left noIdent opens ?_ ?_
    · intro home isHome
      simp only [homeAt?, isCase, if_true, parent] at isHome
      exact (Option.some.inj isHome).symm
    · intro name housed
      simp only [Resolution.housed, isCase, if_true] at housed
      obtain ⟨entry, listed, rfl⟩ := mem_map.mp housed
      exact ⟨entry, declare_case same isSwitch found late listed, rfl⟩
  · have names : housed arena (node.kind.seat seat position) child =
        (hoistedHere arena child).map (·.name) := by
      simp only [housed, plain, isCase, if_false]
    have place : homeAt? arena (node.kind.seat seat position) child =
        arena.region? child.label.id := by
      simp only [homeAt?, plain, isCase, if_false]
    intro home isHome
    obtain ⟨proper, holds, ⟨inCase, above⟩ | ⟨noCase, rfl⟩⟩ :=
      Arena.region?_cases well inside found (place ▸ isHome)
    · obtain ⟨isDefault, kind⟩ := Kind.exists_of_isCase inCase
      have stands : seat = .case := by
        rw [kind] at admitted
        cases seat <;> first | rfl | cases admitted
      subst stands
      obtain ⟨empty, inner⟩ := opening_closed same (by simp [kind])
        (by simp [openedBy, opens, kind])
      rw [empty, inner, append_nil]
      refine homed.mono (isHome.trans above.symm) ?_ left home isHome
      rw [names]
      exact map_subset _ fun entry listed => mem_flatMap.mpr ⟨child, member, listed⟩
    · refine homed_own well inside visits same left noIdent
        (openedBy_of_holdsLexical proper noCase holds) ?_ ?_ node.id isHome
      · intro home isHome'
        rw [isHome] at isHome'
        exact (Option.some.inj isHome').symm
      · intro name housed
        rw [names] at housed
        obtain ⟨entry, listed, rfl⟩ := mem_map.mp housed
        have own := (declare_lexical same found proper holds listed).resolve_left (by simp [noCase])
        exact ⟨entry, own, rfl⟩

theorem homed_child (laid : arena.LaidOut) (left : List Move) :
    Homed arena (node.kind.seat seat position) child opened.inner
      (before ++ opened.own ++ left) := by
  cases declares : (node.kind.seat seat position).declared? with
  | some kind => exact homed_declared well inside same found admitted homed laid left declares
  | none =>
    have noIdent := (laid.ne_of_child inside (mem_of_getElem? found)).2.2
    exact homed_statement well inside visits same found admitted homed noIdent left declares

end

section

variable {arena : Arena} (well : arena.WellNumbered) (laid : arena.LaidOut)

include well laid

theorem homed_top {stmt : Syntree} (member : stmt ∈ arena.tree.children.drop 2)
    (before : List Move) : Homed arena .statement stmt globalScope before := by
  intro home isHome
  obtain ⟨node, children, same⟩ : ∃ node children, arena.tree = .node node children := by
    cases arena.tree
    exact ⟨_, _, rfl⟩
  have inside : .node node children ∈ arena.tree.subtrees := same ▸ arena.tree.self_mem_subtrees
  have isProgram : node.kind = .program := by
    have program := laid.program
    rwa [same] at program
  obtain ⟨position, found⟩ := getElem?_of_mem (mem_of_mem_drop member)
  rw [same] at found
  exact absurd isProgram (Arena.region?_cases well inside found isHome).1

theorem exists_homed (inside : tree ∈ arena.tree.subtrees) (proper : tree ≠ arena.tree)
    (noEntry : tree.label.kind ≠ .entry) (noExit : tree.label.kind ≠ .exit) :
    ∃ seat isBody scope before after, seat.admits tree.label.kind ∧
      Visits arena tree isBody scope before after ∧ Homed arena seat tree scope before := by
  obtain same | isEntry | isExit | ⟨seat, isBody, scope, before, after, sits, visits, homed⟩ :=
    visits_everywhere (motive := fun seat tree _ scope before => Homed arena seat tree scope before)
      well laid (fun stmt member left _ _ => homed_top well laid member _)
      (fun seat node children isBody scope before after inside sits visits homed position child
          found opened same isBody' left right _ _ _ =>
        homed_child well inside visits same found sits.admits homed laid left) inside
  · exact absurd same proper
  · exact absurd isEntry noEntry
  · exact absurd isExit noExit
  · exact ⟨seat, isBody, scope, before, after, sits.admits, visits, homed⟩

theorem scopeOf_home_ident (isIdent : arena.kind id = .ident name (.declare kind))
    (lexical : kind = .let ∨ kind = .const) (isHome : arena.home? id = some home)
    (bound : (ofArena arena).symbolOf[id]? = some symbol) :
    (ofArena arena).scopeOf[home]? = some ((ofArena arena).symbols.get symbol).scope := by
  obtain ⟨tree, inside, rfl, isIdent', -⟩ := exists_visits_ident well laid isIdent
  have proper : tree ≠ arena.tree := by
    rintro rfl
    rw [laid.program] at isIdent'
    cases isIdent'
  obtain ⟨seat, isBody, scope, before, after, admitted, visits, homed⟩ :=
    exists_homed well laid inside proper (by rw [isIdent']; nofun) (by rw [isIdent']; nofun)
  have place : seat = .binding kind := by
    rw [isIdent'] at admitted
    rcases lexical with rfl | rfl <;>
      cases seat <;> first | cases admitted | rw [eq_of_beq admitted]
  subst place
  have isHome : homeAt? arena (.binding kind) tree = some home := by
    rw [← isHome, Arena.home?, isIdent]
    rcases lexical with rfl | rfl <;> rfl
  obtain ⟨there, declared⟩ := homed home isHome
  have named : arena.identName? tree.label.id = some name := by
    rw [Arena.identName?, isIdent]
  have idents : Syntree.bindings false tree = [tree.label.id] :=
    bindings_isIdent (by rw [isIdent']; rfl)
  have local_ := declared name (by simp [housed, Seat.declared?, declaredIdents, idents, named])
  obtain ⟨first, here⟩ := Option.isSome_iff_exists.mp local_
  have result : (run bare before).symbols.find? name ((run bare before).scopes.chain scope) =
      some first := by
    rw [SymbolTable.find?, ScopeTree.chain, findSome?_cons, here]
  obtain ⟨outer, symbol', bound', found, ⟨-, looked, -⟩ | ⟨-, absent⟩⟩ :=
    visits.bound well inside isIdent' laid
  · have later := visits.extends_final
    replace found := (visits.extends_ident isIdent').kept _ _ _ found
    obtain rfl : symbol' = symbol := Option.some.inj (bound'.symm.trans bound)
    obtain rfl : first = symbol' :=
      Option.some.inj ((later.kept _ _ _ (looked.trans result)).symm.trans found)
    rw [there, (SymbolTable.name_of_findLocal? (later.kept _ _ _ here)).2]
  · exact absurd (Option.isSome_of_eq_some result) absent

end

theorem symbolOf_carried (noIdent : arena.identName? id = none) {resolution : Resolution}
    {moves : List Move} (faithful : ∀ move ∈ moves, move.Faithful arena)
    (bound : (run resolution moves).symbolOf[id]? = some symbol) :
    resolution.symbolOf[id]? = some symbol ∨
      ∃ place entry, .declare place entry ∈ moves ∧ entry.ownNode = true ∧ entry.node = id ∧
        (run resolution moves).symbols.findLocal? entry.name place = some symbol := by
  induction moves generalizing resolution with
  | nil => exact .inl bound
  | cons move rest ih =>
    obtain ⟨here, there⟩ := forall_mem_cons.mp faithful
    obtain early | ⟨place, entry, member, own, same, found⟩ := ih there bound
    · cases move with
      | enter | share => exact .inl early
      | declare place entry =>
        by_cases self : entry.ownNode = true ∧ entry.node = id
        · obtain ⟨own, rfl⟩ := self
          obtain ⟨new, found⟩ := resolution.symbols.exists_findLocal?_declare entry.name entry.kind
            place entry.node
          have isNew : new = symbol := by
            simpa [Move.apply, declare, own, found] using early
          subst isNew
          exact .inr ⟨place, entry, mem_cons_self, own, rfl,
            (extends_run (resolution.declare place entry) rest).kept _ _ _ found⟩
        · exact .inl ((symbolOf_declare _ _ fun own same => self ⟨own, same⟩).symm.trans early)
      | resolve scope node name role =>
        have differ : node ≠ id := by
          rintro rfl
          rw [show arena.identName? node = some name from here] at noIdent
          cases noIdent
        exact .inl ((symbolOf_resolve_of_ne _ differ ..).symm.trans early)
    · exact .inr ⟨place, entry, mem_cons_of_mem _ member, own, same, found⟩

section

variable {arena : Arena} (well : arena.WellNumbered) (laid : arena.LaidOut)

include well laid

theorem scopeOf_case (inside : .node node children ∈ arena.tree.subtrees) {isDefault : Bool}
    (kind : node.kind = .switchCase isDefault) : (ofArena arena).scopeOf[node.id]? = none := by
  have proper : Rose.node node children ≠ arena.tree := by
    intro same
    have program := laid.program
    rw [← same, Rose.label, kind] at program
    cases program
  obtain ⟨isBody, scope, before, after, visits⟩ := exists_visits well laid inside proper
    (by rw [Rose.label, kind]; nofun) (by rw [Rose.label, kind]; nofun)
  rw [visits.scopeOf_opened well inside (by rw [kind]; rfl) rfl, if_pos]
  exact (opening_closed rfl (by rw [kind]; nofun) (by simp [openedBy, opens, kind])).1

theorem home_of_tops (isHome : arena.region? id = some home) {top : Syntree}
    (inside : top ∈ arena.tree.subtrees) (held : id ∈ top.children.flatMap tops) {place : Nat}
    (opened : (ofArena arena).scopeOf[top.label.id]? = some place) : top.label.id = home := by
  obtain ⟨node, children⟩ := top
  obtain ⟨child, member, listed⟩ := mem_flatMap.mp held
  obtain ⟨position, found⟩ := getElem?_of_mem member
  have deeper := Rose.child_inside member inside
  have direct (same : child.label.id = id) : node.id = home := by
    obtain ⟨-, -, ⟨inCase, -⟩ | ⟨-, rfl⟩⟩ :=
      Arena.region?_cases well inside found (same ▸ isHome)
    · obtain ⟨isDefault, kind⟩ := Kind.exists_of_isCase inCase
      have closed := scopeOf_case well laid inside kind
      rw [show (Rose.node node children).label.id = node.id from rfl, closed] at opened
      cases opened
    · rfl
  unfold tops at listed
  split at listed
  case h_1 isDefault kind =>
    obtain same | inCase := mem_cons.mp listed
    · exact direct same.symm
    · obtain ⟨stmt, below, rfl⟩ := mem_map.mp inCase
      obtain ⟨index, foundStmt⟩ := getElem?_of_mem below
      obtain ⟨label, stmts⟩ := child
      obtain ⟨-, -, ⟨-, above⟩ | ⟨noCase, -⟩⟩ :=
        Arena.region?_cases well deeper foundStmt isHome
      · have parent : arena.parent? label.id = some node.id := well.parent_child inside member
        exact Option.some.inj (parent.symm.trans above)
      · rw [show label.kind = _ from kind] at noCase
        cases noCase
  case h_2 => exact direct (mem_singleton.mp listed).symm

theorem scopeOf_home_class {hasParent : Bool}
    (isClass : arena.kind id = .classDef (some name) true hasParent)
    (isHome : arena.home? id = some home) (bound : (ofArena arena).symbolOf[id]? = some symbol) :
    (ofArena arena).scopeOf[home]? = some ((ofArena arena).symbols.get symbol).scope := by
  have noIdent : arena.identName? id = none := by rw [Arena.identName?, isClass]
  have region : arena.region? id = some home := by
    rw [← isHome, Arena.home?, isClass]
  rw [ofArena_eq_run] at bound
  obtain early | ⟨place, entry, declared, own, rfl, found⟩ :=
    symbolOf_carried noIdent (faithful_allMoves well laid) bound
  · simp [bare, initial] at early
  rw [← ofArena_eq_run] at found
  obtain ⟨top, inside, ⟨move, member, opens⟩, -, ⟨self, selfNamed⟩ | ⟨held, -⟩⟩ :=
    carried_allMoves well laid own declared
  · rw [← self, isClass] at selfNamed
    cases selfNamed
  · obtain ⟨before, after, whole⟩ := append_of_mem member
    have site : move.site? = some top.label.id := by
      cases move <;> cases opens <;> rfl
    have once := (not_mem_sites (sites_allMoves well) whole site).2
    have there := scopeOf_ofArena whole opens once
    rw [← home_of_tops well laid region inside held there, there,
      (SymbolTable.name_of_findLocal? found).2]

end

end Resolution

end Seepage

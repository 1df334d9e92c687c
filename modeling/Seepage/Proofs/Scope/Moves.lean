import Seepage.Proofs.Scope.Visit
import Seepage.Proofs.Tree.Layout

set_option autoImplicit false

namespace Seepage

open List

variable {symbol place : Nat} {kind : ScopeKind} {entry : Hoisted}

namespace SymbolTable

variable {table : SymbolTable}

theorem get_declare_of_lt {name : String} {kind : SymbolKind} {scope node : Nat}
    (known : symbol < table.size) :
    (table.declare name kind scope node).get symbol = table.get symbol := by
  unfold declare
  split
  case h_1 => rfl
  case h_2 =>
    simp only [get, Array.getD_eq_getD_getElem?]
    rw [Array.getElem?_push_lt known, Array.getElem?_eq_getElem known]

theorem get_addReference {target node : Nat} (symbol : Nat) :
    (table.addReference target node).get symbol =
      if symbol = target ∧ symbol < table.size then
        { table.get symbol with references := (table.get symbol).references.push node }
      else table.get symbol := by
  simp only [get, addReference, Array.getD_eq_getD_getElem?, Array.getElem?_modify]
  by_cases same : target = symbol
  · subst same
    by_cases known : target < table.symbols.size
    · simp [size, known]
    · simp [size, known]
  · simp [same, Ne.symm same]

end SymbolTable

theorem ScopeTree.get_create_of_lt {tree : ScopeTree} {parent : Option Nat} {node scope : Nat}
    (known : scope < tree.size) : (tree.create kind parent node).get scope = tree.get scope := by
  simp only [get, create, Array.getD_eq_getD_getElem?]
  rw [Array.getElem?_push_lt known, Array.getElem?_eq_getElem known]

namespace Resolution

inductive Move where
  | enter (kind : ScopeKind) (parent node inner : Nat)
  | share (scope node : Nat)
  | declare (scope : Nat) (hoisted : Hoisted)
  | resolve (scope node : Nat) (name : String) (role : Role)

namespace Move

def apply (resolution : Resolution) : Move → Resolution
  | .enter kind parent node _ => resolution.enter kind parent node
  | .share scope node => { resolution with scopeOf := resolution.scopeOf.insert node scope }
  | .declare scope hoisted => resolution.declare scope hoisted
  | .resolve scope node name role => resolution.resolve scope node name role

def scope : Move → Nat
  | .enter _ parent _ _ => parent
  | .share scope _ | .declare scope _ | .resolve scope _ _ _ => scope

def isEnter : Move → Bool
  | .enter .. => true
  | _ => false

def site? : Move → Option Nat
  | .enter _ _ node _ | .share _ node | .resolve _ node _ _ => some node
  | .declare .. => none

def opened? : Move → Option (Nat × Nat)
  | .enter _ _ node inner => some (node, inner)
  | .share scope node => some (node, scope)
  | _ => none

end Move

def run (resolution : Resolution) (moves : List Move) : Resolution :=
  moves.foldl Move.apply resolution

def entered (moves : List Move) : Nat :=
  moves.countP Move.isEnter

def sites (moves : List Move) : List Nat :=
  moves.filterMap Move.site?

section

variable (first second : List Move)

@[simp] theorem run_append (resolution : Resolution) :
    run resolution (first ++ second) = run (run resolution first) second :=
  foldl_append

@[simp] theorem entered_append : entered (first ++ second) = entered first + entered second :=
  countP_append

@[simp] theorem sites_append : sites (first ++ second) = sites first ++ sites second :=
  filterMap_append

end

@[simp] theorem entered_cons (move : Move) (rest : List Move) :
    entered (move :: rest) = entered rest + move.isEnter.toNat := by
  rw [entered, countP_cons]
  cases move.isEnter <;> rfl

@[simp] theorem sites_cons (move : Move) (rest : List Move) :
    sites (move :: rest) = move.site?.toList ++ sites rest := by
  rw [sites, filterMap_cons]
  cases move.site? <;> rfl

section

variable (scope : Nat) (hoisted : List Hoisted)

theorem run_declares (resolution : Resolution) :
    run resolution (hoisted.map (.declare scope)) = resolution.declareAll scope hoisted := by
  rw [run, foldl_map]
  rfl

@[simp] theorem entered_declares : entered (hoisted.map (.declare scope)) = 0 := by
  rw [entered, countP_map, countP_eq_zero]
  exact fun _ _ => Bool.false_ne_true

@[simp] theorem sites_declares : sites (hoisted.map (.declare scope)) = [] := by
  rw [sites, filterMap_map, filterMap_eq_nil_iff]
  exact fun _ _ => rfl

end

theorem mem_declares {scope : Nat} {hoisted : List Hoisted} :
    Move.declare place entry ∈ hoisted.map (Move.declare scope) ↔
      place = scope ∧ entry ∈ hoisted := by
  constructor
  · intro member
    obtain ⟨other, listed, same⟩ := mem_map.mp member
    cases same
    exact ⟨rfl, listed⟩
  · rintro ⟨rfl, listed⟩
    exact mem_map_of_mem listed

theorem mem_cons_declares {scope : Nat} {hoisted : List Hoisted}
    {first : Move} (visits : first.site?.isSome) :
    Move.declare place entry ∈ first :: hoisted.map (Move.declare scope) ↔
      place = scope ∧ entry ∈ hoisted := by
  rw [mem_cons, mem_declares, or_iff_right]
  rintro rfl
  cases visits

def openedBy (arena : Arena) (node : Node) (children : List Syntree) :
    Option (ScopeKind × List Hoisted) :=
  match node.kind, children with
  | .function _ _ paramCount _, _ :: _ :: parts =>
    some (.function, headHoisted arena node paramCount parts)
  | _, children => opens arena node children

structure Opening where
  own : List Move
  inner : Nat
  next : Nat

def opening (arena : Arena) (isBody : Bool) (scope next : Nat) (node : Node)
    (children : List Syntree) : Opening :=
  if isBody = true ∧ node.kind = .block then
    ⟨.share scope node.id ::
      (hoistedVarsAll arena children ++ hoistedBlock arena children).map (.declare scope),
      scope, next⟩
  else
    match openedBy arena node children with
    | some (kind, hoisted) =>
      ⟨.enter kind scope node.id next :: hoisted.map (.declare next), next, next + 1⟩
    | none => ⟨[], scope, next⟩

def visited (node : Node) (children : List Syntree) : Nat × List Syntree :=
  match node.kind, children with
  | .function _ _ paramCount _, _ :: _ :: parts => (paramCount, parts)
  | _, children => (children.length, children)

mutual

def moves (arena : Arena) (isBody : Bool) (scope next : Nat) : Syntree → List Move
  | .node node children =>
    let opened := opening arena isBody scope next node children
    match node.kind, children with
    | .ident name role, _ => [.resolve scope node.id name role]
    | .function _ _ paramCount _, _ :: _ :: parts =>
      opened.own ++ movesParts arena opened.inner opened.next paramCount parts
    | _, children =>
      opened.own ++ movesParts arena opened.inner opened.next children.length children

def movesParts (arena : Arena) (scope next : Nat) : Nat → List Syntree → List Move
  | _, [] => []
  | 0, body :: _ => moves arena true scope next body
  | count + 1, part :: rest =>
    let first := moves arena false scope next part
    first ++ movesParts arena scope (next + entered first) count rest

end

def topHoisted (arena : Arena) : List Move :=
  .share globalScope Arena.root :: (globalHoisted arena).map (.declare globalScope)

def allMoves (arena : Arena) : List Move :=
  topHoisted arena ++
    movesParts arena globalScope 2 (arena.tree.children.drop 2).length (arena.tree.children.drop 2)

section

variable {arena : Arena} {isBody : Bool} {scope next : Nat} {node : Node} {children : List Syntree}

theorem moves_ident {name : String} {role : Role} (isIdent : node.kind = .ident name role) :
    moves arena isBody scope next (.node node children) = [.resolve scope node.id name role] := by
  obtain ⟨id, form, place, ancestors, ids⟩ := node
  subst isIdent
  rfl

theorem moves_node (noIdent : node.kind.isIdent = false) :
    moves arena isBody scope next (.node node children) =
      (opening arena isBody scope next node children).own ++
        movesParts arena (opening arena isBody scope next node children).inner
          (opening arena isBody scope next node children).next
          (visited node children).1 (visited node children).2 := by
  obtain ⟨id, form, place, ancestors, ids⟩ := node
  cases form with
  | ident => cases noIdent
  | function => rcases children with _ | ⟨entry, _ | ⟨exit, parts⟩⟩ <;> rfl
  | _ => rfl

theorem opening_cases (arena : Arena) (isBody : Bool) (scope next : Nat) (node : Node)
    (children : List Syntree) :
    (isBody = true ∧ node.kind = .block ∧ opening arena isBody scope next node children =
      ⟨.share scope node.id ::
        (hoistedVarsAll arena children ++ hoistedBlock arena children).map (.declare scope),
        scope, next⟩) ∨
    ¬(isBody = true ∧ node.kind = .block) ∧
      ((∃ kind hoisted, openedBy arena node children = some (kind, hoisted) ∧
        opening arena isBody scope next node children =
          ⟨.enter kind scope node.id next :: hoisted.map (.declare next), next, next + 1⟩) ∨
      openedBy arena node children = none ∧
        opening arena isBody scope next node children = ⟨[], scope, next⟩) := by
  unfold opening
  split
  case isTrue body => exact .inl ⟨body.1, body.2, rfl⟩
  case isFalse other =>
    refine .inr ⟨other, ?_⟩
    split
    case h_1 kind hoisted opened => exact .inl ⟨kind, hoisted, opened, rfl⟩
    case h_2 closed => exact .inr ⟨closed, rfl⟩

end

theorem next_opening (arena : Arena) (isBody : Bool) (scope next : Nat) (node : Node)
    (children : List Syntree) : (opening arena isBody scope next node children).next =
      next + entered (opening arena isBody scope next node children).own := by
  obtain ⟨-, -, same⟩ | ⟨-, ⟨kind, hoisted, -, same⟩ | ⟨-, same⟩⟩ :=
    opening_cases arena isBody scope next node children
  all_goals simp only [same, entered_cons, entered_declares, Move.isEnter]
  all_goals rfl

theorem visited_cases (node : Node) (children : List Syntree) :
    (∃ name form paramCount isExpr entry exit parts,
      node.kind = .function name form paramCount isExpr ∧ children = entry :: exit :: parts ∧
      visited node children = (paramCount, parts)) ∨
    (∀ name form paramCount isExpr entry exit parts,
      node.kind = .function name form paramCount isExpr → children ≠ entry :: exit :: parts) ∧
      visited node children = (children.length, children) := by
  unfold visited
  split
  case h_1 isFunction => exact .inl ⟨_, _, _, _, _, _, _, isFunction, rfl, rfl⟩
  case h_2 other => exact .inr ⟨fun _ _ _ _ _ _ _ isFunction same =>
    other _ _ _ _ _ _ _ isFunction same, rfl⟩

theorem visited_subset (node : Node) (children : List Syntree) :
    (visited node children).2 ⊆ children := by
  unfold visited
  split
  · exact fun part held => mem_cons_of_mem _ (mem_cons_of_mem _ held)
  · exact List.Subset.refl _

theorem moves_induction (arena : Arena) (motive : Bool → Nat → Nat → Syntree → Prop)
    (motives : Nat → Nat → Nat → List Syntree → Prop)
    (ident : ∀ isBody scope next node children name role, node.kind = .ident name role →
      motive isBody scope next (.node node children))
    (node : ∀ isBody scope next node children, node.kind.isIdent = false →
      motives (opening arena isBody scope next node children).inner
        (opening arena isBody scope next node children).next (visited node children).1
        (visited node children).2 →
      motive isBody scope next (.node node children))
    (nil : ∀ scope next count, motives scope next count [])
    (body : ∀ scope next tree rest, motive true scope next tree →
      motives scope next 0 (tree :: rest))
    (cons : ∀ scope next count tree rest, motive false scope next tree →
      motives scope (next + entered (moves arena false scope next tree)) count rest →
      motives scope next (count + 1) (tree :: rest)) :
    (∀ isBody scope next tree, motive isBody scope next tree) ∧
      ∀ scope next count trees, motives scope next count trees := by
  have parts (trees : List Syntree)
      (each : ∀ tree ∈ trees, ∀ isBody scope next, motive isBody scope next tree)
      (scope next count : Nat) : motives scope next count trees := by
    induction trees generalizing next count with
    | nil => exact nil scope next count
    | cons tree rest ih =>
      obtain ⟨here, there⟩ := forall_mem_cons.mp each
      cases count with
      | zero => exact body scope next tree rest (here true scope next)
      | succ count => exact cons scope next count tree rest (here false scope next) (ih there _ _)
  have single (tree : Syntree) (isBody : Bool) (scope next : Nat) :
      motive isBody scope next tree := by
    induction tree using Rose.byChildren generalizing isBody scope next with
    | node label children ih =>
      by_cases isIdent : ∃ name role, label.kind = .ident name role
      · obtain ⟨name, role, isIdent⟩ := isIdent
        exact ident isBody scope next label children name role isIdent
      · have noIdent : label.kind.isIdent = false := by
          cases same : label.kind with
          | ident name role => exact absurd ⟨name, role, same⟩ isIdent
          | _ => rfl
        refine node isBody scope next label children noIdent (parts _ (fun part held => ?_) _ _ _)
        exact ih part (visited_subset _ _ held)
  exact ⟨fun isBody scope next tree => single tree isBody scope next, fun scope next count trees =>
    parts trees (fun tree _ => single tree) scope next count⟩

section

variable (resolution : Resolution) (scope node : Nat) (name : String)

theorem referNew_eq (kind : SymbolKind) : ∃ symbol,
    (resolution.symbols.declare name kind scope node).findLocal? name scope = some symbol ∧
    resolution.referNew name kind scope node =
      { resolution with
        symbols := (resolution.symbols.declare name kind scope node).addReference symbol node
        symbolOf := resolution.symbolOf.insert node symbol } := by
  obtain ⟨symbol, found⟩ := resolution.symbols.exists_findLocal?_declare name kind scope node
  refine ⟨symbol, found, ?_⟩
  simp only [referNew, declare, found, Option.getD_some]
  rfl

theorem referNew_of_findLocal? (kind : SymbolKind)
    (found : resolution.symbols.findLocal? name scope = some symbol) :
    resolution.referNew name kind scope node = resolution.refer node symbol := by
  have same : resolution.symbols.declare name kind scope node = resolution.symbols := by
    rw [SymbolTable.declare, found]
  simp only [referNew, declare, same, found, Option.getD_some]
  rfl

theorem hoistTarget_mem_chain (tree : ScopeTree) : tree.hoistTarget scope ∈ tree.chain scope := by
  unfold ScopeTree.hoistTarget
  cases found : (tree.chain scope).find? fun above => (tree.get above).kind.isHoistTarget with
  | none => exact mem_cons_self
  | some above => exact mem_of_find?_eq_some found

theorem resolve_eq (role : Role) : ∃ kind place unresolved,
    resolution.resolve scope node name role =
      { resolution with unresolved }.referNew name kind place node ∧
    ((place ∈ resolution.scopes.chain scope ∧ unresolved = resolution.unresolved ∧
        resolution.symbols.findLocal? name place =
          resolution.symbols.find? name (resolution.scopes.chain scope) ∧
        (resolution.symbols.findLocal? name place = none → ∃ kind, role = .declare kind)) ∨
      place = unresolvedScope ∧
        resolution.symbols.find? name (resolution.scopes.chain scope) = none ∧
        unresolved = if knownGlobals.contains name then resolution.unresolved
          else resolution.unresolved.push ⟨name, node, scope⟩) := by
  cases looked : resolution.symbols.find? name (resolution.scopes.chain scope) with
  | some symbol =>
    obtain ⟨place, above, found⟩ := exists_of_findSome?_eq_some looked
    refine ⟨.variable, place, resolution.unresolved, ?_, .inl ⟨above, rfl, found, ?_⟩⟩
    · rw [referNew_of_findLocal? _ _ _ _ _ found]
      unfold resolve
      rw [looked]
    · rw [found]
      exact nofun
  | none =>
    have absent : ∀ place ∈ resolution.scopes.chain scope,
        resolution.symbols.findLocal? name place = none :=
      findSome?_eq_none_iff.mp looked
    by_cases declares : ∃ kind, role = .declare kind
    · obtain ⟨kind, rfl⟩ := declares
      have above : (if kind = .var then resolution.scopes.hoistTarget scope else scope) ∈
          resolution.scopes.chain scope := by
        split
        · exact hoistTarget_mem_chain ..
        · exact mem_cons_self
      refine ⟨.variable, _, resolution.unresolved, ?_,
        .inl ⟨above, rfl, absent _ above, fun _ => ⟨kind, rfl⟩⟩⟩
      unfold resolve
      rw [looked]
    · refine ⟨.implicit, unresolvedScope, _, ?_, .inr ⟨rfl, rfl, rfl⟩⟩
      unfold resolve
      rw [looked]
      cases role with
      | declare kind => exact absurd ⟨kind, rfl⟩ declares
      | read | write | readWrite =>
        simp only
        split <;> rfl

end

-- Later in the same resolution: what there was is still there.
structure Extends (before after : Resolution) : Prop where
  size : before.scopes.size ≤ after.scopes.size
  scope : ∀ scope < before.scopes.size, after.scopes.get scope = before.scopes.get scope
  kept : ∀ name scope symbol, before.symbols.findLocal? name scope = some symbol →
    after.symbols.findLocal? name scope = some symbol
  symbols : before.symbols.size ≤ after.symbols.size
  symbol : ∀ symbol < before.symbols.size,
    (after.symbols.get symbol).scope = (before.symbols.get symbol).scope ∧
    (after.symbols.get symbol).declaration = (before.symbols.get symbol).declaration

theorem Extends.refl (resolution : Resolution) : Extends resolution resolution :=
  ⟨Nat.le_refl _, fun _ _ => rfl, fun _ _ _ found => found, Nat.le_refl _, fun _ _ => ⟨rfl, rfl⟩⟩

section

variable {before after : Resolution} (later : Extends before after)

include later

theorem Extends.trans {last : Resolution} (still : Extends after last) : Extends before last where
  size := Nat.le_trans later.size still.size
  scope scope known := by
    rw [still.scope scope (Nat.lt_of_lt_of_le known later.size), later.scope scope known]
  kept name scope symbol found := still.kept name scope symbol (later.kept name scope symbol found)
  symbols := Nat.le_trans later.symbols still.symbols
  symbol symbol known := by
    obtain ⟨scope, declaration⟩ := later.symbol symbol known
    obtain ⟨scope', declaration'⟩ := still.symbol symbol (Nat.lt_of_lt_of_le known later.symbols)
    exact ⟨scope'.trans scope, declaration'.trans declaration⟩

theorem Extends.chain {scope : Nat} (known : scope < before.scopes.size) :
    after.scopes.chain scope = before.scopes.chain scope := by
  rw [ScopeTree.chain, ScopeTree.chain, later.scope scope known]

end

section

variable (resolution : Resolution)

theorem Extends.enter (kind : ScopeKind) (parent node : Nat) :
    Extends resolution (resolution.enter kind parent node) where
  size := by
    rw [Resolution.enter, ScopeTree.size_create]
    exact Nat.le_succ _
  scope scope known := ScopeTree.get_create_of_lt known
  kept _ _ _ found := found
  symbols := Nat.le_refl _
  symbol _ _ := ⟨rfl, rfl⟩

theorem Extends.declare (scope : Nat) (hoisted : Hoisted) :
    Extends resolution (resolution.declare scope hoisted) where
  size := Nat.le_refl _
  scope _ _ := rfl
  kept name place symbol found := by
    rw [findLocal?_declare, found]
    rfl
  symbols := SymbolTable.size_le_declare ..
  symbol symbol known := by
    simp only [Resolution.declare, SymbolTable.get_declare_of_lt known, and_self]

theorem Extends.refer (node symbol : Nat) :
    Extends resolution (resolution.refer node symbol) where
  size := Nat.le_refl _
  scope _ _ := rfl
  kept name place symbol found := (SymbolTable.findLocal?_addReference ..).trans found
  symbols := Nat.le_of_eq (SymbolTable.size_addReference ..).symm
  symbol other known := by
    simp only [Resolution.refer, SymbolTable.get_addReference]
    split <;> exact ⟨rfl, rfl⟩

theorem Extends.resolve (scope node : Nat) (name : String) (role : Role) :
    Extends resolution (resolution.resolve scope node name role) := by
  obtain ⟨kind, place, unresolved, same, -⟩ := resolve_eq resolution scope node name role
  have noted : Extends resolution { resolution with unresolved } :=
    ⟨Nat.le_refl _, fun _ _ => rfl, fun _ _ _ found => found, Nat.le_refl _, fun _ _ => ⟨rfl, rfl⟩⟩
  rw [same]
  exact noted.trans ((Extends.declare ..).trans (Extends.refer ..))

theorem extends_apply (move : Move) :
    Extends resolution (move.apply resolution) := by
  cases move with
  | enter => exact .enter ..
  | share => exact ⟨Nat.le_refl _, fun _ _ => rfl, fun _ _ _ found => found, Nat.le_refl _,
      fun _ _ => ⟨rfl, rfl⟩⟩
  | declare => exact .declare ..
  | resolve => exact .resolve ..

theorem extends_run (moves : List Move) :
    Extends resolution (run resolution moves) := by
  induction moves generalizing resolution with
  | nil => exact .refl _
  | cons move rest ih => exact (extends_apply resolution move).trans (ih _)

theorem scopes_resolve (scope node : Nat) (name : String) (role : Role) :
    (resolution.resolve scope node name role).scopes = resolution.scopes ∧
      (resolution.resolve scope node name role).scopeOf = resolution.scopeOf := by
  obtain ⟨kind, place, unresolved, same, -⟩ := resolve_eq resolution scope node name role
  rw [same]
  exact ⟨rfl, rfl⟩

theorem size_apply (move : Move) :
    (move.apply resolution).scopes.size = resolution.scopes.size + move.isEnter.toNat := by
  cases move with
  | enter => exact ScopeTree.size_create ..
  | share | declare => rfl
  | resolve => exact congrArg ScopeTree.size (scopes_resolve ..).1

theorem size_run (moves : List Move) :
    (run resolution moves).scopes.size = resolution.scopes.size + entered moves := by
  induction moves generalizing resolution with
  | nil => rfl
  | cons move rest ih =>
    rw [run, foldl_cons, ← run, ih, size_apply, entered_cons]
    omega

end

theorem visitAll_eq (arena : Arena) (scope : Nat) (trees : List Syntree) (resolution : Resolution) :
    visitAll arena scope trees resolution =
      visitParts arena scope trees.length trees resolution := by
  induction trees generalizing resolution with
  | nil => rfl
  | cons tree rest ih => exact ih _

section

variable {arena : Arena} {node : Node} {children : List Syntree}

theorem openedBy_cases {hoisted : List Hoisted}
    (opened : openedBy arena node children = some (kind, hoisted)) :
    (∃ name form paramCount isExpr entry exit parts,
      node.kind = .function name form paramCount isExpr ∧ children = entry :: exit :: parts ∧
      kind = .function ∧ hoisted = headHoisted arena node paramCount parts) ∨
    opens arena node children = some (kind, hoisted) := by
  unfold openedBy at opened
  split at opened
  case h_1 name form paramCount isExpr entry exit parts isFunction =>
    cases opened
    exact .inl ⟨name, form, paramCount, isExpr, entry, exit, parts, isFunction, rfl, rfl, rfl⟩
  case h_2 => exact .inr opened

theorem visited_of_opens {found : ScopeKind × List Hoisted}
    (opened : opens arena node children = some found) :
    visited node children = (children.length, children) := by
  unfold visited
  split
  case h_1 isFunction => simp [opens, isFunction] at opened
  case h_2 => rfl

theorem isPlain_of_openedBy (noIdent : node.kind.isIdent = false)
    (closed : openedBy arena node children = none) : IsPlain arena node children := by
  unfold openedBy at closed
  split at closed
  case h_1 => cases closed
  case h_2 other =>
    refine ⟨fun name form paramCount isExpr entry exit parts isFunction same =>
      other _ _ _ _ _ _ _ isFunction same, fun name role isIdent => ?_, closed⟩
    rw [isIdent] at noIdent
    cases noIdent

theorem visited_of_isPlain (plain : IsPlain arena node children) :
    visited node children = (children.length, children) := by
  unfold visited
  split
  case h_1 isFunction => exact absurd rfl (plain.noFunction _ _ _ _ _ _ _ isFunction)
  case h_2 => rfl

theorem visit_opening (noIdent : node.kind.isIdent = false) (isBody : Bool) (scope : Nat)
    (resolution : Resolution) : visit arena isBody scope (.node node children) resolution =
      visitParts arena (opening arena isBody scope resolution.scopes.size node children).inner
        (visited node children).1 (visited node children).2
        (run resolution (opening arena isBody scope resolution.scopes.size node children).own) := by
  obtain ⟨rfl, isBlock, same⟩ | ⟨other, ⟨kind, hoisted, opened, same⟩ | ⟨closed, same⟩⟩ :=
    opening_cases arena isBody scope resolution.scopes.size node children
  · have parts : visited node children = (children.length, children) := by
      simp [visited, isBlock]
    rw [same, parts, visit_body isBlock, visitAll_eq]
    exact congrArg _ (run_declares ..).symm
  · have plain : visit arena isBody scope (.node node children) resolution =
        visit arena false scope (.node node children) resolution := by
      cases isBody with
      | false => rfl
      | true =>
        have differ : (Rose.node node children).label.kind ≠ .block := fun isBlock =>
          other ⟨rfl, isBlock⟩
        exact visit_of_ne_block differ _ _
    rw [plain, same]
    obtain ⟨name, form, paramCount, isExpr, entry, exit, parts, isFunction, rfl, rfl, rfl⟩ |
      opened := openedBy_cases opened
    · rw [visit_function isFunction]
      have taken : visited node (entry :: exit :: parts) = (paramCount, parts) := by
        simp [visited, isFunction]
      rw [taken]
      exact congrArg _ (run_declares ..).symm
    · rw [visit_opens opened, visited_of_opens opened, visitAll_eq]
      exact congrArg _ (run_declares ..).symm
  · have plain := isPlain_of_openedBy noIdent closed
    rw [same, visit_plain plain, visited_of_isPlain plain, visitAll_eq]
    rfl

end

theorem visit_eq_run (arena : Arena) :
    (∀ isBody scope next tree, ∀ resolution, resolution.scopes.size = next →
      visit arena isBody scope tree resolution =
        run resolution (moves arena isBody scope next tree)) ∧
    ∀ scope next count trees, ∀ resolution, resolution.scopes.size = next →
      visitParts arena scope count trees resolution =
        run resolution (movesParts arena scope next count trees) := by
  refine moves_induction arena _ _ ?ident ?node ?nil ?body ?cons
  case ident =>
    intro isBody scope next node children name role isIdent resolution size
    have same : visit arena isBody scope (.node node children) resolution =
        visit arena false scope (.node node children) resolution := by
      cases isBody with
      | false => rfl
      | true =>
        refine visit_of_ne_block (fun isBlock => ?_) _ _
        rw [Rose.label, isIdent] at isBlock
        cases isBlock
    rw [same, visit_ident isIdent, moves_ident isIdent]
    rfl
  case node =>
    rintro isBody scope next node children noIdent parts resolution rfl
    rw [visit_opening noIdent, moves_node noIdent, run_append]
    refine parts _ ?_
    rw [size_run, next_opening]
  case nil => exact fun _ _ _ _ _ => rfl
  case body => exact fun _ _ _ _ whole => whole
  case cons =>
    rintro scope next count tree rest first others resolution rfl
    rw [visitParts, movesParts, first resolution rfl, run_append]
    exact others _ (size_run ..)

def bare : Resolution :=
  { initial with scopeOf := ∅ }

theorem ofArena_eq_run (arena : Arena) : ofArena arena = run bare (allMoves arena) := by
  have start : run bare (topHoisted arena) =
      initial.declareAll globalScope (globalHoisted arena) := by
    rw [← run_declares]
    rfl
  have size : (run bare (topHoisted arena)).scopes.size = 2 := by
    rw [start, (scopes_declareAll ..).1]
    rfl
  rw [allMoves, run_append, ← (visit_eq_run arena).2 _ _ _ _ _ size, start, ← visitAll_eq]
  simp only [ofArena, globalHoisted, declareAll, foldl_append]

end Resolution

end Seepage

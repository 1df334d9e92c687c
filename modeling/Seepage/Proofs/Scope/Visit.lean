import Seepage.Proofs.Scope.Table
import Seepage.Proofs.Tree.Arena

set_option autoImplicit false

namespace Seepage

open List
open Rose hiding node

variable {arena : Arena} {stmts children : List Syntree} {node : Node}

namespace Kind

def carriedName? : Kind → Option String
  | .function name _ _ _ => name
  | .classDef name _ _ => name
  | _ => none

def selfNamed : Kind → Bool
  | .ident .. => true
  | .function (some _) .expression _ _ => true
  | .classDef (some _) false _ => true
  | _ => false

end Kind

namespace Resolution

def opens (arena : Arena) (node : Node) (children : List Syntree) :
    Option (ScopeKind × List Hoisted) :=
  match node.kind with
  | .classDef (some name) false _ =>
    some (.classBody, [{ name, kind := .classDef, node := node.id, ownNode := true }])
  | .classDef .. => some (.classBody, [])
  | .block => some (.block, hoistedBlock arena children)
  | .switchStmt =>
    some (.block, (children.drop 1).flatMap fun case => hoistedBlock arena case.children)
  | .forStmt .. | .forIn | .forOf => some (.forLoop, hoistedBlock arena (children.take 1))
  | .catchClause hasParam =>
    some (.caught, hoistIdents arena .parameter
      (if hasParam then (children.take 1).flatMap (Syntree.bindings false) else []))
  | _ => none

def ownHoisted (node : Node) : List Hoisted :=
  match node.kind with
  | .function (some name) .expression _ _ =>
    [{ name, kind := .function, node := node.id, ownNode := true }]
  | _ => []

def paramHoisted (arena : Arena) (params : List Syntree) : List Hoisted :=
  hoistIdents arena .parameter (params.flatMap (Syntree.bindings false))

def HasCases (kind : Kind) (children : List Syntree) : Prop :=
  kind = .switchStmt →
    ∀ case ∈ children.drop 1, ∃ isDefault, case.label.kind = .switchCase isDefault

def tops (tree : Syntree) : List Nat :=
  match tree.label.kind with
  | .switchCase _ => tree.label.id :: tree.children.map (·.label.id)
  | _ => [tree.label.id]

theorem mem_tops_self (tree : Syntree) : tree.label.id ∈ tops tree := by
  unfold tops
  split <;> exact mem_cons_self

def Carried (arena : Arena) (low : Nat) (tops : List Nat) (entry : Hoisted) : Prop :=
  (arena.kind entry.node).carriedName? = some entry.name ∧
    (entry.node = low ∧ (arena.kind low).selfNamed = true ∨
      entry.node ∈ tops ∧ (arena.kind entry.node).selfNamed = false)

theorem ownNode_hoistIdents {kind : SymbolKind} {idents : List Nat}
    {entry : Hoisted} (member : entry ∈ hoistIdents arena kind idents) : entry.ownNode = false := by
  obtain ⟨id, -, named⟩ := mem_filterMap.mp member
  obtain ⟨name, -, rfl⟩ := Option.map_eq_some_iff.mp named
  rfl

mutual

theorem hoistIdents_of_hoistedVars {arena : Arena} {entry : Hoisted} : (tree : Syntree) →
    entry ∈ hoistedVars arena tree → ∃ kind idents, entry ∈ hoistIdents arena kind idents
  | .node node children => by
    unfold hoistedVars
    split
    · exact fun absent => absurd absent not_mem_nil
    · exact fun absent => absurd absent not_mem_nil
    · exact fun member => ⟨_, _, member⟩
    · exact fun absent => absurd absent not_mem_nil
    · split
      · exact fun absent => absurd absent not_mem_nil
      · exact hoistIdents_of_hoistedVarsAll children

theorem hoistIdents_of_hoistedVarsAll {arena : Arena} {entry : Hoisted} : (trees : List Syntree) →
    entry ∈ hoistedVarsAll arena trees → ∃ kind idents, entry ∈ hoistIdents arena kind idents
  | [] => fun absent => absurd absent not_mem_nil
  | tree :: rest => by
    exact fun member => (mem_append.mp member).elim (hoistIdents_of_hoistedVars tree)
      (hoistIdents_of_hoistedVarsAll rest)

end

section

variable {arena : Arena} (well : arena.WellNumbered)

include well

theorem own_hoistedHere {stmt : Syntree} (inside : stmt ∈ arena.tree.subtrees) {entry : Hoisted}
    (member : entry ∈ hoistedHere arena stmt) (own : entry.ownNode = true) :
    entry.node = stmt.label.id ∧ (arena.kind entry.node).carriedName? = some entry.name ∧
      (arena.kind entry.node).selfNamed = false := by
  have kind := well.kind_eq inside
  unfold hoistedHere at member
  simp only at member
  split at member
  case h_1 isKind | h_2 isKind =>
    obtain rfl := mem_singleton.mp member
    simp [kind, isKind, Kind.carriedName?, Kind.selfNamed]
  case h_6 => cases member
  all_goals exact absurd (ownNode_hoistIdents member) (by simp [own])

theorem own_hoistedBlock (inside : ∀ stmt ∈ stmts, stmt ∈ arena.tree.subtrees) {entry : Hoisted}
    (member : entry ∈ hoistedBlock arena stmts) (own : entry.ownNode = true) :
    entry.node ∈ stmts.map (·.label.id) ∧
      (arena.kind entry.node).carriedName? = some entry.name ∧
      (arena.kind entry.node).selfNamed = false := by
  obtain ⟨stmt, held, here⟩ := mem_flatMap.mp member
  obtain ⟨same, named⟩ := own_hoistedHere well (inside stmt held) here own
  exact ⟨mem_map.mpr ⟨stmt, held, same.symm⟩, named⟩

theorem carried_hoistedBlock (low : Nat) (inside : ∀ child ∈ children, child ∈ arena.tree.subtrees)
    (part : stmts ⊆ children) {entry : Hoisted} (member : entry ∈ hoistedBlock arena stmts)
    (own : entry.ownNode = true) : Carried arena low (children.flatMap tops) entry := by
  obtain ⟨held, named, plain⟩ :=
    own_hoistedBlock well (fun stmt held => inside stmt (part held)) member own
  obtain ⟨stmt, listed, same⟩ := mem_map.mp held
  exact ⟨named, .inr ⟨mem_flatMap.mpr ⟨stmt, part listed, same ▸ mem_tops_self stmt⟩, plain⟩⟩

theorem own_opens (inside : .node node children ∈ arena.tree.subtrees)
    (cases : HasCases node.kind children) {kind : ScopeKind} {hoisted : List Hoisted}
    (opened : opens arena node children = some (kind, hoisted)) {entry : Hoisted}
    (member : entry ∈ hoisted) (own : entry.ownNode = true) :
    Carried arena node.id (children.flatMap tops) entry := by
  have below : ∀ child ∈ children, child ∈ arena.tree.subtrees := fun child held =>
    mem_subtrees_of_child held inside
  have self : arena.kind node.id = node.kind := well.kind_eq inside
  unfold opens at opened
  split at opened <;> cases opened
  case h_1 name parent isClass =>
    obtain rfl := mem_singleton.mp member
    simp [Carried, self, isClass, Kind.carriedName?, Kind.selfNamed]
  case h_2 => cases member
  case h_3 => exact carried_hoistedBlock well _ below (List.Subset.refl _) member own
  case h_4 isSwitch =>
    obtain ⟨case, listed, declared⟩ := mem_flatMap.mp member
    have held : case ∈ children := mem_of_mem_drop listed
    obtain ⟨isDefault, isCase⟩ := cases isSwitch case listed
    have stmts : ∀ stmt ∈ case.children, stmt ∈ arena.tree.subtrees := fun stmt member =>
      child_inside member (below case held)
    obtain ⟨direct, named, plain⟩ := own_hoistedBlock well stmts declared own
    refine ⟨named, .inr ⟨mem_flatMap.mpr ⟨case, held, ?_⟩, plain⟩⟩
    rw [tops, isCase]
    exact mem_cons_of_mem _ direct
  case h_5 | h_6 | h_7 => exact carried_hoistedBlock well _ below (take_subset _ _) member own
  case h_8 => exact absurd (ownNode_hoistIdents member) (by simp [own])

end

structure IsPlain (arena : Arena) (node : Node) (children : List Syntree) : Prop where
  noFunction : ∀ name form paramCount isExpr entry exit parts,
    node.kind = .function name form paramCount isExpr → children ≠ entry :: exit :: parts
  noIdent : ∀ name role, node.kind ≠ .ident name role
  closed : opens arena node children = none

section

variable {arena : Arena} {node : Node} {children : List Syntree}

variable {kind : ScopeKind} {hoisted : List Hoisted}
  (opened : opens arena node children = some (kind, hoisted))

include opened in
theorem visit_opens (scope : Nat) (resolution : Resolution) :
    visit arena false scope (.node node children) resolution =
      visitAll arena resolution.scopes.size children
        ((resolution.enter kind scope node.id).declareAll resolution.scopes.size hoisted) := by
  obtain ⟨id, form, place, ancestors, ids⟩ := node
  cases form with
  | classDef name isDecl hasParent => cases name <;> cases isDecl <;> cases opened <;> rfl
  | _ => cases opened <;> rfl

theorem visit_ident {name : String} {role : Role} (isIdent : node.kind = .ident name role)
    (scope : Nat) (resolution : Resolution) :
    visit arena false scope (.node node children) resolution =
      resolution.resolve scope node.id name role := by
  obtain ⟨id, form, place, ancestors, ids⟩ := node
  subst isIdent
  rfl

variable (plain : IsPlain arena node children) (isBody : Bool)

include plain

theorem visit_plain (scope : Nat) (resolution : Resolution) :
    visit arena isBody scope (.node node children) resolution =
      visitAll arena scope children resolution := by
  obtain ⟨id, form, place, ancestors, ids⟩ := node
  cases form with
  | function name form paramCount isExpr =>
    rcases children with _ | ⟨entry, _ | ⟨exit, parts⟩⟩
    · rfl
    · rfl
    · exact absurd rfl (plain.noFunction _ _ _ _ _ _ _ rfl)
  | ident name role => exact absurd rfl (plain.noIdent name role)
  | classDef name isDecl hasParent => cases name <;> cases isDecl <;> cases plain.closed
  | _ => first | rfl | cases plain.closed

end

theorem visit_body (isBlock : node.kind = .block) (scope : Nat) (resolution : Resolution) :
    visit arena true scope (.node node stmts) resolution =
      visitAll arena scope stmts
        ({ resolution with scopeOf := resolution.scopeOf.insert node.id scope }.declareAll scope
          (hoistedVarsAll arena stmts ++ hoistedBlock arena stmts)) := by
  obtain ⟨id, form, place, ancestors, ids⟩ := node
  subst isBlock
  simp only [declareAll, foldl_append]
  rfl

section

variable {arena : Arena} {tree : Syntree} (other : tree.label.kind ≠ .block)

include other

theorem visit_of_ne_block (scope : Nat) (resolution : Resolution) :
    visit arena true scope tree resolution = visit arena false scope tree resolution := by
  obtain ⟨⟨id, form, place, ancestors, ids⟩, children⟩ := tree
  cases form with
  | block => exact absurd rfl other
  | function => rcases children with _ | ⟨entry, _ | ⟨exit, parts⟩⟩ <;> rfl
  | _ => rfl

end

theorem areNumbered_append {ancestors : List Nat} {start : Nat} {first second : List Syntree} :
    Syntree.AreNumbered ancestors start (first ++ second) ↔
      Syntree.AreNumbered ancestors start first ∧
        Syntree.AreNumbered ancestors (start + sizeAll first) second := by
  induction first generalizing start with
  | nil => simp [Syntree.AreNumbered, sizeAll]
  | cons tree rest ih => simp [Syntree.AreNumbered, sizeAll, ih, and_assoc, Nat.add_assoc]

theorem sizeAll_append (first second : List Syntree) :
    sizeAll (first ++ second) = sizeAll first + sizeAll second := by
  induction first with
  | nil => simp [sizeAll]
  | cons tree rest ih => simp [sizeAll, ih, Nat.add_assoc]

section

variable {arena : Arena} (well : arena.WellNumbered)

include well

theorem numbered_children {node : Node} {children : List Syntree}
    (inside : .node node children ∈ arena.tree.subtrees) :
    Syntree.AreNumbered (node.id :: node.ancestors) (node.id + 1) children :=
  (well.numbered.subtree inside).2.2.2

theorem carried_hoisted (low : Nat) (inside : ∀ stmt ∈ stmts, stmt ∈ arena.tree.subtrees)
    (entry : Hoisted) (member : entry ∈ hoistedVarsAll arena stmts ++ hoistedBlock arena stmts)
    (own : entry.ownNode = true) : Carried arena low (stmts.flatMap tops) entry := by
  rcases mem_append.mp member with var | direct
  · obtain ⟨kind, idents, ident⟩ := hoistIdents_of_hoistedVarsAll stmts var
    simp [ownNode_hoistIdents ident] at own
  · exact carried_hoistedBlock well low inside (List.Subset.refl _) direct own

end

def headHoisted (arena : Arena) (node : Node) (paramCount : Nat) (parts : List Syntree) :
    List Hoisted :=
  ownHoisted node ++ paramHoisted arena (parts.take paramCount)

section

variable {arena : Arena} {node : Node} {name : Option String} {form : FunctionForm}
  {paramCount : Nat} {isExpr : Bool} {entry exit : Syntree} {parts : List Syntree}
  (isFunction : node.kind = .function name form paramCount isExpr)

include isFunction

theorem visit_function (scope : Nat) (resolution : Resolution) :
    visit arena false scope (.node node (entry :: exit :: parts)) resolution =
      visitParts arena resolution.scopes.size paramCount parts
        ((resolution.enter .function scope node.id).declareAll resolution.scopes.size
          (headHoisted arena node paramCount parts)) := by
  obtain ⟨id, kind, place, ancestors, ids⟩ := node
  subst isFunction
  cases name <;> cases form <;> rfl

omit isFunction in
theorem own_headHoisted (self : arena.kind node.id = node.kind) {hoisted : Hoisted}
    (member : hoisted ∈ headHoisted arena node paramCount parts) (own : hoisted.ownNode = true) :
    (arena.kind hoisted.node).carriedName? = some hoisted.name ∧
      hoisted.node = node.id ∧ (arena.kind node.id).selfNamed = true := by
  rcases mem_append.mp member with named | param
  · unfold ownHoisted at named
    split at named
    case h_1 isNamed =>
      obtain rfl := mem_singleton.mp named
      simp [self, isNamed, Kind.carriedName?, Kind.selfNamed]
    case h_2 => cases named
  · simp [ownNode_hoistIdents param] at own

end

def globalHoisted (arena : Arena) : List Hoisted :=
  hoistedVarsAll arena (arena.tree.children.drop 2) ++
    hoistedBlock arena (arena.tree.children.drop 2)

end Resolution

end Seepage

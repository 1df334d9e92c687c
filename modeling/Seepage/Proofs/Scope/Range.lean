import Seepage.Proofs.Relation
import Seepage.Proofs.Scope.Sites

set_option autoImplicit false

namespace Seepage

open List

variable {hoisted : List Hoisted} {scope : Nat}

namespace Resolution

structure Ranged (arena : Arena) (resolution : Resolution) : Prop where
  implicit : unresolvedScope < resolution.scopes.size
  scopes : ∀ scope ∈ resolution.scopes.scopes, scope.node < arena.size ∧
    ∀ outer ∈ scope.ancestors, outer < resolution.scopes.size
  symbols : ∀ symbol ∈ resolution.symbols.symbols, symbol.declaration < arena.size ∧
    symbol.scope < resolution.scopes.size
  symbolOf : ∀ (node symbol : Nat), resolution.symbolOf[node]? = some symbol →
    node < arena.size ∧ symbol < resolution.symbols.size
  scopeOf : ∀ (node scope : Nat), resolution.scopeOf[node]? = some scope →
    node < arena.size ∧ scope < resolution.scopes.size
  unresolved : ∀ reference ∈ resolution.unresolved, reference.node < arena.size

def Inside (arena : Arena) (hoisted : List Hoisted) : Prop :=
  ∀ entry ∈ hoisted, entry.node < arena.size

theorem inside_append {arena : Arena} {first second : List Hoisted} :
    Inside arena (first ++ second) ↔ Inside arena first ∧ Inside arena second :=
  forall_mem_append

section

variable {arena : Arena}

theorem inside_hoistIdents (kind : SymbolKind) (idents : List Nat) :
    Inside arena (hoistIdents arena kind idents) := by
  intro entry member
  obtain ⟨id, -, named⟩ := mem_filterMap.mp member
  obtain ⟨name, isIdent, rfl⟩ := Option.map_eq_some_iff.mp named
  apply Arena.lt_size_of_kind
  intro isProgram
  simp [Arena.identName?, isProgram] at isIdent

theorem inside_hoistedVarsAll (trees : List Syntree) :
    Inside arena (hoistedVarsAll arena trees) := by
  intro entry member
  obtain ⟨kind, idents, ident⟩ := hoistIdents_of_hoistedVarsAll trees member
  exact inside_hoistIdents kind idents entry ident

variable (well : arena.WellNumbered)

include well

theorem inside_hoistedHere {stmt : Syntree} (inside : stmt ∈ arena.tree.subtrees) :
    Inside arena (hoistedHere arena stmt) := by
  have own (name : String) (kind : SymbolKind) : Inside arena
      [{ name, kind, node := stmt.label.id, ownNode := true }] := by
    intro entry member
    obtain rfl := mem_singleton.mp member
    exact well.id_lt inside
  unfold hoistedHere
  simp only
  split
  · exact own _ _
  · exact own _ _
  · exact inside_hoistIdents _ _
  · exact inside_hoistIdents _ _
  · exact inside_hoistIdents _ _
  · exact forall_mem_nil _

theorem inside_hoistedBlock {stmts : List Syntree}
    (inside : ∀ stmt ∈ stmts, stmt ∈ arena.tree.subtrees) :
    Inside arena (hoistedBlock arena stmts) := by
  intro entry member
  obtain ⟨stmt, held, here⟩ := mem_flatMap.mp member
  exact inside_hoistedHere well (inside stmt held) entry here

section

variable {node : Node} {children : List Syntree}
  (inside : .node node children ∈ arena.tree.subtrees)

include inside

theorem inside_opens {kind : ScopeKind}
    (opened : opens arena node children = some (kind, hoisted)) : Inside arena hoisted := by
  have below : ∀ child ∈ children, child ∈ arena.tree.subtrees := fun child held =>
    Rose.mem_subtrees_of_child held inside
  unfold opens at opened
  split at opened <;> cases opened
  · intro entry member
    obtain rfl := mem_singleton.mp member
    exact well.id_lt inside
  · exact forall_mem_nil _
  · exact inside_hoistedBlock well below
  · -- the declarations of all cases are those of one block
    intro entry member
    obtain ⟨case, held, declared⟩ := mem_flatMap.mp member
    have deeper := below case (mem_of_mem_drop held)
    exact inside_hoistedBlock well (fun stmt part => Rose.subtrees_trans
      (Rose.child_mem_subtrees part) deeper) entry declared
  · exact inside_hoistedBlock well fun stmt held => below stmt (mem_of_mem_take held)
  · exact inside_hoistedBlock well fun stmt held => below stmt (mem_of_mem_take held)
  · exact inside_hoistedBlock well fun stmt held => below stmt (mem_of_mem_take held)
  · exact inside_hoistIdents _ _

theorem inside_headHoisted (paramCount : Nat) (parts : List Syntree) :
    Inside arena (headHoisted arena node paramCount parts) := by
  refine inside_append.mpr ⟨?_, inside_hoistIdents _ _⟩
  unfold ownHoisted
  split
  · intro entry member
    obtain rfl := mem_singleton.mp member
    exact well.id_lt inside
  · exact forall_mem_nil _

end

end

section

variable {arena : Arena} {resolution : Resolution} (ranged : resolution.Ranged arena)

include ranged

theorem Ranged.chain (known : scope < resolution.scopes.size) :
    ∀ outer ∈ resolution.scopes.chain scope, outer < resolution.scopes.size := by
  have member : resolution.scopes.get scope ∈ resolution.scopes.scopes := by
    have inside : scope < resolution.scopes.scopes.size := known
    rw [ScopeTree.get, Array.getD, dif_pos inside]
    exact Array.getElem_mem inside
  exact forall_mem_cons.mpr ⟨known, (ranged.scopes _ member).2⟩

theorem Ranged.enter (kind : ScopeKind) {node : Nat} (known : scope < resolution.scopes.size)
    (inside : node < arena.size) : (resolution.enter kind scope node).Ranged arena := by
  have size : (resolution.enter kind scope node).scopes.size = resolution.scopes.size + 1 :=
    ScopeTree.size_create ..
  refine ⟨?_, ?_, ?_, ranged.symbolOf, ?_, ranged.unresolved⟩
  · have := ranged.implicit
    omega
  · intro other member
    rw [size]
    rcases Array.mem_push.mp member with old | rfl
    · obtain ⟨own, around⟩ := ranged.scopes other old
      exact ⟨own, fun outer above => Nat.lt_succ_of_lt (around outer above)⟩
    · exact ⟨inside, fun outer above => Nat.lt_succ_of_lt (ranged.chain known outer above)⟩
  · intro symbol member
    rw [size]
    obtain ⟨declared, held⟩ := ranged.symbols symbol member
    exact ⟨declared, Nat.lt_succ_of_lt held⟩
  · intro other place found
    rw [size]
    obtain ⟨rfl, rfl⟩ | old := eq_or_of_getElem?_insert found
    · exact ⟨inside, Nat.lt_succ_self _⟩
    · exact (ranged.scopeOf other place old).imp_right Nat.lt_succ_of_lt

theorem Ranged.declare (known : scope < resolution.scopes.size) {hoisted : Hoisted}
    (inside : hoisted.node < arena.size) : (resolution.declare scope hoisted).Ranged arena := by
  have grows := resolution.symbols.size_le_declare hoisted.name hoisted.kind scope hoisted.node
  refine ⟨ranged.implicit, ranged.scopes, ?_, ?_, ranged.scopeOf, ranged.unresolved⟩
  · intro symbol member
    rcases SymbolTable.mem_declare member with old | ⟨isScope, isNode⟩
    · exact ranged.symbols symbol old
    · rw [isScope, isNode]
      exact ⟨inside, known⟩
  · intro node symbol found
    simp only [Resolution.declare] at found ⊢
    have old (known : resolution.symbolOf[node]? = some symbol) : node < arena.size ∧
        symbol < (resolution.symbols.declare hoisted.name hoisted.kind scope hoisted.node).size :=
      (ranged.symbolOf node symbol known).imp_right (Nat.lt_of_lt_of_le · grows)
    split at found
    case isTrue =>
      obtain ⟨rfl, rfl⟩ | known := eq_or_of_getElem?_insert found
      · obtain ⟨own, declared⟩ := resolution.symbols.exists_findLocal?_declare hoisted.name
          hoisted.kind scope hoisted.node
        rw [declared]
        exact ⟨inside, SymbolTable.lt_of_findLocal? declared⟩
      · exact old known
    case isFalse => exact old found

theorem Ranged.refer {node symbol : Nat} (inside : node < arena.size)
    (known : symbol < resolution.symbols.size) : (resolution.refer node symbol).Ranged arena := by
  have size := resolution.symbols.size_addReference symbol node
  refine ⟨ranged.implicit, ranged.scopes, ?_, ?_, ranged.scopeOf, ranged.unresolved⟩
  · intro other member
    obtain ⟨old, held, isScope, isNode⟩ := SymbolTable.mem_addReference member
    rw [isScope, isNode]
    exact ranged.symbols old held
  · intro other target found
    rw [symbolOf_refer] at found
    change _ ∧ target < (resolution.symbols.addReference symbol node).size
    rw [size]
    split at found
    case isTrue same =>
      obtain rfl := Option.some.inj found
      exact ⟨same ▸ inside, known⟩
    case isFalse => exact ranged.symbolOf other target found

theorem Ranged.referNew {node : Nat} (name : String) (kind : SymbolKind)
    (known : scope < resolution.scopes.size) (inside : node < arena.size) :
    (resolution.referNew name kind scope node).Ranged arena := by
  have declared : (resolution.declare scope { name, kind, node }).Ranged arena :=
    ranged.declare known inside
  obtain ⟨symbol, found⟩ := resolution.symbols.exists_findLocal?_declare name kind scope node
  have found : (resolution.declare scope { name, kind, node }).symbols.findLocal? name scope =
      some symbol := found
  rw [Resolution.referNew, found]
  exact declared.refer inside (SymbolTable.lt_of_findLocal? found)

theorem Ranged.resolve {node : Nat} (known : scope < resolution.scopes.size)
    (inside : node < arena.size) (name : String) (role : Role) :
    (resolution.resolve scope node name role).Ranged arena := by
  obtain ⟨kind, place, unresolved, same, found⟩ := resolve_eq resolution scope node name role
  rw [same]
  obtain ⟨above, rfl, -⟩ | ⟨rfl, -, noted⟩ := found
  · exact ranged.referNew name kind (ranged.chain known place above) inside
  · -- an undeclared name is noted first, unless it is one of the host's
    have ranged' : Ranged arena { resolution with unresolved } := by
      refine { ranged with unresolved := fun reference member => ?_ }
      simp only [noted] at member
      split at member
      · exact ranged.unresolved reference member
      · rcases Array.mem_push.mp member with old | rfl
        · exact ranged.unresolved reference old
        · exact inside
    exact ranged'.referNew name kind ranged.implicit inside

theorem Ranged.share {node : Nat} (known : scope < resolution.scopes.size)
    (inside : node < arena.size) :
    Ranged arena { resolution with scopeOf := resolution.scopeOf.insert node scope } := by
  refine { ranged with scopeOf := fun other place found => ?_ }
  obtain ⟨rfl, rfl⟩ | old := eq_or_of_getElem?_insert found
  · exact ⟨inside, known⟩
  · exact ranged.scopeOf other place old

end

def Move.Inside (arena : Arena) : Move → Prop
  | .enter _ _ node _ | .share _ node | .resolve _ node _ _ => node < arena.size
  | .declare _ hoisted => hoisted.node < arena.size

section

variable {arena : Arena} {resolution : Resolution} (ranged : resolution.Ranged arena)

include ranged

theorem Ranged.apply {move : Move} (sound : move.Sound resolution.scopes.size)
    (inside : move.Inside arena) : (move.apply resolution).Ranged arena := by
  cases move with
  | enter kind parent node inner => exact ranged.enter kind sound.1 inside
  | share scope node => exact ranged.share sound.1 inside
  | declare scope hoisted => exact ranged.declare sound.1 inside
  | resolve scope node name role => exact ranged.resolve sound.1 inside name role

omit ranged in
theorem Ranged.run {moves : List Move} (ranged : resolution.Ranged arena)
    (sound : Sound resolution.scopes.size moves) (inside : ∀ move ∈ moves, move.Inside arena) :
    (run resolution moves).Ranged arena := by
  induction moves generalizing resolution with
  | nil => exact ranged
  | cons move rest ih =>
    obtain ⟨here, there⟩ := forall_mem_cons.mp inside
    refine ih (ranged.apply sound.1 here) ?_ there
    rw [size_apply]
    exact sound.2

end

section

variable {arena : Arena} (well : arena.WellNumbered)

include well

omit well in
theorem inside_declares (declared : Inside arena hoisted) {first : Move}
    (visits : first.Inside arena) (scope : Nat) :
    ∀ move ∈ first :: hoisted.map (.declare scope), move.Inside arena :=
  forall_mem_cons.mpr ⟨visits, forall_mem_map.mpr declared⟩

theorem inside_opening {part : Syntree} (inside : part ∈ arena.tree.subtrees) (isBody : Bool)
    (scope next : Nat) :
    ∀ move ∈ (opening arena isBody scope next part.label part.children).own,
      move.Inside arena := by
  obtain ⟨node, children⟩ := part
  have own : node.id < arena.size := well.id_lt inside
  have below : ∀ child ∈ children, child ∈ arena.tree.subtrees := fun child held =>
    Rose.mem_subtrees_of_child held inside
  obtain ⟨-, -, same⟩ | ⟨-, ⟨kind, hoisted, opened, same⟩ | ⟨-, same⟩⟩ :=
    opening_cases arena isBody scope next node children
  all_goals rw [Rose.label, Rose.children, same]
  · exact inside_declares (inside_append.mpr
      ⟨inside_hoistedVarsAll children, inside_hoistedBlock well below⟩) (by exact own) _
  · refine inside_declares ?_ (by exact own) _
    obtain ⟨_, _, _, _, _, _, _, -, rfl, rfl, rfl⟩ | opened := openedBy_cases opened
    · exact inside_headHoisted well inside _ _
    · exact inside_opens well inside opened
  · exact forall_mem_nil _

theorem inside_allMoves : ∀ move ∈ allMoves arena, move.Inside arena := by
  intro move member
  obtain top | ⟨part, inside, ⟨_, _, _, -, rfl⟩ | ⟨isBody, scope, next, own, -⟩⟩ :=
    made_allMoves member
  · exact inside_declares (inside_append.mpr ⟨inside_hoistedVarsAll _,
      inside_hoistedBlock well fun stmt held => Rose.child_mem_subtrees (mem_of_mem_drop held)⟩)
      (by exact well.root_lt) _ move top
  · exact well.id_lt inside
  · exact inside_opening well inside isBody scope next move own

theorem ranged_bare : bare.Ranged arena where
  implicit := by decide
  scopes := by
    have root := well.root_lt
    simp [bare, initial, ScopeTree.create, root]
  symbols := by simp [bare, initial]
  symbolOf := by simp [bare, initial]
  scopeOf := by simp [bare]
  unresolved := by simp [bare, initial]

theorem ranged_ofArena : (ofArena arena).Ranged arena := by
  rw [ofArena_eq_run]
  exact (ranged_bare well).run (sound_allMoves arena) (inside_allMoves well)

end

end Resolution

end Seepage

import Seepage.Proofs.Scope.Coverage
import Seepage.Proofs.Scope.Reference

set_option autoImplicit false

namespace Seepage

open List

variable {resolution : Resolution}

theorem SymbolTable.find?_congr {table other : SymbolTable} {name : String} {scopes : List Nat}
    (same : ∀ place ∈ scopes, table.findLocal? name place = other.findLocal? name place) :
    table.find? name scopes = other.find? name scopes := by
  induction scopes with
  | nil => rfl
  | cons scope outer ih =>
    obtain ⟨here, there⟩ := forall_mem_cons.mp same
    have rest : outer.findSome? (table.findLocal? name) = outer.findSome? (other.findLocal? name) :=
      ih there
    rw [find?, find?, findSome?_cons, findSome?_cons, here, rest]

namespace Resolution

def Move.Settled (resolution : Resolution) : Move → Prop
  | .resolve scope _ name (.declare _) => resolution.Finds scope name
  | _ => True

def Settled (resolution : Resolution) (moves : List Move) : Prop :=
  ∀ before move after, moves = before ++ move :: after → move.Settled (run resolution before)

theorem Settled.rest {resolution : Resolution} {first second : List Move}
    (settled : Settled resolution (first ++ second)) : Settled (run resolution first) second := by
  rintro before move after rfl
  rw [← run_append]
  exact settled _ move after (append_assoc ..).symm

theorem settled_allMoves {arena : Arena} (well : arena.WellNumbered) (laid : arena.LaidOut)
    (grammatical : arena.isGrammatical) : Settled bare (allMoves arena) := by
  intro before move after whole
  cases move with
  | enter | share | declare => trivial
  | resolve scope id name role =>
    cases role with
    | read | write | readWrite => trivial
    | declare kind =>
      have isIdent : arena.kind id = .ident name (.declare kind) :=
        kind_of_resolve well (by rw [whole]; exact mem_append_right _ mem_cons_self)
      obtain ⟨tree, inside, rfl, isIdent, -⟩ := exists_visits_ident well laid isIdent
      obtain ⟨isBody, scope', before', after', visits, finds⟩ :=
        finds_declared well laid grammatical inside isIdent
      obtain ⟨rfl, same, -⟩ := split_unique (sites_allMoves well) whole (visits.whole_ident isIdent)
        rfl rfl
      cases same
      exact finds

section

variable (name : String) {place : Nat} (apart : place ≠ unresolvedScope)

include apart

theorem findLocal?_apply {move : Move} (settled : move.Settled resolution)
    (other : ∀ entry, move ≠ .declare place entry) :
    (move.apply resolution).symbols.findLocal? name place =
      resolution.symbols.findLocal? name place := by
  cases move with
  | enter | share => rfl
  | declare scope hoisted =>
    have differ : place ≠ scope := fun same => other hoisted (same ▸ rfl)
    rw [Move.apply, findLocal?_declare, if_neg fun same => differ same.2, Option.or_none]
  | resolve scope node looked role =>
    obtain ⟨kind, found, unresolved, same, where_⟩ := resolve_eq resolution scope node looked role
    rw [Move.apply, same]
    obtain ⟨-, -, first, declares⟩ | ⟨rfl, -, -⟩ := where_
    · cases result : resolution.symbols.findLocal? looked found with
      | some symbol =>
        rw [referNew_of_findLocal? { resolution with unresolved } _ _ _ kind result]
        exact SymbolTable.findLocal?_addReference ..
      | none =>
        obtain ⟨kind, rfl⟩ := declares result
        rw [Move.Settled, Finds, ← first, result] at settled
        cases settled
    · obtain ⟨symbol, -, new⟩ :=
        referNew_eq { resolution with unresolved } unresolvedScope node looked kind
      rw [new, SymbolTable.findLocal?_addReference, SymbolTable.findLocal?_declare,
        if_neg fun same => apart same.2, Option.or_none]

theorem findLocal?_run {moves : List Move}
    (settled : Settled resolution moves) (other : ∀ entry, .declare place entry ∉ moves) :
    (run resolution moves).symbols.findLocal? name place =
      resolution.symbols.findLocal? name place := by
  induction moves generalizing resolution with
  | nil => rfl
  | cons move rest ih =>
    have here : move.Settled resolution := settled [] move rest rfl
    have there : Settled (move.apply resolution) rest :=
      @Settled.rest resolution [move] rest settled
    have differ : ∀ entry, move ≠ .declare place entry := fun entry same =>
      other entry (same ▸ mem_cons_self)
    rw [run, foldl_cons, ← run, ih there fun entry member => other entry (.tail _ member),
      findLocal?_apply name apart here differ]

end

section

variable {arena : Arena} {tree : Syntree} {name : String} {role : Role}
  (isIdent : tree.label.kind = .ident name role) {isBody : Bool} {scope : Nat}
  {before after : List Move} (visits : Visits arena tree isBody scope before after)

include visits

theorem Visits.chain_final :
    (ofArena arena).scopes.chain scope = (run bare before).scopes.chain scope := by
  refine visits.extends_final.chain ?_
  rw [(grounded_before visits.whole).2]
  exact visits.known

include isIdent

theorem Visits.find?_final (settled : Settled bare (allMoves arena))
    (free : arena.inParameters tree.label.id = false) :
    (ofArena arena).symbols.find? name ((ofArena arena).scopes.chain scope) =
      (run bare before).symbols.find? name ((run bare before).scopes.chain scope) := by
  obtain ⟨grounded, size⟩ := grounded_before visits.whole
  rw [visits.chain_final]
  refine SymbolTable.find?_congr fun place above => ?_
  obtain ⟨known, apart⟩ := grounded.around scope (size ▸ visits.known) visits.declared place above
  have whole := visits.whole_ident isIdent
  rw [whole] at settled
  rw [ofArena_eq_run, whole, run_append]
  refine findLocal?_run name apart settled.rest fun entry member => ?_
  obtain here | later := mem_cons.mp member
  · cases here
  · have late := visits.later free place entry later
    omega

end

theorem symbolOf_found_at_end {file : Script.File} {arena : Arena}
    (read : Arena.ofFile file = .ok arena) (grammatical : arena.isGrammatical) {id : Nat}
    {name : String} {role : Role} (isIdent : arena.kind id = .ident name role)
    (free : arena.inParameters id = false) :
    ∃ scope symbol, (ofArena arena).innermost? (arena.ancestors id) = some scope ∧
      ((ofArena arena).scopes.chain scope).getLast? = some globalScope ∧
      (ofArena arena).symbolOf[id]? = some symbol ∧
      (((ofArena arena).symbols.find? name ((ofArena arena).scopes.chain scope)).or
        ((ofArena arena).symbols.findLocal? name unresolvedScope)) = some symbol ∧
      ((ofArena arena).isImplicit symbol ↔
        (ofArena arena).symbols.find? name ((ofArena arena).scopes.chain scope) = none) := by
  obtain ⟨well, laid⟩ := Arena.shaped_ofFile read
  have settled := settled_allMoves well laid grammatical
  obtain ⟨tree, inside, rfl, isIdent, isBody, scope, before, after, visits⟩ :=
    exists_visits_ident well laid isIdent
  obtain ⟨place, symbol, bound, found, where_⟩ := visits.bound well inside isIdent laid
  replace found := (visits.extends_ident isIdent).kept _ _ _ found
  have final := visits.find?_final isIdent settled free
  have implicit : (ofArena arena).isImplicit symbol = (place == unresolvedScope) :=
    congrArg (· == _) (SymbolTable.name_of_findLocal? found).2
  obtain ⟨grounded, size⟩ := grounded_before visits.whole
  have known : scope < (run bare before).scopes.size := size ▸ visits.known
  have outermost := grounded.outermost scope known visits.declared
  rw [← visits.chain_final] at outermost
  refine ⟨scope, symbol, visits.around, outermost, bound, ?_⟩
  rw [implicit, final]
  obtain ⟨above, looked, finds⟩ | ⟨rfl, absent⟩ := where_
  · have finds : (run bare before).Finds scope name := by
      obtain finds | ⟨kind, rfl⟩ := finds
      · exact finds
      · exact settled _ _ _ (visits.whole_ident isIdent)
    obtain ⟨first, result⟩ := Option.isSome_iff_exists.mp finds
    rw [result] at looked ⊢
    have still := visits.extends_final.kept _ _ _ looked
    obtain rfl : first = symbol := Option.some.inj (still.symm.trans found)
    have apart := (grounded.around scope known visits.declared place above).2
    simp [apart]
  · rw [Finds, Option.not_isSome_iff_eq_none] at absent
    simp [absent, found]

-- `() => { { x = y; } let x; };`
def usedBefore : Script.File := .sample [
  .expr (.arrow (.mk [] (.block (.mk [.block (.mk [.expr (.assign "=" (.ident "x") (.ident "y") {})
    {}] {}), .vars .letBinding [.mk (.ident "x") none {}] {}] {})) {})) {}]

theorem symbolOf_found_at_end_usedBefore :
    ∃ arena, Arena.ofFile usedBefore = .ok arena ∧ arena.isGrammatical ∧
      arena.kind 11 = .ident "x" .write ∧ arena.inParameters 11 = false ∧
      (∃ scope symbol, (ofArena arena).innermost? (arena.ancestors 11) = some scope ∧
        ((ofArena arena).scopes.chain scope).getLast? = some globalScope ∧
        (ofArena arena).symbolOf[11]? = some symbol ∧
        (((ofArena arena).symbols.find? "x" ((ofArena arena).scopes.chain scope)).or
          ((ofArena arena).symbols.findLocal? "x" unresolvedScope)) = some symbol ∧
        ((ofArena arena).isImplicit symbol ↔
          (ofArena arena).symbols.find? "x" ((ofArena arena).scopes.chain scope) = none)) ∧
      (ofArena arena).symbolOf[11]? = some 0 ∧ (ofArena arena).symbolOf[15]? = some 0 ∧
      (ofArena arena).symbolOf[12]? = some 1 ∧ (ofArena arena).isImplicit 1 := by
  refine ⟨_, rfl, by decide +kernel, by decide +kernel, by decide +kernel, ?_, by decide +kernel⟩
  exact @symbolOf_found_at_end usedBefore _ rfl (by decide +kernel) 11 "x" .write
    (by decide +kernel) (by decide +kernel)

end Resolution

end Seepage

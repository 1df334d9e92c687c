import Seepage.Proofs.Scope.Recording
import Seepage.Proofs.Scope.Surroundings

set_option autoImplicit false

namespace Seepage.Resolution

open List

variable {arena : Arena} {id : Nat}

theorem sites_allMoves (well : arena.WellNumbered) : (sites (allMoves arena)).Pairwise (· < ·) := by
  obtain ⟨ancestors, start, positive, numbered⟩ := numbered_top well
  have parts :=
    (sites_moves arena).2 globalScope 2 (arena.tree.children.drop 2).length _ _ _ numbered
  have top : sites (topHoisted arena) = [Arena.root] := by
    simp only [topHoisted, sites_cons, sites_declares, Move.site?]
    rfl
  rw [allMoves, sites_append, top]
  refine pairwise_cons.mpr ⟨fun site member => ?_, parts.increasing⟩
  exact Nat.lt_of_lt_of_le positive (parts.within site member).1

section

variable {moves before after : List Move} {move : Move} {node : Nat}

theorem not_mem_sites (increasing : (sites moves).Pairwise (· < ·))
    (split : moves = before ++ move :: after) (site : move.site? = some node) :
    node ∉ sites before ∧ node ∉ sites after := by
  rw [split, sites_append, sites_cons, site, pairwise_append] at increasing
  obtain ⟨-, rest, across⟩ := increasing
  refine ⟨fun early => ?_, fun late => ?_⟩
  · exact Nat.lt_irrefl _ (across node early node mem_cons_self)
  · exact Nat.lt_irrefl _ (rel_of_pairwise_cons rest late)

theorem mem_sites (member : move ∈ moves) (site : move.site? = some node) : node ∈ sites moves :=
  mem_filterMap.mpr ⟨move, member, site⟩

theorem split_unique (increasing : (sites moves).Pairwise (· < ·)) {before' after' : List Move}
    {move' : Move} (split : moves = before ++ move :: after)
    (split' : moves = before' ++ move' :: after') (site : move.site? = some node)
    (site' : move'.site? = some node) : before = before' ∧ move = move' ∧ after = after' := by
  have outside := (not_mem_sites increasing split site).1
  have outside' := (not_mem_sites increasing split' site').1
  obtain ⟨between, longer, rest⟩ | ⟨between, longer, rest⟩ :=
    append_eq_append_iff.mp (split.symm.trans split')
  all_goals obtain _ | ⟨first, others⟩ := between
  · cases rest
    exact ⟨by simpa using longer.symm, rfl, rfl⟩
  · cases rest
    exact absurd (mem_sites (by simp [longer]) site) outside'
  · cases rest
    exact ⟨by simpa using longer, rfl, rfl⟩
  · cases rest
    exact absurd (mem_sites (by simp [longer]) site') outside

end

theorem symbolOf_resolve_of_ne (resolution : Resolution) {node : Nat} (differ : node ≠ id)
    (scope : Nat) (name : String) (role : Role) :
    (resolution.resolve scope node name role).symbolOf[id]? = resolution.symbolOf[id]? := by
  obtain ⟨kind, place, unresolved, same, -⟩ := resolve_eq resolution scope node name role
  obtain ⟨symbol, -, new⟩ := referNew_eq { resolution with unresolved } place node name kind
  rw [same, new]
  simp [Std.TreeMap.getElem?_insert, differ]

section

variable {arena : Arena} {id : Nat} (isIdent : (arena.identName? id).isSome)

include isIdent

theorem symbolOf_apply (resolution : Resolution) {move : Move} (faithful : move.Faithful arena)
    (other : id ∉ move.site?) :
    (move.apply resolution).symbolOf[id]? = resolution.symbolOf[id]? := by
  cases move with
  | enter | share => rfl
  | declare scope hoisted =>
    refine symbolOf_declare _ _ fun own same => ?_
    rw [← same, faithful own] at isIdent
    cases isIdent
  | resolve scope node name role =>
    have differ : node ≠ id := fun same => other (same ▸ rfl)
    exact symbolOf_resolve_of_ne _ differ ..

theorem symbolOf_run (resolution : Resolution) {moves : List Move}
    (faithful : ∀ move ∈ moves, move.Faithful arena) (other : id ∉ sites moves) :
    (run resolution moves).symbolOf[id]? = resolution.symbolOf[id]? := by
  induction moves generalizing resolution with
  | nil => rfl
  | cons move rest ih =>
    obtain ⟨here, there⟩ := forall_mem_cons.mp faithful
    rw [sites_cons, mem_append, not_or] at other
    rw [run, foldl_cons, ← run, ih _ there other.2, symbolOf_apply isIdent _ here]
    simpa using other.1

end

section

variable {arena : Arena} (well : arena.WellNumbered) {tree : Syntree}
  (inside : tree ∈ arena.tree.subtrees) {name : String} {role : Role}
  (isIdent : tree.label.kind = .ident name role) {isBody : Bool} {scope : Nat}
  {before after : List Move} (visits : Visits arena tree isBody scope before after)

include visits

theorem Visits.extends_final : Extends (run bare before) (ofArena arena) := by
  rw [ofArena_eq_run, visits.whole, append_assoc, run_append]
  exact extends_run ..

include isIdent

theorem Visits.whole_ident :
    allMoves arena = before ++ .resolve scope tree.label.id name role :: after := by
  obtain ⟨node, children⟩ := tree
  have isIdent : node.kind = .ident name role := isIdent
  have whole := visits.whole
  rw [moves_ident isIdent, append_assoc] at whole
  exact whole

theorem Visits.final_ident :
    ofArena arena = run ((run bare before).resolve scope tree.label.id name role) after := by
  rw [ofArena_eq_run, visits.whole_ident isIdent, run_append]
  rfl

theorem Visits.extends_ident :
    Extends ((run bare before).resolve scope tree.label.id name role) (ofArena arena) := by
  rw [visits.final_ident isIdent]
  exact extends_run ..

include well inside

theorem Visits.bound (laid : arena.LaidOut) : ∃ place symbol,
    (ofArena arena).symbolOf[tree.label.id]? = some symbol ∧
    ((run bare before).resolve scope tree.label.id name role).symbols.findLocal? name place =
      some symbol ∧
    (place ∈ (run bare before).scopes.chain scope ∧
        (run bare before).symbols.findLocal? name place =
          (run bare before).symbols.find? name ((run bare before).scopes.chain scope) ∧
        ((run bare before).Finds scope name ∨ ∃ kind, role = .declare kind) ∨
      place = unresolvedScope ∧ ¬(run bare before).Finds scope name) := by
  have whole := visits.whole_ident isIdent
  have named : (arena.identName? tree.label.id).isSome := by
    rw [Arena.identName?, well.kind_eq inside, isIdent]
    rfl
  have faithful : ∀ move ∈ after, move.Faithful arena := fun move member =>
    faithful_allMoves well laid move (by simp [whole, member])
  have once := (not_mem_sites (sites_allMoves well) whole rfl).2
  obtain ⟨kind, place, unresolved, same, where_⟩ :=
    resolve_eq (run bare before) scope tree.label.id name role
  obtain ⟨symbol, found, new⟩ :=
    referNew_eq { run bare before with unresolved } place tree.label.id name kind
  refine ⟨place, symbol, ?_, ?_, ?_⟩
  · rw [visits.final_ident isIdent, symbolOf_run named _ faithful once, same, new]
    exact Std.TreeMap.getElem?_insert_self
  · rw [same]
    exact (SymbolTable.findLocal?_addReference ..).trans found
  · obtain ⟨above, -, looked, fresh⟩ | ⟨outside, absent, -⟩ := where_
    · refine .inl ⟨above, looked, ?_⟩
      rw [looked] at fresh
      unfold Finds
      cases result :
        (run bare before).symbols.find? name ((run bare before).scopes.chain scope) with
      | none => exact .inr (fresh result)
      | some => exact .inl rfl
    · refine .inr ⟨outside, ?_⟩
      rw [Finds, absent]
      exact Bool.false_ne_true

end

theorem exists_visits_ident (well : arena.WellNumbered) (laid : arena.LaidOut) {name : String}
    {role : Role} (isIdent : arena.kind id = .ident name role) :
    ∃ tree ∈ arena.tree.subtrees, tree.label.id = id ∧ tree.label.kind = .ident name role ∧
      ∃ isBody scope before after, Visits arena tree isBody scope before after := by
  have known : id < arena.size := Arena.lt_size_of_kind (by rw [isIdent]; nofun)
  obtain ⟨tree, inside, rfl⟩ := well.exists_subtree known
  have isIdent : tree.label.kind = .ident name role := (well.kind_eq inside).symm.trans isIdent
  refine ⟨tree, inside, rfl, isIdent, exists_visits well laid inside ?_ ?_ ?_⟩
  · rintro rfl
    rw [laid.program] at isIdent
    cases isIdent
  · rw [isIdent]
    nofun
  · rw [isIdent]
    nofun

end Seepage.Resolution

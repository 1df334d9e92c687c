import Seepage.Proofs.Scope.Sites

set_option autoImplicit false

namespace Seepage

open List SymbolTable
open Rose hiding node

variable {symbol scope node : Nat} {name : String} {tree : Syntree}

namespace SymbolTable

def Distinct (table : SymbolTable) : Prop :=
  ∀ first < table.size, ∀ second < table.size,
    (table.get first).scope = (table.get second).scope →
    (table.get first).name = (table.get second).name → first = second

variable {table : SymbolTable} {name : String} {kind : SymbolKind} {scope node : Nat}

theorem declare_cases (table : SymbolTable) (name : String) (kind : SymbolKind) (scope node : Nat) :
    table.declare name kind scope node = table ∨
      table.findLocal? name scope = none ∧
      (table.declare name kind scope node).size = table.size + 1 ∧
      (table.declare name kind scope node).get table.size =
        { name, kind, scope, declaration := node } := by
  unfold declare
  split
  case h_1 => exact .inl rfl
  case h_2 absent => exact .inr ⟨absent, by simp [size], by simp [get, size]⟩

theorem ne_of_findLocal? (absent : table.findLocal? name scope = none) (known : symbol < table.size)
    (same : (table.get symbol).scope = scope) : (table.get symbol).name ≠ name := by
  intro named
  have known' : symbol < table.symbols.size := known
  have differ := Array.findIdx?_eq_none_iff.mp absent _ (Array.getElem_mem known')
  have get : table.get symbol = table.symbols[symbol] := by simp [get, known']
  rw [← get, same, named] at differ
  simp at differ

theorem Distinct.declare (distinct : table.Distinct) :
    (table.declare name kind scope node).Distinct := by
  obtain same | ⟨absent, size, new⟩ := declare_cases table name kind scope node
  · rw [same]
    exact distinct
  · have fresh {symbol : Nat} (known : symbol < table.size)
        (same : (table.get symbol).scope = scope) : (table.get symbol).name ≠ name :=
      ne_of_findLocal? absent known same
    intro first known second known' scopes names
    rw [size] at known known'
    rcases Nat.lt_succ_iff_lt_or_eq.mp known with old | rfl <;>
      rcases Nat.lt_succ_iff_lt_or_eq.mp known' with old' | rfl
    · rw [get_declare_of_lt old, get_declare_of_lt old'] at scopes names
      exact distinct first old second old' scopes names
    · rw [get_declare_of_lt old, new] at scopes names
      exact absurd names (fresh old scopes)
    · rw [get_declare_of_lt old', new] at scopes names
      exact absurd names.symm (fresh old' scopes.symm)
    · rfl

theorem Distinct.addReference (distinct : table.Distinct) (symbol : Nat) :
    (table.addReference symbol node).Distinct := by
  have same (other : Nat) :
      ((table.addReference symbol node).get other).scope = (table.get other).scope ∧
      ((table.addReference symbol node).get other).name = (table.get other).name := by
    rw [get_addReference]
    split <;> exact ⟨rfl, rfl⟩
  intro first known second known' scopes names
  rw [size_addReference] at known known'
  rw [(same first).1, (same second).1] at scopes
  rw [(same first).2, (same second).2] at names
  exact distinct first known second known' scopes names

end SymbolTable

namespace Resolution

def isReported (resolution : Resolution) (arena : Arena) (node : Nat) : Bool :=
  (resolution.symbolOf[node]?).any resolution.isImplicit &&
    (arena.identName? node).any fun name => !knownGlobals.contains name

structure Recorded (arena : Arena) (resolution : Resolution) (done : List Nat) : Prop where
  distinct : resolution.symbols.Distinct
  bound : ∀ node ∈ done, ∃ symbol, resolution.symbolOf[node]? = some symbol ∧
    symbol < resolution.symbols.size
  references : ∀ symbol < resolution.symbols.size,
    (resolution.symbols.get symbol).references.toList =
      done.filter fun node => resolution.symbolOf[node]? == some symbol
  unresolved : resolution.unresolved.toList.map (·.node) =
    done.filter (resolution.isReported arena)

section

variable {arena : Arena} {resolution : Resolution} {done : List Nat}
  (recorded : resolution.Recorded arena done)

include recorded

theorem Recorded.declare {hoisted : Hoisted}
    (other : hoisted.ownNode = true → hoisted.node ∉ done) :
    (resolution.declare scope hoisted).Recorded arena done := by
  have symbolOf : ∀ node ∈ done,
      (resolution.declare scope hoisted).symbolOf[node]? = resolution.symbolOf[node]? := by
    intro node member
    exact symbolOf_declare _ _ fun own same => other own (same ▸ member)
  have later := Extends.declare resolution scope hoisted
  have bound : ∀ node ∈ done, ∃ symbol,
      (resolution.declare scope hoisted).symbolOf[node]? = some symbol ∧
        symbol < resolution.symbols.size := by
    intro node member
    rw [symbolOf node member]
    exact recorded.bound node member
  refine ⟨recorded.distinct.declare, ?_, ?_, ?_⟩
  · intro node member
    obtain ⟨symbol, found, known⟩ := bound node member
    exact ⟨symbol, found, Nat.lt_of_lt_of_le known later.symbols⟩
  · intro symbol known
    have same : (done.filter fun node =>
        (resolution.declare scope hoisted).symbolOf[node]? == some symbol) =
        done.filter fun node => resolution.symbolOf[node]? == some symbol :=
      filter_congr fun node member => by rw [symbolOf node member]
    rw [same]
    by_cases old : symbol < resolution.symbols.size
    · rw [← recorded.references symbol old]
      simp only [Resolution.declare, get_declare_of_lt old]
    · -- a new symbol, to which no identifier is bound yet
      have none : (done.filter fun node => resolution.symbolOf[node]? == some symbol) = [] := by
        refine filter_eq_nil_iff.mpr fun node member isBound => ?_
        obtain ⟨bound, found, small⟩ := recorded.bound node member
        rw [found, beq_iff_eq, Option.some.injEq] at isBound
        exact old (isBound ▸ small)
      obtain unchanged | ⟨-, size, new⟩ := resolution.symbols.declare_cases hoisted.name
        hoisted.kind scope hoisted.node
      · simp only [Resolution.declare, unchanged] at known
        exact absurd known old
      · have newest : symbol = resolution.symbols.size := by
          simp only [Resolution.declare, size] at known
          omega
        rw [none]
        simp only [Resolution.declare, newest, new]
  · refine recorded.unresolved.trans (filter_congr fun node member => ?_)
    obtain ⟨symbol, found, known⟩ := recorded.bound node member
    simp only [isReported, symbolOf node member, found, Option.any_some, isImplicit,
      (later.symbol symbol known).1]

theorem Recorded.refer (fresh : node ∉ done)
    (known : symbol < resolution.symbols.size) {unresolved : Array UnresolvedReference}
    (noted : unresolved.toList.map (·.node) = resolution.unresolved.toList.map (·.node) ++
      if (resolution.isImplicit symbol &&
        (arena.identName? node).any fun name => !knownGlobals.contains name) then [node] else []) :
    ({ resolution with unresolved }.refer node symbol).Recorded arena (done ++ [node]) := by
  have symbolOf (other : Nat) :
      ({ resolution with unresolved }.refer node symbol).symbolOf[other]? =
        if node = other then some symbol else resolution.symbolOf[other]? :=
    symbolOf_refer ..
  have old : ∀ other ∈ done, ({ resolution with unresolved }.refer node symbol).symbolOf[other]? =
      resolution.symbolOf[other]? := by
    intro other member
    rw [symbolOf, if_neg]
    rintro rfl
    exact fresh member
  have size : ({ resolution with unresolved }.refer node symbol).symbols.size =
      resolution.symbols.size := size_addReference ..
  have implicit (other : Nat) :
      ({ resolution with unresolved }.refer node symbol).isImplicit other =
        resolution.isImplicit other := by
    simp only [isImplicit, Resolution.refer, get_addReference]
    split <;> rfl
  refine ⟨recorded.distinct.addReference symbol, ?_, ?_, ?_⟩
  · intro other member
    rw [size]
    obtain before | last := mem_append.mp member
    · rw [old other before]
      exact recorded.bound other before
    · obtain rfl := mem_singleton.mp last
      rw [symbolOf, if_pos rfl]
      exact ⟨symbol, rfl, known⟩
  · intro other bound
    rw [size] at bound
    have same : (done.filter fun id =>
        ({ resolution with unresolved }.refer node symbol).symbolOf[id]? == some other) =
        done.filter fun id => resolution.symbolOf[id]? == some other :=
      filter_congr fun id member => by rw [old id member]
    rw [filter_append, same, ← recorded.references other bound]
    simp only [Resolution.refer, get_addReference]
    by_cases here : other = symbol
    · simp [here, known]
    · simp [here, Ne.symm here]
  · have same : done.filter (isReported ({ resolution with unresolved }.refer node symbol) arena) =
        done.filter (resolution.isReported arena) :=
      filter_congr fun id member => by
        simp only [isReported, old id member, funext implicit]
    have here : isReported ({ resolution with unresolved }.refer node symbol) arena node =
        (resolution.isImplicit symbol &&
          (arena.identName? node).any fun name => !knownGlobals.contains name) := by
      simp only [isReported, symbolOf, if_pos, Option.any_some, implicit]
    rw [filter_append, same, ← recorded.unresolved, filter_cons, here]
    exact noted

theorem Recorded.resolve (role : Role) (grounded : resolution.Grounded)
    (sound : (Move.resolve scope node name role).Sound resolution.scopes.size)
    (named : arena.identName? node = some name) (fresh : node ∉ done) :
    (resolution.resolve scope node name role).Recorded arena (done ++ [node]) := by
  obtain ⟨kind, place, unresolved, same, where_⟩ := resolve_eq resolution scope node name role
  obtain ⟨symbol, found⟩ := resolution.symbols.exists_findLocal?_declare name kind place node
  let declared := resolution.declare place { name, kind, node }
  have step : { resolution with unresolved }.referNew name kind place node =
      { declared with unresolved }.refer node symbol := by
    simp only [referNew, Resolution.declare, found, Option.getD_some, declared]
  have implicit : declared.isImplicit symbol = (place == unresolvedScope) := by
    exact congrArg (· == _) (name_of_findLocal? found).2
  have recordedDeclared : declared.Recorded arena done :=
    recorded.declare fun own => absurd own Bool.false_ne_true
  have known : symbol < declared.symbols.size := lt_of_findLocal? found
  rw [same, step]
  refine recordedDeclared.refer fresh known ?_
  rw [implicit, named]
  obtain ⟨above, rfl, -⟩ | ⟨rfl, -, rfl⟩ := where_
  · have apart := (grounded.around scope sound.1 sound.2 place above).2
    simp [apart]
    rfl
  · by_cases known : name ∈ knownGlobals
    · simp [known]
      rfl
    · simp [known]
      rfl

end

def Move.looked? : Move → Option Nat
  | .resolve _ node _ _ => some node
  | _ => none

def lookedUp (moves : List Move) : List Nat :=
  moves.filterMap Move.looked?

def Move.Faithful (arena : Arena) : Move → Prop
  | .declare _ hoisted => hoisted.ownNode = true → arena.identName? hoisted.node = none
  | .resolve _ node name _ => arena.identName? node = some name
  | _ => True

theorem faithful_looked {arena : Arena} {move : Move} (faithful : move.Faithful arena)
    (looked : node ∈ move.looked?) : (arena.identName? node).isSome := by
  cases move with
  | resolve scope site name role =>
    cases looked
    exact Option.isSome_of_eq_some faithful
  | _ => cases looked

section

variable {arena : Arena} {resolution : Resolution} {done : List Nat}
  (recorded : resolution.Recorded arena done) (grounded : resolution.Grounded)
  (idents : ∀ node ∈ done, (arena.identName? node).isSome)

include recorded grounded idents

theorem Recorded.apply {move : Move} (sound : move.Sound resolution.scopes.size)
    (faithful : move.Faithful arena) (fresh : ∀ node ∈ move.looked?, node ∉ done) :
    (move.apply resolution).Recorded arena (done ++ move.looked?.toList) := by
  cases move with
  | enter kind parent node inner =>
    simp only [Move.looked?, Option.toList_none, append_nil]
    exact ⟨recorded.distinct, recorded.bound, recorded.references, recorded.unresolved⟩
  | share scope node =>
    simp only [Move.looked?, Option.toList_none, append_nil]
    exact ⟨recorded.distinct, recorded.bound, recorded.references, recorded.unresolved⟩
  | declare scope hoisted =>
    simp only [Move.looked?, Option.toList_none, append_nil]
    refine recorded.declare fun own member => ?_
    have isIdent := idents _ member
    rw [faithful own] at isIdent
    cases isIdent
  | resolve scope node name role =>
    exact recorded.resolve role grounded sound faithful (fresh node rfl)

theorem Recorded.run {moves : List Move} (sound : Sound resolution.scopes.size moves)
    (faithful : ∀ move ∈ moves, move.Faithful arena) (once : (done ++ lookedUp moves).Nodup) :
    (run resolution moves).Recorded arena (done ++ lookedUp moves) := by
  induction moves generalizing resolution done with
  | nil =>
    rw [lookedUp, filterMap_nil, append_nil]
    exact recorded
  | cons move rest ih =>
    obtain ⟨here, there⟩ := forall_mem_cons.mp faithful
    have split : done ++ lookedUp (move :: rest) =
        done ++ move.looked?.toList ++ lookedUp rest := by
      rw [lookedUp, filterMap_cons, append_assoc]
      cases move.looked? <;> rfl
    rw [split] at once ⊢
    have fresh : ∀ node ∈ move.looked?, node ∉ done := by
      intro node looked member
      have apart := disjoint_of_nodup_append (List.Nodup.of_append_left once)
      exact apart member (Option.mem_toList.mpr looked)
    refine ih (recorded.apply grounded idents sound.1 here fresh) (grounded.apply sound.1) ?_ ?_
      there once
    · intro node member
      obtain before | looked := mem_append.mp member
      · exact idents node before
      · exact faithful_looked here (Option.mem_toList.mp looked)
    · rw [size_apply]
      exact sound.2

end

def identsOf (trees : List Syntree) : List Nat :=
  (trees.filter (·.label.kind.isIdent)).map (·.label.id)

theorem identsOf_append (first second : List Syntree) :
    identsOf (first ++ second) = identsOf first ++ identsOf second := by
  simp [identsOf]

theorem identsOf_cons (noIdent : tree.label.kind.isIdent = false)
    (rest : List Syntree) : identsOf (tree :: rest) = identsOf rest := by
  simp [identsOf, noIdent]

theorem lookedUp_append (first second : List Move) :
    lookedUp (first ++ second) = lookedUp first ++ lookedUp second :=
  filterMap_append

theorem lookedUp_declares (scope : Nat) (hoisted : List Hoisted) :
    lookedUp (hoisted.map (.declare scope)) = [] := by
  rw [lookedUp, filterMap_map, filterMap_eq_nil_iff]
  exact fun _ _ => rfl

theorem lookedUp_opening (arena : Arena) (isBody : Bool) (scope next : Nat) (node : Node)
    (children : List Syntree) :
    lookedUp (opening arena isBody scope next node children).own = [] := by
  obtain ⟨-, -, same⟩ | ⟨-, ⟨kind, hoisted, -, same⟩ | ⟨-, same⟩⟩ :=
    opening_cases arena isBody scope next node children
  all_goals rw [same]
  · exact lookedUp_declares ..
  · exact lookedUp_declares ..
  · rfl

section

variable {arena : Arena} (laid : arena.LaidOut)

include laid

theorem identsOf_marker {marker : Syntree} (inside : marker ∈ arena.tree.subtrees)
    (isMarker : marker.label.kind = .entry ∨ marker.label.kind = .exit) :
    identsOf marker.subtrees = [] := by
  obtain ⟨label, children⟩ := marker
  have layout := laid.layout inside
  simp only [Rose.label] at isMarker
  have none : children = [] := by
    rcases isMarker with same | same <;> simpa [same, Kind.fits] using layout
  subst none
  rcases isMarker with same | same <;>
    simp [Rose.subtrees, subtreesAll, identsOf, Rose.label, same, Kind.isIdent]

theorem identsOf_owner (inside : tree ∈ arena.tree.subtrees)
    (owns : tree.label.kind.isOwner) : identsOf (subtreesAll tree.children) =
      identsOf (subtreesAll (tree.children.drop 2)) := by
  obtain ⟨entry, exit, parts, same, isEntry, isExit⟩ := laid.exists_ends inside owns
  have below : ∀ child ∈ entry :: exit :: parts, child ∈ arena.tree.subtrees := fun child held =>
    child_inside (same ▸ held) inside
  rw [same, subtreesAll, subtreesAll, identsOf_append, identsOf_append,
    identsOf_marker laid (below entry (by simp)) (.inl isEntry),
    identsOf_marker laid (below exit (by simp)) (.inr isExit)]
  rfl

theorem identsOf_visited {node : Node} {children : List Syntree}
    (inside : .node node children ∈ arena.tree.subtrees) :
    identsOf (subtreesAll children) =
        identsOf (subtreesAll (visited node children).2) ∧
      (visited node children).2.length ≤ (visited node children).1 + 1 := by
  unfold visited
  split
  case h_1 name form paramCount isExpr entry exit parts isFunction =>
    have owns : (Rose.node node (entry :: exit :: parts)).label.kind.isOwner := by
      rw [Rose.label, isFunction]
      rfl
    have layout := laid.layout inside
    simp [isFunction, Kind.fits] at layout
    refine ⟨identsOf_owner laid inside owns, ?_⟩
    change parts.length ≤ paramCount + 1
    omega
  case h_2 => exact ⟨rfl, Nat.le_succ _⟩

theorem lookedUp_moves :
    (∀ isBody scope next tree, tree ∈ arena.tree.subtrees →
      lookedUp (moves arena isBody scope next tree) = identsOf tree.subtrees) ∧
    ∀ scope next count trees, (∀ tree ∈ trees, tree ∈ arena.tree.subtrees) →
      trees.length ≤ count + 1 →
      lookedUp (movesParts arena scope next count trees) = identsOf (subtreesAll trees) := by
  refine moves_induction arena _ _ ?ident ?node ?nil ?body ?cons
  case ident =>
    intro isBody scope next node children name role isIdent inside
    have layout := laid.layout inside
    have none : children = [] := by simpa [isIdent, Kind.fits] using layout
    subst none
    rw [moves_ident isIdent]
    simp [Rose.subtrees, subtreesAll, identsOf, Rose.label, isIdent, Kind.isIdent, lookedUp,
      Move.looked?]
  case node =>
    intro isBody scope next node children noIdent parts inside
    obtain ⟨same, bound⟩ := identsOf_visited laid inside
    have below : ∀ child ∈ (visited node children).2, child ∈ arena.tree.subtrees :=
      fun child held => mem_subtrees_of_child (visited_subset _ _ held) inside
    have top : (Rose.node node children).label.kind.isIdent = false := noIdent
    rw [moves_node noIdent, lookedUp_append, lookedUp_opening, nil_append, parts below bound,
      Rose.subtrees, identsOf_cons top, same]
  case nil => exact fun _ _ _ _ _ => rfl
  case body =>
    intro scope next tree rest whole inside bound
    obtain rfl : rest = [] := eq_nil_of_length_eq_zero (by simpa using bound)
    rw [movesParts, whole (inside tree mem_cons_self), subtreesAll, subtreesAll,
      append_nil]
  case cons =>
    intro scope next count tree rest first others inside bound
    obtain ⟨held, below⟩ := forall_mem_cons.mp inside
    rw [movesParts, lookedUp_append, first held, others below (by simpa using bound),
      subtreesAll, identsOf_append]

end

section

variable {arena : Arena} (well : arena.WellNumbered) (laid : arena.LaidOut)

include well laid

theorem lookedUp_allMoves :
    lookedUp (allMoves arena) = arena.ids.filter fun id => (arena.kind id).isIdent := by
  have inside := arena.tree.self_mem_subtrees
  have none : arena.tree.label.kind.isIdent = false := by rw [laid.program]; rfl
  have owns : arena.tree.label.kind.isOwner := by rw [laid.program]; rfl
  have below : ∀ stmt ∈ arena.tree.children.drop 2, stmt ∈ arena.tree.subtrees := fun stmt held =>
    child_mem_subtrees (mem_of_mem_drop held)
  calc lookedUp (allMoves arena)
      = identsOf (subtreesAll (arena.tree.children.drop 2)) := by
        rw [allMoves, lookedUp_append,
          (lookedUp_moves laid).2 _ _ _ _ below (Nat.le_succ _)]
        exact congrArg (· ++ _) (lookedUp_declares ..)
    _ = identsOf (subtreesAll arena.tree.children) := (identsOf_owner laid inside owns).symm
    _ = identsOf arena.tree.subtrees := by
        cases same : arena.tree with
        | node node children =>
          rw [same] at none
          rw [Rose.subtrees, identsOf_cons none, Rose.children]
    _ = (arena.tree.subtrees.map (·.label.id)).filter fun id => (arena.kind id).isIdent := by
        rw [filter_map]
        refine congrArg _ (filter_congr fun tree member => ?_)
        rw [Function.comp, well.kind_eq member]
    _ = arena.ids.filter fun id => (arena.kind id).isIdent := by
        rw [Syntree.ids_subtrees well.numbered, ← well.size_eq, ← range_eq_range']
        rfl

omit laid in
theorem kind_of_resolve {id : Nat} {role : Role}
    (member : .resolve scope id name role ∈ allMoves arena) : arena.kind id = .ident name role := by
  obtain top | ⟨part, inside, ⟨_, _, _, isIdent, same⟩ | ⟨isBody, outer, next, own, -⟩⟩ :=
    made_allMoves member
  · simp [topHoisted] at top
  · cases same
    exact (well.kind_eq inside).trans isIdent
  · have looked : id ∈ lookedUp (opening arena isBody outer next part.label part.children).own :=
      mem_filterMap.mpr ⟨_, own, rfl⟩
    rw [lookedUp_opening] at looked
    cases looked

theorem faithful_allMoves : ∀ move ∈ allMoves arena, move.Faithful arena := by
  intro move member
  cases move with
  | enter | share => trivial
  | declare scope hoisted =>
    intro own
    obtain ⟨top, -, -, named, -⟩ := carried_allMoves well laid own member
    unfold Arena.identName?
    split
    case h_1 isIdent => simp [isIdent, Kind.carriedName?] at named
    case h_2 => rfl
  | resolve scope id name role =>
    simp only [Move.Faithful, Arena.identName?, kind_of_resolve well member]

theorem recorded_ofArena : (ofArena arena).Recorded arena
    (arena.ids.filter fun id => (arena.kind id).isIdent) := by
  have start : bare.Recorded arena [] := by
    refine ⟨fun first known => ?_, nofun, fun symbol known => ?_, rfl⟩
    · cases known
    · cases known
  have whole := start.run grounded_bare nofun (sound_allMoves arena) (faithful_allMoves well laid)
  rw [lookedUp_allMoves well laid, ← ofArena_eq_run] at whole
  exact whole (nodup_range.filter _)

end

theorem references_recorded {file : Script.File} {arena : Arena}
    (read : Arena.ofFile file = .ok arena) :
    (∀ id, (arena.kind id).isIdent → ∃ symbol, (ofArena arena).symbolOf[id]? = some symbol ∧
      symbol < (ofArena arena).symbols.size ∧ ∀ other < (ofArena arena).symbols.size,
        ((ofArena arena).symbols.get other).references.toList.count id =
          if other = symbol then 1 else 0) ∧
    (∀ symbol < (ofArena arena).symbols.size,
      ((ofArena arena).symbols.get symbol).references.toList.Pairwise (· < ·)) ∧
    (∀ first < (ofArena arena).symbols.size, ∀ second < (ofArena arena).symbols.size,
      ((ofArena arena).symbols.get first).scope = ((ofArena arena).symbols.get second).scope →
      ((ofArena arena).symbols.get first).name = ((ofArena arena).symbols.get second).name →
        first = second) ∧
    (ofArena arena).unresolved.toList.map (·.node) = arena.ids.filter fun id =>
      ((ofArena arena).symbolOf[id]?).any (ofArena arena).isImplicit &&
        (arena.identName? id).any fun name => !knownGlobals.contains name := by
  have well := Arena.wellNumbered_ofFile read
  have recorded := recorded_ofArena well (Arena.laidOut_ofFile read)
  refine ⟨fun id isIdent => ?_, fun symbol known => ?_, recorded.distinct, ?_⟩
  · have known : id < arena.size := Arena.lt_size_of_kind fun isProgram => by
      rw [isProgram] at isIdent
      cases isIdent
    have member : id ∈ arena.ids.filter fun id => (arena.kind id).isIdent :=
      List.mem_filter.mpr ⟨List.mem_range.mpr known, isIdent⟩
    obtain ⟨symbol, found, small⟩ := recorded.bound id member
    refine ⟨symbol, found, small, fun other bound => ?_⟩
    rw [recorded.references other bound]
    split
    case isTrue same =>
      refine List.count_eq_one_of_mem ((List.nodup_range.filter _).filter _)
        (List.mem_filter.mpr ⟨member, ?_⟩)
      rw [found, same, beq_self_eq_true]
    case isFalse differ =>
      refine List.count_eq_zero.mpr fun listed => differ ?_
      have bound := (List.mem_filter.mp listed).2
      rw [found, beq_iff_eq, Option.some.injEq] at bound
      exact bound.symm
  · rw [recorded.references symbol known]
    exact ((List.pairwise_lt_range).filter _).filter _
  · rw [recorded.unresolved, List.filter_filter]
    refine List.filter_congr fun id _ => ?_
    unfold isReported Arena.identName?
    split
    case h_1 isIdent => simp [isIdent, Kind.isIdent]
    case h_2 => simp

-- `try { a(x => b, console); } catch (e) { a(e); }`
def guardedCalls : Script.File := .sample [
  .tryStmt (.mk [.expr (.call (.ident "a") [.arrow (.mk [.ident "x"] (.expr (.ident "b")) {}),
    .ident "console"] false {}) {}] {}) (.binding (.ident "e") (.mk [.expr (.call (.ident "a")
    [.ident "e"] false {}) {}] {}) {}) none {}]

theorem references_recorded_guardedCalls :
    ∃ arena, Arena.ofFile guardedCalls = .ok arena ∧
      (∀ id, (arena.kind id).isIdent → ∃ symbol, (ofArena arena).symbolOf[id]? = some symbol ∧
        symbol < (ofArena arena).symbols.size ∧ ∀ other < (ofArena arena).symbols.size,
          ((ofArena arena).symbols.get other).references.toList.count id =
            if other = symbol then 1 else 0) ∧
      (arena.kind 7).isIdent ∧ (arena.kind 19).isIdent ∧
      (ofArena arena).symbolOf[7]? = some 0 ∧ (ofArena arena).symbolOf[19]? = some 0 ∧
      (ofArena arena).unresolved.toList.map (·.node) = [7, 12, 19] := by
  refine ⟨_, rfl, ?_⟩
  have recorded := references_recorded (show Arena.ofFile guardedCalls = .ok _ from rfl)
  exact ⟨recorded.1, by decide +kernel⟩

end Resolution

end Seepage

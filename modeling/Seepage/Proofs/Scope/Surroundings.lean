import Seepage.Proofs.Scope.Sites

set_option autoImplicit false

namespace Seepage

open List

variable {kind : Kind} {arena : Arena} {tree : Syntree} {resolution : Resolution} {scope : Nat}
  {isBody : Bool} {node : Node} {children : List Syntree}

namespace Arena

def isParameter (arena : Arena) (id : Nat) : Bool :=
  (arena.parent? id).any fun parent =>
    (arena.functionParts? parent).any fun parts => parts.params.contains id

def inParameters (arena : Arena) (id : Nat) : Bool :=
  (id :: arena.ancestors id).any arena.isParameter

def path (arena : Arena) (id : Nat) : List Nat :=
  id :: arena.ancestors id

end Arena

theorem Kind.isFunction_of_seat {outer : Seat} {position : Nat}
    (body : kind.seat outer position = .body) : kind.isFunction := by
  have target : outer.target ≠ .body := by
    unfold Seat.target
    split <;> nofun
  have inner : outer.inner ≠ .body := by
    unfold Seat.inner
    split <;> nofun
  cases kind with
  | function => rfl
  | property key => cases key <;> simp only [Kind.seat] at body <;> (repeat' split at body) <;>
      first | cases body | exact absurd body target
  | _ =>
    simp only [Kind.seat] at body
    repeat' split at body
    all_goals first | cases body | exact absurd body target | exact absurd body inner

theorem Kind.exists_of_isFunction (isFunction : kind.isFunction) :
    ∃ name form paramCount isExpr, kind = .function name form paramCount isExpr := by
  cases kind <;> first | exact ⟨_, _, _, _, rfl⟩ | cases isFunction

theorem Arena.LaidOut.ne_of_child (laid : arena.LaidOut) {child : Syntree}
    (inside : tree ∈ arena.tree.subtrees) (below : child ∈ tree.children) :
    tree.label.kind ≠ .entry ∧ tree.label.kind ≠ .exit ∧ tree.label.kind.isIdent = false := by
  have layout : tree.label.kind.fits (tree.children.map (·.label.kind)) := laid.fits tree inside
  have leaf (none : tree.children.map (·.label.kind) = []) : False := by
    rw [map_eq_nil_iff.mp none] at below
    cases below
  refine ⟨fun isEntry => leaf ?_, fun isExit => leaf ?_, ?_⟩
  · simpa [isEntry, Kind.fits] using layout
  · simpa [isExit, Kind.fits] using layout
  · cases same : tree.label.kind with
    | ident => exact (leaf (by simpa [same, Kind.fits] using layout)).elim
    | _ => rfl

namespace Resolution

variable {opened : Opening}

def innermost? (resolution : Resolution) (path : List Nat) : Option Nat :=
  path.findSome? (resolution.scopeOf[·]?)

def Finds (resolution : Resolution) (scope : Nat) (name : String) : Prop :=
  (resolution.symbols.find? name (resolution.scopes.chain scope)).isSome

theorem finds_iff {name : String} :
    resolution.Finds scope name ↔
      ∃ place ∈ resolution.scopes.chain scope, (resolution.symbols.findLocal? name place).isSome :=
  findSome?_isSome_iff

theorem Finds.run {resolution : Resolution} {scope : Nat} {name : String}
    (finds : resolution.Finds scope name) (known : scope < resolution.scopes.size)
    (moves : List Move) : (run resolution moves).Finds scope name := by
  have later := extends_run resolution moves
  obtain ⟨place, above, found⟩ := finds_iff.mp finds
  obtain ⟨symbol, found⟩ := Option.isSome_iff_exists.mp found
  refine finds_iff.mpr ⟨place, ?_, Option.isSome_of_eq_some (later.kept _ _ _ found)⟩
  rw [later.chain known]
  exact above

section

variable {arena : Arena} {before after : List Move}

theorem movesParts_split {ancestors : List Nat} {start scope next count index : Nat}
    {trees : List Syntree} {child : Syntree} (numbered : Syntree.AreNumbered ancestors start trees)
    (found : trees[index]? = some child) (bound : index ≤ count) : ∃ left right,
      movesParts arena scope next count trees =
        left ++ moves arena (index == count) scope (next + entered left) child ++ right ∧
      Ordered start child.label.id (sites left) ∧
      Ordered (child.label.id + child.size) (start + Rose.sizeAll trees) (sites right) ∧
      (∀ place hoisted, .declare place hoisted ∈ left → next ≤ place) ∧
      ∀ place hoisted, .declare place hoisted ∈ right → index < count ∧ count < trees.length ∨
        next + entered left +
          entered (moves arena (index == count) scope (next + entered left) child) ≤ place := by
  induction trees generalizing start next count index with
  | nil => cases found
  | cons tree rest ih =>
    obtain ⟨first, others⟩ := numbered
    cases index with
    | zero =>
      obtain rfl : tree = child := Option.some.inj found
      have own : tree.label.id = start := first.label_id
      cases count with
      | zero =>
        refine ⟨[], [], ?_, .nil _ _, .nil _ _, nofun, nofun⟩
        rw [append_nil]
        rfl
      | succ count =>
        refine ⟨[], _, rfl, .nil _ _, ?_, nofun, fun place hoisted member => ?_⟩
        · rw [own, Rose.sizeAll, ← Nat.add_assoc]
          exact (sites_moves arena).2 _ _ _ _ _ _ others
        · obtain ⟨more, -⟩ | later := (declare_moves arena place hoisted).2 _ _ _ _ member
          · exact .inl ⟨Nat.succ_pos _, by simpa using more⟩
          · exact .inr later
    | succ index =>
      obtain ⟨count, rfl⟩ : ∃ less, count = less + 1 := ⟨count - 1, by omega⟩
      obtain ⟨left, right, split, low, high, early, late⟩ := @ih (start + tree.size)
        (next + entered (moves arena false scope next tree)) count index others found
        (Nat.le_of_succ_le_succ bound)
      have same : (index + 1 == count + 1) = (index == count) := by simp
      have atLeast : start + tree.size ≤ child.label.id :=
        others.le_id ((Rose.mem_subtreesAll rest).mpr
          ⟨child, mem_of_getElem? found, child.self_mem_subtrees⟩)
      refine ⟨moves arena false scope next tree ++ left, right, ?_, ?_, ?_, ?_, ?_⟩
      · rw [movesParts, split, same, entered_append, Nat.add_assoc]
        simp only [append_assoc]
      · rw [sites_append]
        exact ((sites_moves arena).1 _ _ _ _ _ _ first).append low (by omega) atLeast
      · rw [Rose.sizeAll, ← Nat.add_assoc]
        exact high
      · intro place hoisted member
        obtain here | there := mem_append.mp member
        · exact ((declare_moves arena place hoisted).1 _ _ _ _ here).resolve_left
            fun body => Bool.false_ne_true body.1
        · have := early place hoisted there
          omega
      · intro place hoisted member
        rw [same, entered_append, ← Nat.add_assoc]
        refine (late place hoisted member).imp (fun less => ⟨by omega, ?_⟩) id
        rw [length_cons]
        omega

end

structure Visits (arena : Arena) (tree : Syntree) (isBody : Bool) (scope : Nat)
    (before after : List Move) : Prop where
  whole : allMoves arena =
    before ++ moves arena isBody scope (2 + entered before) tree ++ after
  low : ∀ site ∈ sites before, site < tree.label.id
  high : ∀ site ∈ sites after, tree.label.id + tree.size ≤ site
  known : scope < 2 + entered before
  declared : scope ≠ unresolvedScope
  chain : ∀ outer ∈ (run bare before).scopes.chain scope,
    ((run bare before).scopes.get outer).node ∈ arena.ancestors tree.label.id
  around : (ofArena arena).innermost? (arena.ancestors tree.label.id) = some scope
  later : arena.inParameters tree.label.id = false →
    ∀ place hoisted, .declare place hoisted ∈ after →
      2 + entered before + entered (moves arena isBody scope (2 + entered before) tree) ≤ place

structure VisitsParts (arena : Arena) (node : Nat) (size scope count : Nat) (parts : List Syntree)
    (before after : List Move) : Prop where
  whole : allMoves arena =
    before ++ movesParts arena scope (2 + entered before) count parts ++ after
  low : ∀ site ∈ sites before, site ≤ node
  high : ∀ site ∈ sites after, node + size ≤ site
  known : scope < 2 + entered before
  declared : scope ≠ unresolvedScope
  chain : ∀ outer ∈ (run bare before).scopes.chain scope,
    ((run bare before).scopes.get outer).node ∈ arena.path node
  around : (ofArena arena).innermost? (arena.path node) = some scope
  later : arena.inParameters node = false → ∀ place hoisted, .declare place hoisted ∈ after →
    2 + entered before + entered (movesParts arena scope (2 + entered before) count parts) ≤ place

theorem scopeOf_ofArena {arena : Arena} {before after : List Move} {move : Move} {node place : Nat}
    (whole : allMoves arena = before ++ move :: after) (opened : move.opened? = some (node, place))
    (once : node ∉ sites after) : (ofArena arena).scopeOf[node]? = some place := by
  have sound := sound_allMoves arena
  rw [whole, sound_append] at sound
  have size : (run bare before).scopes.size = 2 + entered before := size_run bare before
  rw [ofArena_eq_run, whole, run_append]
  exact (scopeOf_run _ once).trans (scopeOf_opened (size ▸ sound.2.1) opened)

theorem scopeOf_ofArena_none {node : Nat} (never : node ∉ sites (allMoves arena)) :
    (ofArena arena).scopeOf[node]? = none := by
  rw [ofArena_eq_run, scopeOf_run _ never]
  simp [bare]

section

variable {arena : Arena} {before after : List Move}

theorem grounded_before {here : List Move} (whole : allMoves arena = before ++ here ++ after) :
    (run bare before).Grounded ∧ (run bare before).scopes.size = 2 + entered before := by
  have sound := sound_allMoves arena
  rw [whole, sound_append, sound_append] at sound
  exact ⟨grounded_bare.run sound.1.1, size_run bare before⟩

theorem opening_form {next : Nat} (same : opening arena isBody scope next node children = opened) :
    opened.own = [] ∧ opened.inner = scope ∨
    ∃ move, ∃ hoisted : List Hoisted, opened.own = move :: hoisted.map (.declare opened.inner) ∧
      move.opened? = some (node.id, opened.inner) := by
  subst same
  obtain ⟨-, -, same⟩ | ⟨-, ⟨kind, hoisted, -, same⟩ | ⟨-, same⟩⟩ :=
    opening_cases arena isBody scope next node children
  all_goals rw [same]
  · exact .inr ⟨_, _, rfl, rfl⟩
  · exact .inr ⟨_, _, rfl, rfl⟩
  · exact .inl ⟨rfl, rfl⟩

theorem node_enter (resolution : Resolution) (kind : ScopeKind) (parent node : Nat) :
    ((resolution.enter kind parent node).scopes.get resolution.scopes.size).node = node := by
  simp [Resolution.enter, ScopeTree.get, ScopeTree.create, ScopeTree.size]

theorem chain_opening (known : scope < resolution.scopes.size)
    (same : opening arena isBody scope resolution.scopes.size node children = opened) :
    (run resolution opened.own).scopes.chain opened.inner = resolution.scopes.chain scope ∨
      (run resolution opened.own).scopes.chain opened.inner =
        opened.inner :: resolution.scopes.chain scope ∧
      ((run resolution opened.own).scopes.get opened.inner).node = node.id := by
  subst same
  have later := extends_run resolution
    (opening arena isBody scope resolution.scopes.size node children).own
  obtain ⟨-, -, same⟩ | ⟨-, ⟨kind, hoisted, -, same⟩ | ⟨-, same⟩⟩ :=
    opening_cases arena isBody scope resolution.scopes.size node children
  all_goals rw [same] at later ⊢
  · exact .inl (later.chain known)
  · let opened := resolution.enter kind scope node.id
    have still := extends_run opened (hoisted.map (.declare resolution.scopes.size))
    have fresh : resolution.scopes.size < opened.scopes.size := by
      rw [show opened.scopes.size = resolution.scopes.size + 1 from ScopeTree.size_create ..]
      exact Nat.lt_succ_self _
    refine .inr ⟨(still.chain fresh).trans (ScopeTree.chain_create_size ..), ?_⟩
    exact (congrArg Scope.node (still.scope _ fresh)).trans (node_enter ..)
  · exact .inl (later.chain known)

section

variable (well : arena.WellNumbered) {node : Node} {children : List Syntree}
  (inside : .node node children ∈ arena.tree.subtrees) {isBody : Bool} {scope : Nat}
  (visits : Visits arena (.node node children) isBody scope before after)
  (noIdent : node.kind.isIdent = false) {opened : Opening}
  (same : opening arena isBody scope (2 + entered before) node children = opened)

include noIdent same in
theorem moves_opened : moves arena isBody scope (2 + entered before) (.node node children) =
    opened.own ++ movesParts arena opened.inner (2 + entered (before ++ opened.own))
      (visited node children).1 (visited node children).2 := by
  have next := next_opening arena isBody scope (2 + entered before) node children
  rw [same] at next
  rw [moves_node noIdent, same, next, entered_append, Nat.add_assoc]

include visits in
include same in
theorem Visits.known_inner :
    opened.inner < 2 + entered (before ++ opened.own) ∧ opened.inner ≠ unresolvedScope := by
  obtain ⟨grounded, size⟩ := grounded_before visits.whole
  have next := next_opening arena isBody scope (2 + entered before) node children
  obtain ⟨-, inner, declared, -⟩ := sound_opening visits.known visits.declared
    (size ▸ grounded.large) arena isBody node children
  rw [same] at next inner declared
  rw [entered_append, ← Nat.add_assoc, ← next]
  exact ⟨inner, declared⟩

include well inside visits

theorem Visits.not_mem_parts (inner next : Nat) : node.id ∉ sites (movesParts arena inner next
    (visited node children).1 (visited node children).2 ++ after) := by
  have positive := (Rose.node node children).size_pos
  obtain ⟨start, lower, numbered, -⟩ := @numbered_visited _ _ node _ (numbered_children well inside)
  have parts := (sites_moves arena).2 inner next (visited node children).1 _ _ _ numbered
  rw [sites_append]
  intro member
  obtain part | late := mem_append.mp member
  · have := (parts.within _ part).1
    omega
  · have bound : node.id + (Rose.node node children).size ≤ node.id := visits.high _ late
    omega

include noIdent same

theorem Visits.scopeOf_opened :
    (ofArena arena).scopeOf[node.id]? = if opened.own = [] then none else some opened.inner := by
  have whole := visits.whole
  rw [moves_opened noIdent same] at whole
  have outside := visits.not_mem_parts well inside opened.inner (2 + entered (before ++ opened.own))
  obtain ⟨none, -⟩ | ⟨move, hoisted, own, opens⟩ := opening_form same
  · rw [if_pos none]
    refine scopeOf_ofArena_none fun member => ?_
    rw [whole, none, append_assoc, sites_append] at member
    obtain early | late := mem_append.mp member
    · exact Nat.lt_irrefl _ (visits.low _ early)
    · rw [none] at outside
      exact outside late
  · have split : allMoves arena = before ++ move :: (hoisted.map (.declare opened.inner) ++
        (movesParts arena opened.inner (2 + entered (before ++ opened.own))
          (visited node children).1 (visited node children).2 ++ after)) := by
      rw [whole]
      simp only [own, append_assoc, cons_append]
    rw [if_neg (by rw [own]; exact cons_ne_nil _ _)]
    refine scopeOf_ofArena split opens ?_
    rw [sites_append, sites_declares]
    exact outside

theorem Visits.innermost_parts :
    (ofArena arena).innermost? (arena.path node.id) = some opened.inner := by
  have path : arena.path node.id = node.id :: arena.ancestors node.id := rfl
  rw [path, innermost?, findSome?_cons, visits.scopeOf_opened well inside noIdent same]
  obtain ⟨none, outer⟩ | ⟨move, hoisted, own, opens⟩ := opening_form same
  · rw [if_pos none, outer]
    exact visits.around
  · rw [if_neg (by rw [own]; exact cons_ne_nil _ _)]

theorem Visits.parts : VisitsParts arena node.id (Rose.node node children).size opened.inner
    (visited node children).1 (visited node children).2 (before ++ opened.own) after := by
  have moves := moves_opened noIdent same
  have whole := visits.whole
  rw [moves, ← append_assoc before] at whole
  obtain ⟨grounded, size⟩ := grounded_before visits.whole
  obtain ⟨inner, declared⟩ := visits.known_inner same
  refine ⟨whole, ?_, visits.high, inner, declared, ?_,
    visits.innermost_parts well inside noIdent same, ?_⟩
  · intro site member
    rw [sites_append] at member
    obtain early | own := mem_append.mp member
    · exact Nat.le_of_lt (visits.low site early)
    · rw [← same] at own
      exact Nat.le_of_lt_succ ((sites_opening ..).within site own).2
  · have known : scope < (run bare before).scopes.size := size ▸ visits.known
    have later := extends_run (run bare before) opened.own
    have outer : ∀ outer ∈ (run bare before).scopes.chain scope,
        ((run (run bare before) opened.own).scopes.get outer).node ∈ arena.path node.id := by
      intro outer above
      rw [later.scope outer (grounded.around scope known visits.declared outer above).1]
      exact mem_cons_of_mem _ (visits.chain outer above)
    rw [run_append]
    rw [← size] at same
    obtain chain | ⟨chain, own⟩ := chain_opening known same
    · rw [chain]
      exact outer
    · rw [chain]
      exact forall_mem_cons.mpr ⟨own ▸ mem_cons_self, outer⟩
  · intro free place hoisted member
    have bound := visits.later free place hoisted member
    have total := entered_append before opened.own
    rw [moves, entered_append] at bound
    omega

end

section

variable (well : arena.WellNumbered) {parent part : Syntree}
  (inside : parent ∈ arena.tree.subtrees) (below : part ∈ parent.children)

include well inside below

theorem path_child : arena.ancestors part.label.id = arena.path parent.label.id := by
  rw [well.ancestors_eq (Rose.child_inside below inside), well.ancestors_child inside below,
    Arena.path, well.ancestors_eq inside]

theorem inParameters_child : arena.inParameters part.label.id =
    (arena.isParameter part.label.id || arena.inParameters parent.label.id) := by
  rw [Arena.inParameters, path_child well inside below]
  rfl

theorem VisitsParts.child {count index : Nat} {parts : List Syntree}
    (visits : VisitsParts arena parent.label.id parent.size scope count parts before after)
    {ancestors : List Nat} {start : Nat} (numbered : Syntree.AreNumbered ancestors start parts)
    (found : parts[index]? = some part) (bound : index ≤ count)
    (params : index < count → count < parts.length → arena.isParameter part.label.id = true) :
    ∃ left right, Visits arena part (index == count) scope (before ++ left) (right ++ after) ∧
      ∀ place hoisted, .declare place hoisted ∈ left → 2 + entered before ≤ place := by
  obtain ⟨left, right, split, lower, higher, early, late⟩ :=
    @movesParts_split arena _ _ scope (2 + entered before) _ _ _ _ numbered found bound
  have total := entered_append before left
  have next : 2 + entered before + entered left = 2 + entered (before ++ left) := by omega
  have path := path_child well inside below
  obtain ⟨grounded, size⟩ := grounded_before visits.whole
  have whole := visits.whole
  rw [split, next] at whole
  have atLeast : parent.label.id < part.label.id :=
    well.lt_of_below inside below ⟨part, part.self_mem_subtrees, rfl⟩
  have atMost := well.end_le inside below
  refine ⟨left, right, ⟨by simpa using whole, ?_, ?_, ?_, visits.declared, ?_, ?_, ?_⟩, early⟩
  · intro site member
    rw [sites_append] at member
    obtain early | here := mem_append.mp member
    · exact Nat.lt_of_le_of_lt (visits.low site early) atLeast
    · exact (lower.within site here).2
  · intro site member
    rw [sites_append] at member
    obtain here | later := mem_append.mp member
    · exact (higher.within site here).1
    · exact Nat.le_trans atMost (visits.high site later)
  · have := visits.known
    omega
  · have known : scope < (run bare before).scopes.size := size ▸ visits.known
    have later := extends_run (run bare before) left
    intro outer above
    rw [run_append] at above ⊢
    rw [later.chain known] at above
    rw [later.scope outer (grounded.around scope known visits.declared outer above).1, path]
    exact visits.chain outer above
  · rw [path]
    exact visits.around
  · intro free place hoisted member
    rw [inParameters_child well inside below, Bool.or_eq_false_iff] at free
    rw [← next]
    obtain here | later := mem_append.mp member
    · refine (late place hoisted here).resolve_left fun more => ?_
      rw [params more.1 more.2] at free
      cases free.1
    · have atLeast := visits.later free.2 place hoisted later
      rw [split, entered_append, entered_append] at atLeast
      omega

end

end

theorem functionParts?_eq (well : arena.WellNumbered) {entry exit : Syntree} {parts : List Syntree}
    (inside : .node node (entry :: exit :: parts) ∈ arena.tree.subtrees) {name : Option String}
    {form : FunctionForm} {paramCount : Nat} {isExpr : Bool}
    (isFunction : node.kind = .function name form paramCount isExpr) :
    arena.functionParts? node.id = some ⟨entry.label.id, exit.label.id,
      (parts.map (·.label.id)).take paramCount, (parts.map (·.label.id))[paramCount]?⟩ := by
  have kind : arena.kind node.id = node.kind := well.kind_eq inside
  have held : arena.children node.id = (entry :: exit :: parts).map (·.label.id) :=
    well.children_eq inside
  simp [Arena.functionParts?, kind, held, isFunction]

section

variable {arena : Arena} (well : arena.WellNumbered) (laid : arena.LaidOut)
  {before after : List Move} {node : Node} {children : List Syntree}
  (inside : .node node children ∈ arena.tree.subtrees) {outer : Seat} {position : Nat}
  {child : Syntree} (found : children[position]? = some child)
  (noMarker : node.kind.seat outer position ≠ .marker position)

include well laid inside found noMarker

theorem visited_child : ∃ index, (visited node children).2[index]? = some child ∧
    index ≤ (visited node children).1 ∧
    (index < (visited node children).1 →
      (visited node children).1 < (visited node children).2.length →
      arena.isParameter child.label.id = true) ∧
    (node.kind.seat outer position = .body ↔ index = (visited node children).1) := by
  obtain ⟨name, form, paramCount, isExpr, entry, exit, parts, isFunction, rfl, same⟩ |
    ⟨other, same⟩ := visited_cases node children
  all_goals rw [same]
  · have layout := laid.layout inside
    simp [isFunction, Kind.fits] at layout
    have late : 2 ≤ position := by
      refine Nat.le_of_not_lt fun early => noMarker ?_
      rw [isFunction]
      exact if_pos early
    obtain ⟨index, rfl⟩ := Nat.exists_eq_add_of_le' late
    have part : parts[index]? = some child := found
    obtain ⟨bound, -⟩ := List.getElem?_eq_some_iff.mp part
    have small : index ≤ paramCount := by omega
    refine ⟨index, part, small, fun less _ => ?_, ?_⟩
    · have parent : arena.parent? child.label.id = some node.id :=
        well.parent_child inside (mem_of_getElem? found)
      have params := functionParts?_eq well inside isFunction
      rw [Arena.isParameter, parent, Option.any_some, params, Option.any_some,
        contains_iff_mem]
      refine mem_of_getElem? (i := index) ?_
      rw [getElem?_take_of_lt less, getElem?_map, part]
      rfl
    · simp only [isFunction, Kind.seat, if_neg (show ¬index + 2 < 2 by omega)]
      split
      case isTrue early => exact ⟨fun same => (by cases same), fun last => by omega⟩
      case isFalse => exact ⟨fun _ => by omega, fun _ => rfl⟩
  · obtain ⟨bound, -⟩ := List.getElem?_eq_some_iff.mp found
    refine ⟨position, found, Nat.le_of_lt bound, fun _ more => absurd more (Nat.lt_irrefl _),
      fun body => ?_, fun last => absurd last (Nat.ne_of_lt bound)⟩
    obtain ⟨name, form, paramCount, isExpr, isFunction⟩ := Kind.exists_of_isFunction
      (Kind.isFunction_of_seat body)
    have owns : (Rose.node node children).label.kind.isOwner := by
      rw [Rose.label, isFunction]
      rfl
    obtain ⟨entry, exit, parts, rfl, -⟩ := laid.exists_ends inside owns
    exact (other _ _ _ _ _ _ _ isFunction rfl).elim

theorem Visits.down (visits : Visits arena (.node node children) isBody scope before after)
    (noIdent : node.kind.isIdent = false)
    (same : opening arena isBody scope (2 + entered before) node children = opened) :
    ∃ isBody' left right,
      Visits arena child isBody' opened.inner (before ++ opened.own ++ left) (right ++ after) ∧
      (node.kind.seat outer position = .body ↔ isBody' = true) ∧
      ∀ place hoisted, .declare place hoisted ∈ left →
        2 + entered (before ++ opened.own) ≤ place := by
  obtain ⟨index, part, bound, params, body⟩ := visited_child well laid inside found noMarker
  obtain ⟨start, -, numbered, -⟩ := @numbered_visited _ _ node _ (numbered_children well inside)
  have below : child ∈ (Rose.node node children).children := mem_of_getElem? found
  have parts := visits.parts well inside noIdent same
  obtain ⟨left, right, there, early⟩ := parts.child well inside below numbered part bound params
  exact ⟨_, left, right, there, by simp [body], early⟩

end

section

variable {arena : Arena} (well : arena.WellNumbered)

include well

theorem numbered_top : ∃ ancestors start, 1 ≤ start ∧
    Syntree.AreNumbered ancestors start (arena.tree.children.drop 2) := by
  obtain ⟨node, children, same⟩ : ∃ node children, arena.tree = .node node children := by
    cases arena.tree
    exact ⟨_, _, rfl⟩
  have numbered := @numbered_children arena well node children (same ▸ arena.tree.self_mem_subtrees)
  rw [← take_append_drop 2 children, areNumbered_append] at numbered
  rw [same]
  exact ⟨_, _, by omega, numbered.2⟩

theorem visitsParts_top : VisitsParts arena arena.tree.label.id arena.tree.size globalScope
    (arena.tree.children.drop 2).length (arena.tree.children.drop 2) (topHoisted arena) [] := by
  have ground : (run bare (topHoisted arena)).scopes = bare.scopes := by
    rw [topHoisted, run, foldl_cons, ← run, run_declares, (scopes_declareAll ..).1]
    rfl
  have none : entered (topHoisted arena) = 0 := by
    simp only [topHoisted, entered_cons, entered_declares, Move.isEnter]
    rfl
  refine ⟨?_, ?_, by simp [sites], ?_, by decide, ?_, ?_, by simp⟩
  · rw [none, append_nil]
    rfl
  · intro site member
    simp only [topHoisted, sites_cons, sites_declares, Move.site?] at member
    obtain rfl := mem_singleton.mp member
    exact Nat.zero_le _
  · rw [none]
    decide
  · rw [ground, well.id_tree]
    intro outer above
    obtain rfl := mem_singleton.mp above
    exact mem_cons_self
  · rw [well.id_tree, innermost?, Arena.path, findSome?_cons]
    have found : (ofArena arena).scopeOf[Arena.root]? = some globalScope := by
      have later : Arena.root ∉ sites ((globalHoisted arena).map (.declare globalScope) ++
          movesParts arena globalScope 2 (arena.tree.children.drop 2).length
            (arena.tree.children.drop 2)) := by
        rw [sites_append, sites_declares]
        intro member
        obtain ⟨ancestors, start, positive, numbered⟩ := numbered_top well
        have := (((sites_moves arena).2 _ _ _ _ _ _ numbered).within _ member).1
        exact absurd this (Nat.not_le_of_lt positive)
      exact @scopeOf_ofArena arena [] _ _ _ _ rfl rfl later
    rw [found]

theorem visits_everywhere (laid : arena.LaidOut)
    {motive : Seat → Syntree → Bool → Nat → List Move → Prop}
    (top : ∀ stmt ∈ arena.tree.children.drop 2, ∀ left right,
      Visits arena stmt false globalScope (topHoisted arena ++ left) right →
      motive .statement stmt false globalScope (topHoisted arena ++ left))
    (step : ∀ seat node children isBody scope before after,
      Rose.node node children ∈ arena.tree.subtrees →
      Syntree.Seated seat (.node node children) →
      Visits arena (.node node children) isBody scope before after →
      motive seat (.node node children) isBody scope before →
      ∀ position child, children[position]? = some child →
      ∀ opened, opening arena isBody scope (2 + entered before) node children = opened →
      ∀ isBody' left right,
      Visits arena child isBody' opened.inner (before ++ opened.own ++ left) (right ++ after) →
      (node.kind.seat seat position = .body ↔ isBody' = true) →
      (∀ place hoisted, .declare place hoisted ∈ left →
        2 + entered (before ++ opened.own) ≤ place) →
      motive (node.kind.seat seat position) child isBody' opened.inner
        (before ++ opened.own ++ left)) (inside : tree ∈ arena.tree.subtrees) :
    tree = arena.tree ∨ tree.label.kind = .entry ∨ tree.label.kind = .exit ∨
      ∃ seat isBody scope before after, Syntree.Seated seat tree ∧
        Visits arena tree isBody scope before after ∧ motive seat tree isBody scope before := by
  refine Rose.downward inside (.inl rfl) ?_
  rintro parent within (rfl | isEntry | isExit |
    ⟨seat, isBody, scope, before, after, sits, visits, holds⟩) child below
  · refine .inr ?_
    have owns : arena.tree.label.kind.isOwner := by rw [laid.program]; rfl
    obtain ⟨entry, exit, stmts, same, isEntry, isExit⟩ := laid.exists_ends within owns
    obtain ⟨position, found⟩ := getElem?_of_mem below
    have sits := laid.seated.child found
    rw [laid.program] at sits
    match position with
    | 0 =>
      rw [same] at found
      cases found
      exact .inl isEntry
    | 1 =>
      rw [same] at found
      cases found
      exact .inr (.inl isExit)
    | index + 2 =>
      obtain ⟨ancestors, start, -, numbered⟩ := numbered_top well
      have part : (arena.tree.children.drop 2)[index]? = some child := by
        rw [getElem?_drop, Nat.add_comm, found]
      obtain ⟨bound, -⟩ := List.getElem?_eq_some_iff.mp part
      obtain ⟨left, right, visits, -⟩ := (visitsParts_top well).child well within below numbered
        part (Nat.le_of_lt bound) fun _ more => absurd more (Nat.lt_irrefl _)
      have plain : (index == (arena.tree.children.drop 2).length) = false := by
        simpa using Nat.ne_of_lt bound
      rw [plain] at visits
      have holds := top child (mem_of_getElem? part) left _ visits
      exact .inr (.inr ⟨.statement, false, _, _, _, sits, visits, holds⟩)
  · exact absurd isEntry (laid.ne_of_child within below).1
  · exact absurd isExit (laid.ne_of_child within below).2.1
  · refine .inr ?_
    obtain ⟨node, children⟩ := parent
    obtain ⟨position, found⟩ := getElem?_of_mem below
    have sitsBelow : Syntree.Seated (node.kind.seat seat position) child := sits.child found
    by_cases marker : node.kind.seat seat position = .marker position
    · rw [marker] at sitsBelow
      exact (Seat.admits_marker.mp sitsBelow.admits).imp And.left fun exit => .inl exit.1
    · have noIdent : node.kind.isIdent = false := (laid.ne_of_child within below).2.2
      obtain ⟨isBody', left, right, there, body, early⟩ :=
        visits.down well laid within found marker noIdent rfl
      exact .inr (.inr ⟨_, isBody', _, _, _, sitsBelow, there, step _ _ _ _ _ _ _ within sits visits
        holds position child found _ rfl isBody' left right there body early⟩)

theorem exists_visits (laid : arena.LaidOut)
    (inside : tree ∈ arena.tree.subtrees) (proper : tree ≠ arena.tree)
    (noEntry : tree.label.kind ≠ .entry) (noExit : tree.label.kind ≠ .exit) :
    ∃ isBody scope before after, Visits arena tree isBody scope before after := by
  obtain same | isEntry | isExit | ⟨_, isBody, scope, before, after, -, visits, -⟩ :=
    visits_everywhere (motive := fun _ _ _ _ _ => True) well laid
      (fun _ _ _ _ _ => trivial) (by intros; trivial) inside
  · exact absurd same proper
  · exact absurd isEntry noEntry
  · exact absurd isExit noExit
  · exact ⟨isBody, scope, before, after, visits⟩

end

end Resolution

end Seepage

import Seepage.Proofs.Scope.Moves
import Seepage.Proofs.Tree.Ancestry
import Seepage.Proofs.Tree.Seats

set_option autoImplicit false

namespace Seepage.Resolution

open List
open Rose hiding node

variable {low high size scope next node place : Nat} {arena : Arena} {move : Move}
  {resolution : Resolution} {entry : Hoisted}

structure Ordered (low high : Nat) (numbers : List Nat) : Prop where
  increasing : numbers.Pairwise (· < ·)
  within : ∀ number ∈ numbers, low ≤ number ∧ number < high

theorem Ordered.nil (low high : Nat) : Ordered low high [] :=
  ⟨.nil, forall_mem_nil _⟩

theorem Ordered.single {number : Nat} (small : low ≤ number) (large : number < high) :
    Ordered low high [number] :=
  ⟨pairwise_singleton _ _, forall_mem_singleton.mpr ⟨small, large⟩⟩

theorem Ordered.widen {low' high' : Nat} {numbers : List Nat} (ordered : Ordered low high numbers)
    (down : low' ≤ low) (up : high ≤ high') : Ordered low' high' numbers :=
  ⟨ordered.increasing, fun number member => by have := ordered.within number member; omega⟩

theorem Ordered.append {middle : Nat} {first second : List Nat}
    (early : Ordered low middle first) (late : Ordered middle high second) (down : low ≤ middle)
    (up : middle ≤ high) : Ordered low high (first ++ second) where
  increasing := pairwise_append.mpr ⟨early.increasing, late.increasing,
    fun number member number' member' =>
      Nat.lt_of_lt_of_le (early.within number member).2 (late.within number' member').1⟩
  within := forall_mem_append.mpr
    ⟨(early.widen (Nat.le_refl _) up).within, (late.widen down (Nat.le_refl _)).within⟩

theorem sites_opening (arena : Arena) (isBody : Bool) (scope next : Nat) (node : Node)
    (children : List Syntree) :
    Ordered node.id (node.id + 1) (sites (opening arena isBody scope next node children).own) := by
  obtain ⟨-, -, same⟩ | ⟨-, ⟨kind, hoisted, -, same⟩ | ⟨-, same⟩⟩ :=
    opening_cases arena isBody scope next node children
  all_goals simp only [same, sites_cons, sites_declares, Move.site?, Option.toList]
  · exact .single (Nat.le_refl _) (Nat.lt_succ_self _)
  · exact .single (Nat.le_refl _) (Nat.lt_succ_self _)
  · exact .nil _ _

theorem numbered_visited {ancestors : List Nat} {start : Nat} {node : Node}
    {children : List Syntree} (numbered : Syntree.AreNumbered ancestors start children) :
    ∃ low, start ≤ low ∧ Syntree.AreNumbered ancestors low (visited node children).2 ∧
      low + sizeAll (visited node children).2 = start + sizeAll children := by
  unfold visited
  split
  case h_1 =>
    obtain ⟨-, -, parts⟩ := numbered
    refine ⟨_, ?_, parts, ?_⟩
    · omega
    · simp only [sizeAll]
      omega
  case h_2 => exact ⟨start, Nat.le_refl _, numbered, rfl⟩

theorem sites_moves (arena : Arena) :
    (∀ isBody scope next tree, ∀ ancestors start, Syntree.IsNumbered ancestors start tree →
      Ordered start (start + tree.size) (sites (moves arena isBody scope next tree))) ∧
    ∀ scope next count trees, ∀ ancestors start, Syntree.AreNumbered ancestors start trees →
      Ordered start (start + sizeAll trees)
        (sites (movesParts arena scope next count trees)) := by
  refine moves_induction arena _ _ ?ident ?node ?nil ?body ?cons
  case ident =>
    intro isBody scope next node children name role isIdent ancestors start numbered
    obtain ⟨rfl, -⟩ := numbered
    have positive := (Rose.node node children).size_pos
    rw [moves_ident isIdent]
    exact .single (Nat.le_refl _) (by omega)
  case node =>
    intro isBody scope next node children noIdent parts ancestors start numbered
    obtain ⟨rfl, -, -, below⟩ := numbered
    obtain ⟨low, later, numbered, total⟩ := @numbered_visited _ _ node _ below
    have own := sites_opening arena isBody scope next node children
    rw [moves_node noIdent, sites_append, Rose.size, ← Nat.add_assoc, ← total]
    exact own.append ((parts _ _ numbered).widen later (Nat.le_refl _)) (by omega) (by omega)
  case nil => exact fun _ _ _ _ start _ => .nil _ _
  case body =>
    intro scope next tree rest whole ancestors start numbered
    refine (whole _ _ numbered.1).widen (Nat.le_refl _) ?_
    rw [sizeAll]
    omega
  case cons =>
    intro scope next count tree rest first others ancestors start numbered
    rw [movesParts, sites_append, sizeAll, ← Nat.add_assoc]
    exact (first _ _ numbered.1).append (others _ _ numbered.2) (by omega) (by omega)

theorem declare_moves (arena : Arena) (place : Nat) (hoisted : Hoisted) :
    (∀ isBody scope next tree, .declare place hoisted ∈ moves arena isBody scope next tree →
      isBody = true ∧ place = scope ∨ next ≤ place) ∧
    ∀ scope next count trees, .declare place hoisted ∈ movesParts arena scope next count trees →
      count < trees.length ∧ place = scope ∨ next ≤ place := by
  refine moves_induction arena _ _ ?ident ?node ?nil ?body ?cons
  case ident =>
    intro isBody scope next node children name role isIdent member
    rw [moves_ident isIdent] at member
    cases mem_singleton.mp member
  case node =>
    intro isBody scope next node children noIdent parts member
    have every (same : visited node children = (children.length, children)) :
        ¬(visited node children).1 < (visited node children).2.length := by
      rw [same]
      exact Nat.lt_irrefl _
    rw [moves_node noIdent] at member
    have whole := mem_append.mp member
    obtain ⟨rfl, isBlock, same⟩ | ⟨-, ⟨kind, hoisted, -, same⟩ | ⟨closed, same⟩⟩ :=
      opening_cases arena isBody scope next node children
    all_goals rw [same] at parts whole
    · obtain own | part := whole
      · exact .inl ⟨rfl, ((mem_cons_declares rfl).mp own).1⟩
      · refine .inr ((parts part).resolve_left fun less => every ?_ less.1)
        simp [visited, isBlock]
    · refine .inr ?_
      obtain own | part := whole
      · exact Nat.le_of_eq ((mem_cons_declares rfl).mp own).1.symm
      · obtain ⟨-, rfl⟩ | later := parts part
        · exact Nat.le_refl _
        · exact Nat.le_of_succ_le later
    · obtain own | part := whole
      · cases own
      · refine .inr ((parts part).resolve_left fun less => every ?_ less.1)
        exact visited_of_isPlain (isPlain_of_openedBy noIdent closed)
  case nil => exact fun _ _ _ absent => (not_mem_nil absent).elim
  case body =>
    intro scope next tree rest whole member
    exact (whole member).imp (fun same => ⟨by simp, same.2⟩) id
  case cons =>
    intro scope next count tree rest first others member
    obtain here | there := mem_append.mp member
    · exact .inr ((first here).resolve_left fun same => Bool.false_ne_true same.1)
    · obtain ⟨more, same⟩ | later := others there
      · exact .inl ⟨by simpa using more, same⟩
      · exact .inr (by omega)

def MadeAt (arena : Arena) (all : List Move) (move : Move) (part : Syntree) : Prop :=
  (∃ scope name role, part.label.kind = .ident name role ∧
    move = .resolve scope part.label.id name role) ∨
  ∃ isBody scope next,
    move ∈ (opening arena isBody scope next part.label part.children).own ∧
      (opening arena isBody scope next part.label part.children).own ⊆ all

theorem MadeAt.mono {few many : List Move} {part : Syntree}
    (made : MadeAt arena few move part) (sub : few ⊆ many) : MadeAt arena many move part := by
  refine made.imp_right ?_
  rintro ⟨isBody, scope, next, own, every⟩
  exact ⟨isBody, scope, next, own, List.Subset.trans every sub⟩

theorem made_moves (arena : Arena) (move : Move) :
    (∀ isBody scope next tree, move ∈ moves arena isBody scope next tree →
      ∃ part ∈ tree.subtrees, MadeAt arena (moves arena isBody scope next tree) move part) ∧
    ∀ scope next count trees, move ∈ movesParts arena scope next count trees →
      ∃ tree ∈ trees, ∃ part ∈ tree.subtrees,
        MadeAt arena (movesParts arena scope next count trees) move part := by
  refine moves_induction arena _ _ ?ident ?node ?nil ?body ?cons
  case ident =>
    intro isBody scope next node children name role isIdent member
    rw [moves_ident isIdent] at member
    exact ⟨_, self_mem_subtrees _,
      .inl ⟨scope, name, role, isIdent, mem_singleton.mp member⟩⟩
  case node =>
    intro isBody scope next node children noIdent parts member
    rw [moves_node noIdent] at member ⊢
    obtain own | later := mem_append.mp member
    · exact ⟨_, self_mem_subtrees _,
        .inr ⟨isBody, scope, next, own, subset_append_left _ _⟩⟩
    · obtain ⟨tree, held, part, inside, made⟩ := parts later
      exact ⟨part, subtrees_trans inside (child_mem_subtrees (visited_subset _ _ held)),
        made.mono (subset_append_right _ _)⟩
  case nil => exact fun _ _ _ absent => (not_mem_nil absent).elim
  case body =>
    intro scope next tree rest whole member
    exact ⟨tree, mem_cons_self, whole member⟩
  case cons =>
    intro scope next count tree rest first others member
    obtain here | there := mem_append.mp member
    · obtain ⟨part, inside, made⟩ := first here
      exact ⟨tree, mem_cons_self, part, inside, made.mono (subset_append_left _ _)⟩
    · obtain ⟨other, held, part, inside, made⟩ := others there
      exact ⟨other, mem_cons_of_mem _ held, part, inside,
        made.mono (subset_append_right _ _)⟩

theorem made_allMoves (member : move ∈ allMoves arena) :
    move ∈ topHoisted arena ∨
      ∃ part ∈ arena.tree.subtrees, MadeAt arena (allMoves arena) move part := by
  refine (mem_append.mp member).imp_right fun later => ?_
  obtain ⟨stmt, held, part, inside, made⟩ := (made_moves arena move).2 _ _ _ _ later
  exact ⟨part, subtrees_trans inside (child_mem_subtrees (mem_of_mem_drop held)),
    made.mono (subset_append_right _ _)⟩

def Move.Sound (size : Nat) : Move → Prop
  | .enter _ parent _ inner => parent < size ∧ parent ≠ unresolvedScope ∧ inner = size
  | .share scope _ | .declare scope _ | .resolve scope _ _ _ =>
    scope < size ∧ scope ≠ unresolvedScope

def Sound (size : Nat) : List Move → Prop
  | [] => True
  | move :: rest => move.Sound size ∧ Sound (size + move.isEnter.toNat) rest

theorem sound_append {first second : List Move} :
    Sound size (first ++ second) ↔ Sound size first ∧ Sound (size + entered first) second := by
  induction first generalizing size with
  | nil => simp [Sound, entered]
  | cons move rest ih =>
    rw [cons_append, Sound, Sound, ih, entered_cons, and_assoc, Nat.add_right_comm,
      Nat.add_assoc]

theorem sound_declares (known : scope < size) (declared : scope ≠ unresolvedScope)
    (hoisted : List Hoisted) : Sound size (hoisted.map (.declare scope)) := by
  induction hoisted with
  | nil => trivial
  | cons first rest ih => exact ⟨⟨known, declared⟩, ih⟩

theorem sound_opening (known : scope < next) (declared : scope ≠ unresolvedScope)
    (large : unresolvedScope < next) (arena : Arena) (isBody : Bool) (node : Node)
    (children : List Syntree) :
    Sound next (opening arena isBody scope next node children).own ∧
      (opening arena isBody scope next node children).inner <
        (opening arena isBody scope next node children).next ∧
      (opening arena isBody scope next node children).inner ≠ unresolvedScope ∧
      next ≤ (opening arena isBody scope next node children).next := by
  obtain ⟨-, -, same⟩ | ⟨-, ⟨kind, hoisted, -, same⟩ | ⟨-, same⟩⟩ :=
    opening_cases arena isBody scope next node children
  all_goals rw [same]
  · exact ⟨⟨⟨known, declared⟩, sound_declares known declared _⟩, known, declared, Nat.le_refl _⟩
  · have fresh : next ≠ unresolvedScope := by omega
    exact ⟨⟨⟨known, declared, rfl⟩, sound_declares (Nat.lt_succ_self _) fresh _⟩,
      Nat.lt_succ_self _, fresh, Nat.le_succ _⟩
  · exact ⟨trivial, known, declared, Nat.le_refl _⟩

theorem sound_moves (arena : Arena) :
    (∀ isBody scope next tree, scope < next → scope ≠ unresolvedScope → unresolvedScope < next →
      Sound next (moves arena isBody scope next tree)) ∧
    ∀ scope next count trees, scope < next → scope ≠ unresolvedScope → unresolvedScope < next →
      Sound next (movesParts arena scope next count trees) := by
  refine moves_induction arena _ _ ?ident ?node ?nil ?body ?cons
  case ident =>
    intro isBody scope next node children name role isIdent known declared large
    rw [moves_ident isIdent]
    exact ⟨⟨known, declared⟩, trivial⟩
  case node =>
    intro isBody scope next node children noIdent parts known declared large
    obtain ⟨own, below, inner, more⟩ :=
      sound_opening known declared large arena isBody node children
    rw [moves_node noIdent, sound_append, ← next_opening]
    exact ⟨own, parts below inner (Nat.lt_of_lt_of_le large more)⟩
  case nil => exact fun _ _ _ _ _ _ => trivial
  case body => exact fun _ _ _ _ whole => whole
  case cons =>
    intro scope next count tree rest first others known declared large
    rw [movesParts, sound_append]
    exact ⟨first known declared large, others (by omega) declared (by omega)⟩

theorem sound_allMoves (arena : Arena) : Sound 2 (allMoves arena) := by
  have global : globalScope < 2 ∧ globalScope ≠ unresolvedScope := by decide
  rw [allMoves, sound_append]
  refine ⟨⟨global, sound_declares global.1 global.2 _⟩, ?_⟩
  have none : entered (topHoisted arena) = 0 := by
    simp only [topHoisted, entered_cons, entered_declares, Move.isEnter]
    rfl
  rw [none]
  exact (sound_moves arena).2 _ _ _ _ global.1 global.2 (by decide)

structure Grounded (resolution : Resolution) : Prop where
  large : unresolvedScope < resolution.scopes.size
  outermost : ∀ scope < resolution.scopes.size, scope ≠ unresolvedScope →
    (resolution.scopes.chain scope).getLast? = some globalScope
  around : ∀ scope < resolution.scopes.size, scope ≠ unresolvedScope →
    ∀ outer ∈ resolution.scopes.chain scope,
      outer < resolution.scopes.size ∧ outer ≠ unresolvedScope

section

variable (grounded : resolution.Grounded)

include grounded

theorem Grounded.of_scopes {other : Resolution} (same : other.scopes = resolution.scopes) :
    other.Grounded :=
  ⟨same ▸ grounded.large, same ▸ grounded.outermost, same ▸ grounded.around⟩

theorem Grounded.enter (kind : ScopeKind) {parent : Nat} (known : parent < resolution.scopes.size)
    (declared : parent ≠ unresolvedScope) (node : Nat) : (resolution.enter kind parent node).Grounded := by
  have size : (resolution.enter kind parent node).scopes.size = resolution.scopes.size + 1 :=
    ScopeTree.size_create ..
  have chain : (resolution.enter kind parent node).scopes.chain resolution.scopes.size =
      resolution.scopes.size :: resolution.scopes.chain parent := ScopeTree.chain_create_size ..
  refine ⟨?_, fun scope below other => ?_, fun scope below other outer above => ?_⟩
  · rw [size]
    exact Nat.lt_succ_of_lt grounded.large
  · obtain old | rfl := Nat.lt_succ_iff_lt_or_eq.mp (size ▸ below)
    · rw [(Extends.enter ..).chain old]
      exact grounded.outermost scope old other
    · rw [chain, getLast?_cons, grounded.outermost parent known declared]
      rfl
  · have still (old : outer < resolution.scopes.size ∧ outer ≠ unresolvedScope) :
        outer < (resolution.enter kind parent node).scopes.size ∧ outer ≠ unresolvedScope :=
      ⟨size ▸ Nat.lt_succ_of_lt old.1, old.2⟩
    obtain old | rfl := Nat.lt_succ_iff_lt_or_eq.mp (size ▸ below)
    · rw [(Extends.enter ..).chain old] at above
      exact still (grounded.around scope old other outer above)
    · rw [chain] at above
      obtain rfl | above := mem_cons.mp above
      · exact ⟨size ▸ Nat.lt_succ_self _, other⟩
      · exact still (grounded.around parent known declared outer above)

theorem Grounded.apply {move : Move}
    (sound : move.Sound resolution.scopes.size) : (move.apply resolution).Grounded := by
  cases move with
  | enter kind parent node inner => exact grounded.enter kind sound.1 sound.2.1 node
  | share | declare => exact grounded.of_scopes rfl
  | resolve => exact grounded.of_scopes (scopes_resolve ..).1

theorem Grounded.run {moves : List Move}
    (sound : Sound resolution.scopes.size moves) : (run resolution moves).Grounded := by
  induction moves generalizing resolution with
  | nil => exact grounded
  | cons move rest ih =>
    refine ih (grounded.apply sound.1) ?_
    rw [size_apply]
    exact sound.2

end

theorem grounded_bare : bare.Grounded := by
  have global {scope : Nat} (known : scope < 2) (declared : scope ≠ 1) : scope = globalScope := by
    change scope = 0
    omega
  refine ⟨by decide, fun scope known declared => ?_, fun scope known declared outer above => ?_⟩
  all_goals obtain rfl := global known declared
  · rfl
  · obtain rfl := mem_singleton.mp above
    exact ⟨known, declared⟩

theorem scopeOf_apply (resolution : Resolution) (other : node ∉ move.site?) :
    (move.apply resolution).scopeOf[node]? = resolution.scopeOf[node]? := by
  have insert (place : Nat) (site : Nat) (differ : node ≠ site) :
      (resolution.scopeOf.insert site place)[node]? = resolution.scopeOf[node]? := by
    rw [Std.TreeMap.getElem?_insert, if_neg (by simpa using Ne.symm differ)]
  cases move with
  | enter kind parent site inner => exact insert _ _ fun same => other (by rw [same]; rfl)
  | share scope site => exact insert _ _ fun same => other (by rw [same]; rfl)
  | declare => rfl
  | resolve => exact congrArg (·[node]?) (scopes_resolve ..).2

theorem scopeOf_run (resolution : Resolution) {moves : List Move} (other : node ∉ sites moves) :
    (run resolution moves).scopeOf[node]? = resolution.scopeOf[node]? := by
  induction moves generalizing resolution with
  | nil => rfl
  | cons move rest ih =>
    rw [sites_cons, mem_append, not_or] at other
    rw [run, foldl_cons, ← run, ih _ other.2, scopeOf_apply]
    simpa using other.1

theorem scopeOf_opened
    (sound : move.Sound resolution.scopes.size) (opened : move.opened? = some (node, place)) :
    (move.apply resolution).scopeOf[node]? = some place := by
  cases move with
  | enter kind parent site inner =>
    cases opened
    rw [sound.2.2]
    exact Std.TreeMap.getElem?_insert_self
  | share scope site =>
    cases opened
    exact Std.TreeMap.getElem?_insert_self
  | declare | resolve => cases opened

def OwnedBy (arena : Arena) (moves : List Move) (place : Nat) (entry : Hoisted) : Prop :=
  ∃ top ∈ arena.tree.subtrees,
    (∃ move ∈ moves, move.opened? = some (top.label.id, place)) ∧
    Carried arena top.label.id (top.children.flatMap tops) entry

theorem OwnedBy.mono {moves more : List Move} (owned : OwnedBy arena moves place entry)
    (part : moves ⊆ more) : OwnedBy arena more place entry := by
  obtain ⟨top, inside, ⟨move, member, opened⟩, carried⟩ := owned
  exact ⟨top, inside, ⟨move, part member, opened⟩, carried⟩

theorem Carried.widen {few many : List Nat}
    (carried : Carried arena low few entry) (part : few ⊆ many) : Carried arena low many entry :=
  ⟨carried.1, carried.2.imp_right fun top => ⟨part top.1, top.2⟩⟩

section

variable {arena : Arena} (well : arena.WellNumbered) (laid : arena.LaidOut)

include well laid

theorem carried_opening {isBody : Bool} {node : Node} {children : List Syntree}
    (inside : .node node children ∈ arena.tree.subtrees)
    (member : .declare place entry ∈ (opening arena isBody scope next node children).own)
    (own : entry.ownNode = true) :
    OwnedBy arena (opening arena isBody scope next node children).own place entry := by
  have below : ∀ child ∈ children, child ∈ arena.tree.subtrees := fun child held =>
    mem_subtrees_of_child held inside
  refine ⟨_, inside, ?_⟩
  obtain ⟨-, -, same⟩ | ⟨-, ⟨kind, hoisted, opened, same⟩ | ⟨-, same⟩⟩ :=
    opening_cases arena isBody scope next node children
  all_goals rw [same] at member ⊢
  · obtain ⟨rfl, listed⟩ := (mem_cons_declares rfl).mp member
    exact ⟨⟨_, mem_cons_self, rfl⟩, carried_hoisted well node.id below entry listed own⟩
  · obtain ⟨rfl, listed⟩ := (mem_cons_declares rfl).mp member
    refine ⟨⟨_, mem_cons_self, rfl⟩, ?_⟩
    obtain ⟨name, form, paramCount, isExpr, entry', exit, parts, isFunction, rfl, rfl, rfl⟩ |
      opened := openedBy_cases opened
    · obtain ⟨named, self⟩ := own_headHoisted (well.kind_eq inside) listed own
      exact ⟨named, .inl self⟩
    · refine own_opens well inside (fun isSwitch case held => ?_) opened listed own
      have layout := laid.layout inside
      rw [isSwitch, Kind.fits, Bool.and_eq_true, ← map_drop, all_eq_true] at layout
      exact Kind.exists_of_isCase (layout.2 _ (mem_map_of_mem held))
  · cases member

theorem carried_allMoves (own : entry.ownNode = true)
    (member : .declare place entry ∈ allMoves arena) :
    OwnedBy arena (allMoves arena) place entry := by
  have below : ∀ stmt ∈ arena.tree.children.drop 2, stmt ∈ arena.tree.subtrees := fun stmt held =>
    child_mem_subtrees (mem_of_mem_drop held)
  obtain top | ⟨part, inside, ⟨_, _, _, -, same⟩ | ⟨isBody, scope, next, opened, every⟩⟩ :=
    made_allMoves member
  · obtain ⟨rfl, listed⟩ := (mem_cons_declares rfl).mp top
    refine ⟨arena.tree, arena.tree.self_mem_subtrees,
      ⟨_, mem_append_left _ mem_cons_self, ?_⟩, ?_⟩
    · rw [well.id_tree]
      rfl
    · refine (carried_hoisted well _ below entry listed own).widen fun id top => ?_
      obtain ⟨stmt, held, listed⟩ := mem_flatMap.mp top
      exact mem_flatMap.mpr ⟨stmt, mem_of_mem_drop held, listed⟩
  · cases same
  · obtain ⟨node, children⟩ := part
    exact (carried_opening well laid inside opened own).mono every

end

end Seepage.Resolution

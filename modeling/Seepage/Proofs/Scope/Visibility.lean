import Seepage.Proofs.Scope.Regions

set_option autoImplicit false

namespace Seepage

open List
open Rose hiding node

variable {scope symbol id position : Nat} {arena : Arena} {asMember isBody : Bool}
  {tree body : Syntree} {seat : Seat}

def Arena.inHead (arena : Arena) (function id : Nat) : Bool :=
  (arena.functionParts? function).any fun parts => parts.params.any (arena.path id).contains

theorem Kind.exists_of_isIdent {kind : Kind} (isIdent : kind.isIdent) :
    ∃ name role, kind = .ident name role := by
  cases kind <;> first | exact ⟨_, _, rfl⟩ | cases isIdent

theorem SymbolTable.declaration_declare {table : SymbolTable} {name other : String}
    {kind : SymbolKind} {place node : Nat} (absent : table.findLocal? other place = none)
    (found : (table.declare name kind scope node).findLocal? other place = some symbol) :
    place = scope ∧ ((table.declare name kind scope node).get symbol).declaration = node := by
  rw [findLocal?_declare, absent] at found
  split at found
  case isFalse => cases found
  case isTrue same =>
    obtain ⟨rfl, rfl⟩ := same
    cases found
    simp [declare, absent, get, size]

namespace Resolution

variable {before after : List Move}

section

variable {resolution : Resolution} {name : String} {place symbol : Nat}
  (absent : resolution.symbols.findLocal? name place = none)

include absent

theorem declaration_apply {move : Move}
    (found : (move.apply resolution).symbols.findLocal? name place = some symbol) :
    (∃ entry, move = .declare place entry ∧
      ((move.apply resolution).symbols.get symbol).declaration = entry.node) ∨
    ∃ scope looked role, move = .resolve scope
      ((move.apply resolution).symbols.get symbol).declaration looked role := by
  cases move with
  | enter | share =>
    rw [show resolution.symbols.findLocal? name place = _ from found] at absent
    cases absent
  | declare scope entry =>
    obtain ⟨rfl, declared⟩ := SymbolTable.declaration_declare absent found
    exact .inl ⟨entry, rfl, declared⟩
  | resolve scope node looked role =>
    obtain ⟨kind, target, unresolved, same, -⟩ := resolve_eq resolution scope node looked role
    obtain ⟨new, -, referred⟩ := referNew_eq { resolution with unresolved } target node looked kind
    simp only [Move.apply, same, referred] at found ⊢
    rw [SymbolTable.findLocal?_addReference] at found
    have declared := (SymbolTable.declaration_declare absent found).2
    refine .inr ⟨scope, looked, role, ?_⟩
    rw [SymbolTable.get_addReference]
    split <;> rw [declared]

theorem declaration_run {moves : List Move}
    (found : (run resolution moves).symbols.findLocal? name place = some symbol) :
    (∃ entry, .declare place entry ∈ moves ∧
      ((run resolution moves).symbols.get symbol).declaration = entry.node) ∨
    ∃ scope looked role, .resolve scope
      ((run resolution moves).symbols.get symbol).declaration looked role ∈ moves := by
  induction moves generalizing resolution with
  | nil =>
    rw [show resolution.symbols.findLocal? name place = _ from found] at absent
    cases absent
  | cons move rest ih =>
    have later := extends_run (move.apply resolution) rest
    cases here : (move.apply resolution).symbols.findLocal? name place with
    | none =>
      obtain ⟨entry, member, declared⟩ | ⟨scope, looked, role, member⟩ := ih here found
      · exact .inl ⟨entry, .tail _ member, declared⟩
      · exact .inr ⟨scope, looked, role, .tail _ member⟩
    | some first =>
      obtain rfl : first = symbol :=
        Option.some.inj ((later.kept _ _ _ here).symm.trans found)
      have still := (later.symbol first (SymbolTable.lt_of_findLocal? here)).2
      rw [run, foldl_cons, ← run, still]
      obtain ⟨entry, same, declared⟩ | ⟨scope, looked, role, same⟩ := declaration_apply absent here
      · exact .inl ⟨entry, same ▸ mem_cons_self, declared⟩
      · exact .inr ⟨scope, looked, role, same ▸ mem_cons_self⟩

end

def Fresh (resolution : Resolution) : Prop :=
  ∀ name place, resolution.scopes.size ≤ place → resolution.symbols.findLocal? name place = none

theorem Fresh.apply {resolution : Resolution} (fresh : resolution.Fresh)
    (grounded : resolution.Grounded) {move : Move} (sound : move.Sound resolution.scopes.size) :
    (move.apply resolution).Fresh := by
  intro name place late
  have old : resolution.scopes.size ≤ place := Nat.le_trans (extends_apply _ _).size late
  have absent := fresh name place old
  cases move with
  | enter | share => exact absent
  | declare scope entry =>
    have below : scope < resolution.scopes.size := sound.1
    rw [Move.apply, findLocal?_declare, absent, if_neg (by omega)]
    rfl
  | resolve scope node looked role =>
    obtain ⟨kind, target, unresolved, same, where_⟩ := resolve_eq resolution scope node looked role
    obtain ⟨new, -, referred⟩ := referNew_eq { resolution with unresolved } target node looked kind
    have below : target < resolution.scopes.size := by
      obtain ⟨above, -⟩ | ⟨rfl, -⟩ := where_
      · exact (grounded.around scope sound.1 sound.2 target above).1
      · exact grounded.large
    rw [Move.apply, same, referred, SymbolTable.findLocal?_addReference,
      SymbolTable.findLocal?_declare, absent, if_neg (by omega)]
    rfl

theorem Fresh.run {resolution : Resolution} (fresh : resolution.Fresh)
    (grounded : resolution.Grounded) {moves : List Move}
    (sound : Sound resolution.scopes.size moves) : (run resolution moves).Fresh := by
  induction moves generalizing resolution with
  | nil => exact fresh
  | cons move rest ih =>
    refine ih (fresh.apply grounded sound.1) (grounded.apply sound.1) ?_
    rw [size_apply]
    exact sound.2

theorem fresh_before {here : List Move}
    (whole : allMoves arena = before ++ here ++ after) : (run bare before).Fresh := by
  have sound := sound_allMoves arena
  rw [whole, sound_append, sound_append] at sound
  have start : bare.Fresh := fun name place _ => by
    simp [bare, initial, SymbolTable.findLocal?]
  exact start.run grounded_bare sound.1.1

section

variable {arena : Arena} {node : Node} {children : List Syntree} {isBody : Bool} {scope : Nat}
  {before after : List Move} (visits : Visits arena (.node node children) isBody scope before after)
  {opened : Opening} (same : opening arena isBody scope (2 + entered before) node children = opened)

include visits same

theorem Visits.node_inner (new : opened.inner ≠ scope) (more : List Move) :
    ((run bare (before ++ opened.own ++ more)).scopes.get opened.inner).node = node.id := by
  obtain ⟨-, size⟩ := grounded_before visits.whole
  have inner := (visits.known_inner same).1
  have known : scope < (run bare before).scopes.size := size ▸ visits.known
  have later := extends_run (run bare (before ++ opened.own)) more
  rw [run_append, later.scope _ (by rw [size_run]; exact inner), run_append]
  rw [← size] at same
  obtain chain | ⟨-, own⟩ := chain_opening known same
  · exact absurd (List.cons.inj chain).1 new
  · exact own

theorem Visits.node_final (noIdent : node.kind.isIdent = false) (new : opened.inner ≠ scope) :
    ((ofArena arena).scopes.get opened.inner).node = node.id := by
  have final : ofArena arena = run bare (before ++ opened.own ++
      (movesParts arena opened.inner (2 + entered (before ++ opened.own))
        (visited node children).1 (visited node children).2 ++ after)) := by
    rw [ofArena_eq_run, visits.whole, moves_opened noIdent same]
    simp only [append_assoc]
  rw [final]
  exact visits.node_inner same new _

theorem Visits.isBody_of_shared (opens : opened.own ≠ []) (shared : opened.inner = scope) :
    isBody = true := by
  have known := visits.known
  subst same
  obtain ⟨body, -, -⟩ | ⟨-, ⟨kind, hoisted, -, new⟩ | ⟨-, closed⟩⟩ :=
    opening_cases arena isBody scope (2 + entered before) node children
  · exact body
  · rw [new] at shared
    exact absurd shared (Nat.ne_of_gt known)
  · rw [closed] at opens
    exact absurd rfl opens

end

theorem mem_bindingsAll {trees : List Syntree} :
    id ∈ Syntree.bindingsAll asMember trees ↔
      ∃ tree ∈ trees, id ∈ Syntree.bindings asMember tree := by
  induction trees with
  | nil => simp [Syntree.bindingsAll]
  | cons tree rest ih => simp [Syntree.bindingsAll, ih]

theorem holds_of_bindings (bound : id ∈ Syntree.bindings asMember tree) : tree.Holds id := by
  induction tree using byChildren generalizing asMember with
  | node node children ih =>
    have part {asMember : Bool} {child : Syntree} (member : child ∈ children)
        (bound : id ∈ Syntree.bindings asMember child) : Rose.Holds (.node node children) id :=
      Rose.holds_node.mpr (.inr ⟨child, member, ih child member bound⟩)
    unfold Syntree.bindings at bound
    split at bound
    case h_1 =>
      obtain rfl := mem_singleton.mp bound
      exact Rose.holds_node.mpr (.inl rfl)
    case h_2 | h_3 =>
      obtain ⟨child, member, bound⟩ := mem_bindingsAll.mp bound
      exact part member bound
    case h_4 | h_5 => exact part mem_cons_self bound
    case h_6 =>
      split at bound
      case isTrue => exact part mem_cons_self bound
      case isFalse => cases bound
    case h_7 =>
      split at bound
      case isTrue => exact part (mem_cons_of_mem _ mem_cons_self) bound
      case isFalse => cases bound
    case h_8 => cases bound

section

variable {arena : Arena} (well : arena.WellNumbered)

include well

theorem mem_path (inside : tree ∈ arena.tree.subtrees)
    (holds : tree.Holds id) : tree.label.id ∈ arena.path id := by
  obtain ⟨inner, within, rfl⟩ := holds
  obtain rfl | ⟨child, member, deeper⟩ := Rose.mem_subtrees.mp within
  · exact mem_cons_self
  · refine mem_cons_of_mem _ ((well.mem_ancestors_iff (subtrees_trans within inside)).mpr
      ⟨tree, inside, rfl, child, member, inner, deeper, rfl⟩)

theorem holds_of_mem_ancestors (inside : tree ∈ arena.tree.subtrees)
    (known : id < arena.size) (above : tree.label.id ∈ arena.ancestors id) : tree.Holds id := by
  obtain ⟨inner, within, rfl⟩ := well.exists_subtree known
  obtain ⟨top, higher, same, child, member, deeper, held, self⟩ :=
    (well.mem_ancestors_iff within).mp above
  obtain rfl := well.eq_of_id higher inside same
  exact ⟨deeper, subtrees_trans held (child_mem_subtrees member), self⟩

variable {node : Node} {entry exit : Syntree} {parts : List Syntree}
  (inside : .node node (entry :: exit :: parts) ∈ arena.tree.subtrees) {name : Option String}
  {form : FunctionForm} {paramCount : Nat} {isExpr : Bool}
  (isFunction : node.kind = .function name form paramCount isExpr)

include inside isFunction

theorem inHead_of_param {param : Syntree} (member : param ∈ parts.take paramCount)
    (holds : param.Holds id) : arena.inHead node.id id := by
  have below : param ∈ (Rose.node node (entry :: exit :: parts)).children :=
    mem_cons_of_mem _ (mem_cons_of_mem _ (mem_of_mem_take member))
  rw [Arena.inHead, functionParts?_eq well inside isFunction, Option.any_some, any_eq_true]
  refine ⟨param.label.id, ?_, ?_⟩
  · rw [← map_take]
    exact mem_map_of_mem member
  · rw [contains_iff_mem]
    exact mem_path well (child_inside below inside) holds

theorem inHead_of_holds (laid : arena.LaidOut) (found : parts[paramCount]? = some body)
    (holds : Rose.Holds (.node node (entry :: exit :: parts)) id)
    (isIdent : (arena.kind id).isIdent) (outside : ¬body.Holds id) : arena.inHead node.id id := by
  have owns : (Rose.node node (entry :: exit :: parts)).label.kind.isOwner := by
    rw [Rose.label, isFunction]
    rfl
  obtain ⟨entry', exit', parts', same, isEntry, isExit⟩ := laid.exists_ends inside owns
  cases same
  have noMarker {marker : Syntree} (below : marker ∈ entry :: exit :: parts)
      (isMarker : marker.label.kind = .entry ∨ marker.label.kind = .exit) : ¬marker.Holds id := by
    rintro ⟨inner, within, rfl⟩
    have deeper := mem_subtrees_of_child below inside
    rw [well.kind_eq (subtrees_trans within deeper)] at isIdent
    have listed : inner.label.id ∈ identsOf marker.subtrees :=
      mem_map_of_mem (mem_filter.mpr ⟨within, isIdent⟩)
    rw [identsOf_marker laid deeper isMarker] at listed
    cases listed
  obtain rfl | ⟨child, member, held⟩ := Rose.holds_node.mp holds
  · rw [show arena.kind node.id = node.kind from well.kind_eq inside, isFunction] at isIdent
    cases isIdent
  obtain rfl | member := mem_cons.mp member
  · exact absurd held (noMarker mem_cons_self (.inl isEntry))
  obtain rfl | member := mem_cons.mp member
  · exact absurd held (noMarker (by simp) (.inr isExit))
  rw [← take_append_drop paramCount parts] at member
  obtain param | rest := mem_append.mp member
  · exact inHead_of_param well inside isFunction param held
  · have layout := laid.layout inside
    simp [isFunction, Kind.fits] at layout
    obtain ⟨bound, isBody⟩ := List.getElem?_eq_some_iff.mp found
    rw [drop_eq_getElem_cons bound, isBody, drop_eq_nil_of_le (by omega),
      mem_singleton] at rest
    exact absurd (rest ▸ held) outside

theorem lt_body (laid : arena.LaidOut) (found : parts[paramCount]? = some body)
    (holds : Rose.Holds (.node node (entry :: exit :: parts)) id) (outside : ¬body.Holds id) :
    id < body.label.id := by
  have layout := laid.layout inside
  simp [isFunction, Kind.fits] at layout
  obtain ⟨bound, isBody⟩ := List.getElem?_eq_some_iff.mp found
  have split : entry :: exit :: parts = entry :: exit :: parts.take paramCount ++ [body] := by
    have rest : parts.drop paramCount = [body] := by
      rw [drop_eq_getElem_cons bound, isBody, drop_eq_nil_of_le (by omega)]
    rw [cons_append, cons_append, ← rest, take_append_drop]
  have member : body ∈ entry :: exit :: parts := by simp [mem_of_getElem? found]
  have ends : body.label.id + body.size =
      node.id + (Rose.node node (entry :: exit :: parts)).size := by
    have numbered := numbered_children well inside
    rw [split, areNumbered_append] at numbered
    have start := numbered.2.1.label_id
    rw [Rose.size, split, sizeAll_append, start]
    simp only [sizeAll]
    omega
  refine Nat.lt_of_not_le fun late => outside ?_
  rw [well.holds_iff (mem_subtrees_of_child member inside)]
  exact ⟨late, ends ▸ ((well.holds_iff inside).mp holds).2⟩

theorem declaration_head {hoisted : Hoisted}
    (member : hoisted ∈ headHoisted arena node paramCount parts) :
    hoisted.node = node.id ∨ arena.inHead node.id hoisted.node := by
  obtain own | param := mem_append.mp member
  · refine .inl ?_
    unfold ownHoisted at own
    split at own
    case h_1 => rw [mem_singleton.mp own]
    case h_2 => cases own
  · refine .inr ?_
    obtain ⟨id, listed, named⟩ := mem_filterMap.mp param
    obtain ⟨text, -, rfl⟩ := Option.map_eq_some_iff.mp named
    obtain ⟨pattern, taken, bound⟩ := mem_flatMap.mp listed
    exact inHead_of_param well inside isFunction taken (holds_of_bindings bound)

variable (laid : arena.LaidOut) {child : Syntree}

omit well in
include laid in
theorem getElem?_body (found : (entry :: exit :: parts)[position]? = some child)
    (place : node.kind.seat seat position = .body) : parts[paramCount]? = some child := by
  have layout := laid.layout inside
  simp [isFunction, Kind.fits] at layout
  obtain ⟨bound, -⟩ := List.getElem?_eq_some_iff.mp found
  simp only [length_cons] at bound
  simp only [isFunction, Kind.seat] at place
  split at place
  case isTrue => cases place
  case isFalse =>
    split at place
    case isTrue => cases place
    case isFalse =>
      obtain rfl : position = paramCount + 2 := by omega
      exact found

omit well inside in
theorem opening_function (isBody : Bool) (scope next : Nat) :
    opening arena isBody scope next node (entry :: exit :: parts) =
      ⟨.enter .function scope node.id next ::
        (headHoisted arena node paramCount parts).map (.declare next), next, next + 1⟩ := by
  simp [opening, openedBy, isFunction]

variable {isBody : Bool} {scope : Nat} {before after : List Move}
  (visits : Visits arena (.node node (entry :: exit :: parts)) isBody scope before after)
  {opened : Opening}
  (same : opening arena isBody scope (2 + entered before) node (entry :: exit :: parts) = opened)
  {isBody' : Bool} {left right : List Move}
  (below : Visits arena child isBody' opened.inner (before ++ opened.own ++ left) (right ++ after))

include visits same laid below

theorem declaration_inner (member : child ∈ parts) (last : parts[paramCount]? = some child)
    (early : ∀ place hoisted, .declare place hoisted ∈ left →
      2 + entered (before ++ opened.own) ≤ place) {text : String}
    (bound : (run bare (before ++ opened.own ++ left)).symbols.findLocal? text opened.inner =
      some symbol) :
    ((run bare (before ++ opened.own ++ left)).symbols.get symbol).declaration = node.id ∨
      arena.inHead node.id
        ((run bare (before ++ opened.own ++ left)).symbols.get symbol).declaration := by
  have inner := (visits.known_inner same).1
  have made := (opening_function isFunction isBody scope (2 + entered before)).symm.trans same
  have absent : (run bare before).symbols.findLocal? text opened.inner = none := by
    refine fresh_before visits.whole text _ (Nat.le_of_eq ?_)
    rw [(grounded_before visits.whole).2, ← made]
  have whole := below.whole
  rw [append_assoc before, run_append] at bound ⊢
  obtain ⟨hoisted, listed, declared⟩ | ⟨place, looked, role, resolved⟩ :=
    declaration_run absent bound
  · rw [declared]
    obtain own | later := mem_append.mp listed
    · rw [← made] at own
      exact declaration_head well inside isFunction ((mem_cons_declares rfl).mp own).2
    · have := early _ _ later
      omega
  · refine .inr ?_
    generalize ((run (run bare before) (opened.own ++ left)).symbols.get symbol).declaration = id
      at resolved ⊢
    have later : .resolve place id looked role ∈ left := by
      refine (mem_append.mp resolved).resolve_left fun own => ?_
      rw [← made] at own
      simp at own
    have used : .resolve place id looked role ∈ allMoves arena := by simp [whole, later]
    have isIdent := kind_of_resolve well used
    have site : id ∈ sites left := mem_sites later rfl
    have low : id < child.label.id := below.low id (by simp [site])
    have high : node.id < id := by
      have increasing := sites_allMoves well
      rw [whole] at increasing
      simp only [sites_append, append_assoc, pairwise_append] at increasing
      refine increasing.2.1.2.2 node.id ?_ id (mem_append_left _ site)
      rw [← made]
      exact mem_cons_self
    have part : child ∈ (Rose.node node (entry :: exit :: parts)).children := by
      simp [Rose.children, member]
    have deeper := child_inside part inside
    have atMost := well.end_le inside part
    refine inHead_of_holds well inside isFunction laid last ((well.holds_iff inside).mpr ?_)
      (by rw [isIdent]; rfl) fun held => ?_
    · exact ⟨Nat.le_of_lt high, by omega⟩
    · have := ((well.holds_iff deeper).mp held).1
      omega

end

def Bodied (arena : Arena) (tree : Syntree) (isBody : Bool) (scope : Nat) (before : List Move) :
    Prop :=
  isBody = true → ∃ function, arena.parent? tree.label.id = some function ∧
    ((run bare before).scopes.get scope).node = function ∧
    (∀ id, (arena.kind id).isIdent → function ∈ arena.ancestors id → ¬tree.Holds id →
      arena.inHead function id ∧ id < tree.label.id) ∧
    ∀ name symbol, (run bare before).symbols.findLocal? name scope = some symbol →
      ((run bare before).symbols.get symbol).declaration = function ∨
        arena.inHead function ((run bare before).symbols.get symbol).declaration

section

variable {arena : Arena} (well : arena.WellNumbered) (laid : arena.LaidOut)

include well laid

theorem bodied_child {node : Node} {children : List Syntree}
    (inside : .node node children ∈ arena.tree.subtrees)
    (visits : Visits arena (.node node children) isBody scope before after) {opened : Opening}
    (same : opening arena isBody scope (2 + entered before) node children = opened)
    {child : Syntree} (found : children[position]? = some child) {isBody' : Bool}
    {left right : List Move}
    (below : Visits arena child isBody' opened.inner (before ++ opened.own ++ left)
      (right ++ after)) (body : node.kind.seat seat position = .body ↔ isBody' = true)
    (early : ∀ place hoisted, .declare place hoisted ∈ left →
      2 + entered (before ++ opened.own) ≤ place) :
    Bodied arena child isBody' opened.inner (before ++ opened.own ++ left) := by
  intro isBody
  have place := body.mpr isBody
  obtain ⟨name, form, paramCount, isExpr, isFunction⟩ :=
    Kind.exists_of_isFunction (Kind.isFunction_of_seat place)
  have owns : (Rose.node node children).label.kind.isOwner := by
    rw [Rose.label, isFunction]
    rfl
  obtain ⟨entry, exit, parts, parted, -⟩ := laid.exists_ends inside owns
  obtain rfl : children = entry :: exit :: parts := parted
  have last := getElem?_body inside isFunction laid found place
  have new : opened.inner ≠ scope := by
    rw [← same, opening_function isFunction]
    exact Nat.ne_of_gt visits.known
  refine ⟨node.id, well.parent_child inside (mem_of_getElem? found),
    visits.node_inner same new left, fun id isIdent above outside => ?_, fun text symbol bound =>
      declaration_inner well inside isFunction laid visits same below (mem_of_getElem? last)
        last early bound⟩
  have known : id < arena.size := Arena.lt_size_of_kind fun isProgram => by
    rw [isProgram] at isIdent
    cases isIdent
  have holds := holds_of_mem_ancestors well inside known above
  exact ⟨inHead_of_holds well inside isFunction laid last holds isIdent outside,
    lt_body well inside isFunction laid last holds outside⟩

theorem exists_bodied (inside : tree ∈ arena.tree.subtrees) (proper : tree ≠ arena.tree)
    (noEntry : tree.label.kind ≠ .entry) (noExit : tree.label.kind ≠ .exit) :
    ∃ isBody scope before after, Visits arena tree isBody scope before after ∧
      Bodied arena tree isBody scope before := by
  obtain same | isEntry | isExit | ⟨_, isBody, scope, before, after, -, visits, bodied⟩ :=
    visits_everywhere
      (motive := fun _ tree isBody scope before => Bodied arena tree isBody scope before)
      well laid (fun _ _ _ _ _ => nofun)
      (fun seat node children isBody scope before after inside _ visits _ position child found
          opened same isBody' left right below body early =>
        bodied_child well laid inside visits same found below body early) inside
  · exact absurd same proper
  · exact absurd isEntry noEntry
  · exact absurd isExit noExit
  · exact ⟨isBody, scope, before, after, visits, bodied⟩

end

theorem scopeOf_home (well : arena.WellNumbered) (laid : arena.LaidOut) {home : Nat}
    (isHome : arena.home? id = some home) (bound : (ofArena arena).symbolOf[id]? = some symbol) :
    (ofArena arena).scopeOf[home]? = some ((ofArena arena).symbols.get symbol).scope := by
  have given := isHome
  unfold Arena.home? at given
  split at given
  case h_1 isIdent =>
    exact scopeOf_home_ident well laid isIdent (.inl rfl) isHome bound
  case h_2 isIdent =>
    exact scopeOf_home_ident well laid isIdent (.inr rfl) isHome bound
  case h_3 isClass => exact scopeOf_home_class well laid isClass isHome bound
  case h_4 => cases given

section

variable {arena : Arena} (well : arena.WellNumbered) (laid : arena.LaidOut) {id : Nat}
  (isIdent : (arena.kind id).isIdent)

include well laid isIdent

theorem root_mem_ancestors : arena.tree.label.id ∈ arena.ancestors id := by
  have known : id < arena.size := Arena.lt_size_of_kind fun isProgram => by
    rw [isProgram] at isIdent
    cases isIdent
  obtain ⟨tree, inside, rfl⟩ := well.exists_subtree known
  obtain rfl | ⟨child, member, deeper⟩ := Rose.mem_subtrees.mp inside
  · rw [well.kind_eq inside, laid.program] at isIdent
    cases isIdent
  · exact (well.mem_ancestors_iff inside).mpr
      ⟨arena.tree, arena.tree.self_mem_subtrees, rfl, child, member, tree, deeper, rfl⟩

variable {symbol : Nat} (bound : (ofArena arena).symbolOf[id]? = some symbol)

include bound

theorem node_mem_ancestors
    (declared : ((ofArena arena).symbols.get symbol).scope ≠ unresolvedScope) :
    ((ofArena arena).scopes.get ((ofArena arena).symbols.get symbol).scope).node ∈
      arena.ancestors id := by
  obtain ⟨name, role, isIdent⟩ := Kind.exists_of_isIdent isIdent
  obtain ⟨tree, inside, rfl, isIdent, isBody, scope, before, after, visits⟩ :=
    exists_visits_ident well laid isIdent
  obtain ⟨place, symbol', bound', found, where_⟩ := visits.bound well inside isIdent laid
  obtain rfl : symbol' = symbol := Option.some.inj (bound'.symm.trans bound)
  replace found := (visits.extends_ident isIdent).kept _ _ _ found
  have same := (SymbolTable.name_of_findLocal? found).2
  rw [same] at declared ⊢
  obtain ⟨above, -⟩ | ⟨outside, -⟩ := where_
  · obtain ⟨grounded, size⟩ := grounded_before visits.whole
    have known := grounded.around scope (size ▸ visits.known) visits.declared place above
    rw [visits.extends_final.scope place known.1]
    exact visits.chain place above
  · exact absurd outside declared

theorem found_before (inside : tree ∈ arena.tree.subtrees)
    (visits : Visits arena tree isBody scope before after) (early : id < tree.label.id) :
    ∃ name, (run bare before).symbols.findLocal? name
      ((ofArena arena).symbols.get symbol).scope = some symbol := by
  obtain ⟨name, role, isIdent⟩ := Kind.exists_of_isIdent isIdent
  obtain ⟨occurrence, within, rfl, isIdent, _, outer, first, rest, visited⟩ :=
    exists_visits_ident well laid isIdent
  obtain ⟨place, symbol', bound', found, -⟩ := visited.bound well within isIdent laid
  obtain rfl : symbol' = symbol := Option.some.inj (bound'.symm.trans bound)
  have final := (visited.extends_ident isIdent).kept _ _ _ found
  rw [(SymbolTable.name_of_findLocal? final).2]
  have whole := visited.whole_ident isIdent
  have member : .resolve outer occurrence.label.id name role ∈ before := by
    have listed : .resolve outer occurrence.label.id name role ∈ allMoves arena := by simp [whole]
    rw [visits.whole, append_assoc] at listed
    refine (mem_append.mp listed).resolve_right fun later => ?_
    obtain here | later := mem_append.mp later
    · have numbered := well.numbered.subtree inside
      have := (((sites_moves arena).1 _ _ _ _ _ _ numbered).within _ (mem_sites here rfl)).1
      omega
    · have := visits.high _ (mem_sites later rfl)
      omega
  obtain ⟨left, right, rfl⟩ := append_of_mem member
  have split := visits.whole
  rw [append_assoc, append_assoc] at split
  obtain ⟨rfl, -, -⟩ := split_unique (sites_allMoves well) whole split rfl rfl
  refine ⟨name, ?_⟩
  have later := extends_run ((run bare first).resolve outer occurrence.label.id name role) right
  rw [run_append]
  exact later.kept _ _ _ found

theorem bound_within_body (inside : body ∈ arena.tree.subtrees)
    (noIdent : body.label.kind.isIdent = false) (visits : Visits arena body true scope before after)
    (bodied : Bodied arena body true scope before)
    (place : ((ofArena arena).symbols.get symbol).scope = scope)
    (above : ((ofArena arena).scopes.get scope).node ∈ arena.ancestors id) :
    body.label.id ∈ arena.ancestors id ∨
      ∃ function, arena.parent? body.label.id = some function ∧ arena.inHead function id ∧
        (((ofArena arena).symbols.get symbol).declaration = function ∨
          arena.inHead function ((ofArena arena).symbols.get symbol).declaration) := by
  obtain ⟨function, parent, belongs, head, declaration⟩ := bodied rfl
  have later := visits.extends_final
  have known : scope < (run bare before).scopes.size := by
    rw [(grounded_before visits.whole).2]
    exact visits.known
  rw [later.scope scope known, belongs] at above
  by_cases within : body.label.id ∈ arena.ancestors id
  · exact .inl within
  have outside : ¬body.Holds id := by
    intro holds
    obtain same | held := mem_cons.mp (mem_path well inside holds)
    · rw [← same, well.kind_eq inside, noIdent] at isIdent
      cases isIdent
    · exact within held
  obtain ⟨inHead, early⟩ := head id isIdent above outside
  obtain ⟨name, found⟩ := found_before well laid isIdent bound inside visits early
  rw [place] at found
  rw [(later.symbol symbol (SymbolTable.lt_of_findLocal? found)).2]
  exact .inr ⟨function, parent, inHead, declaration name symbol found⟩

end

theorem bound_within_home {file : Script.File} {arena : Arena}
    (read : Arena.ofFile file = .ok arena) {id : Nat} (isIdent : (arena.kind id).isIdent)
    {declared home : Nat} (isHome : arena.home? declared = some home) {symbol : Nat}
    (bound : (ofArena arena).symbolOf[id]? = some symbol)
    (same : (ofArena arena).symbolOf[declared]? = some symbol) :
    home ∈ arena.ancestors id ∨
      ∃ function, arena.parent? home = some function ∧ arena.inHead function id ∧
        (((ofArena arena).symbols.get symbol).declaration = function ∨
          arena.inHead function ((ofArena arena).symbols.get symbol).declaration) := by
  obtain ⟨well, laid⟩ := Arena.shaped_ofFile read
  have there := scopeOf_home well laid isHome same
  obtain ⟨⟨node, children⟩, inside, rfl, child, member⟩ := Arena.exists_home well isHome
  obtain ⟨noEntry, noExit, noIdent⟩ := laid.ne_of_child inside member
  by_cases whole : .node node children = arena.tree
  · exact .inl (whole ▸ root_mem_ancestors well laid isIdent)
  obtain ⟨isBody, scope, before, after, visits, bodied⟩ :=
    exists_bodied well laid inside whole noEntry noExit
  obtain ⟨opened, opens⟩ : ∃ opened, opening arena isBody scope (2 + entered before) node children =
    opened := ⟨_, rfl⟩
  rw [Rose.label, visits.scopeOf_opened well inside noIdent opens] at there
  obtain ⟨own, place⟩ : opened.own ≠ [] ∧
      opened.inner = ((ofArena arena).symbols.get symbol).scope := by
    split at there
    case isTrue => cases there
    case isFalse own => exact ⟨own, Option.some.inj there⟩
  have above := node_mem_ancestors well laid isIdent bound
    (place ▸ (visits.known_inner opens).2)
  rw [← place] at above
  by_cases shared : opened.inner = scope
  · obtain rfl := visits.isBody_of_shared opens own shared
    exact bound_within_body well laid isIdent bound inside noIdent visits bodied
      (place.symm.trans shared) (shared ▸ above)
  · rw [visits.node_final opens noIdent shared] at above
    exact .inl above

-- `(function g(a = g) { let g; });`
def ownName : Script.File := .sample [
  .expr (.paren (.function (some "g") (.mk [.initialized (.ident "a") (.ident "g") {}] (.block (.mk
    [.vars .letBinding [.mk (.ident "g") none {}] {}] {})) {})) {}) {}]

theorem bound_within_home_ownName :
    ∃ arena, Arena.ofFile ownName = .ok arena ∧ (arena.kind 9).isIdent ∧
      arena.home? 13 = some 10 ∧ (ofArena arena).symbolOf[9]? = some 0 ∧
      (ofArena arena).symbolOf[13]? = some 0 ∧
      (10 ∈ arena.ancestors 9 ∨ ∃ function, arena.parent? 10 = some function ∧
        arena.inHead function 9 ∧ (((ofArena arena).symbols.get 0).declaration = function ∨
          arena.inHead function ((ofArena arena).symbols.get 0).declaration)) ∧
      10 ∉ arena.ancestors 9 ∧ ((ofArena arena).symbols.get 0).declaration = 4 := by
  refine ⟨_, rfl, by decide +kernel, by decide +kernel, by decide +kernel, by decide +kernel, ?_,
    by decide +kernel, by decide +kernel⟩
  exact @bound_within_home ownName _ rfl 9 (by decide +kernel) 13 10 (by decide +kernel) 0
    (by decide +kernel) (by decide +kernel)

-- `let x; switch (x) { default: let x; }`
def shadowedChoice : Script.File := .sample [
  .vars .letBinding [.mk (.ident "x") none {}] {},
  .switchStmt (.ident "x") [.mk none [.vars .letBinding [.mk (.ident "x") none {}] {}] {}] {}]

theorem bound_outside_cases :
    ∃ arena, Arena.ofFile shadowedChoice = .ok arena ∧ arena.kind 6 = .switchStmt ∧
      arena.home? 11 = some 6 ∧ arena.kind 7 = .ident "x" .read ∧ arena.ancestors 7 = [6, 0] ∧
      (ofArena arena).symbolOf[7]? = some 1 ∧ (ofArena arena).symbolOf[11]? = some 1 ∧
      (ofArena arena).symbolOf[5]? = some 0 :=
  ⟨_, rfl, by decide +kernel⟩

end Resolution

end Seepage

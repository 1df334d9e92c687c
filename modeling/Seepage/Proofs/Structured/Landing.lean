import Seepage.Proofs.Flow.Finalizers
import Seepage.Proofs.Structured.Jumps

set_option autoImplicit false

namespace Seepage.Structured

open List Exits
open Rose hiding node

variable {frame : Frame} {target : Nat} {rest children : List Syntree}
  {hasInit hasTest hasUpdate : Bool} {kind : Kind} {block tree : Syntree} {arena : Arena}
  {label : Option String}

namespace Landing

variable {landing : Landing} {scope : Scope} {after : Nat} {preds : Exits} {inner : Emitted}

theorem inside_plain (drawn : landing.Draws scope inner) (plain : frame.finalizer? = none)
    (left : ∀ source, IsOpen (inner.breaksAt scope.frames.length) source →
      Joins landing.edges source after) : landing.Draws ((frame, after) :: scope) inner := by
  refine drawn.push (fun member _ => left _ ?_) fun _ isFinal => ?_
  · rw [isOpen_breaksAt, Scope.length_frames]
    exact member
  · rw [plain] at isFinal
    cases isFinal

theorem inside_guarded (drawn : landing.Draws scope inner) (handler : Option Nat)
    {finalizer : Option Nat} (handling : Bool) (after : Nat)
    (resumed : ∀ {aim? id}, Pending inner scope.length aim? → finalizer = some id →
      ∀ last, CompletesAt landing.arena id last →
      landing.Draws scope (send landing.exit scope.frames last aim?)) :
    landing.Draws ((⟨.guarded handler finalizer handling, []⟩, after) :: scope) inner := by
  refine drawn.push (fun {_ label} _ takes => ?_) resumed
  cases label <;> cases takes

theorem draws_resumed {final : Exits}
    (departs : landing.Draws scope (if inner.departs.contains scope.frames.length then
      departAll scope.frames landing.exit final else {})) (resumes : landing.Draws scope
      (resumeAll scope.frames final (inner.resumesAt scope.frames.length))) {aim? : Option Aim}
    (pends : Pending inner scope.length aim?) {last : Nat} (isLast : IsOpen final last) :
    landing.Draws scope (send landing.exit scope.frames last aim?) := by
  rw [Scope.length_frames] at departs resumes
  cases aim? with
  | some aim => exact resumes.within (.resumeAll pends isLast)
  | none =>
    obtain ⟨label, isLast⟩ := isLast
    rw [if_pos (contains_iff_mem.mpr pends)] at departs
    refine ⟨fun edge member => ?_, fun _ _ _ member => ?_, fun split _ _ _ => departs.pending split⟩
    · obtain rfl := mem_singleton.mp member
      exact departs.drawn _ (mem_map_of_mem isLast)
    · cases member

theorem lands_closeLoop {again : Nat} {labels : List String} {before : Emitted} {body : Piece}
    {back : List ControlEdge} {done : Exits}
    (first : before.Tied landing.bounds 0 scope.frames.length)
    (turn : landing.DrawsPiece ((⟨.loop again, labels⟩, after) :: scope) again body →
      body.Tied landing.bounds 0 (scope.frames.length + 1))
    (turns : ∀ source, IsOpen body.exits source → Joins back source again)
    (starts : body.exits.Tied landing.bounds.left → ∀ edge ∈ back, landing.bounds.drawn edge)
    (last : done.Tied landing.bounds.left)
    (drawn : landing.DrawsPiece scope after (closeLoop before body back scope.frames.length done)) :
    (closeLoop before body back scope.frames.length done).Tied landing.bounds 0
      scope.frames.length := by
  obtain ⟨opening, closing⟩ := laid_append drawn.emitted
  have tied := turn ⟨inside_plain (laid_append opening).2 rfl fun source isOpen =>
      drawn.exits source isOpen.left, fun source isOpen =>
        (turns source isOpen).imp fun _ => closing.drawn _⟩
  exact tied_closeLoop first tied (starts tied.exits) last

theorem drawn_raising {vertices : List Nat} :
    ∀ edge ∈ raising vertices target, landing.bounds.drawn edge := by
  intro edge member
  obtain ⟨vertex, -, rfl⟩ := mem_map.mp member
  exact fun _ _ raised => absurd rfl raised

section

variable {arena : Arena} (well : arena.WellNumbered) {tree child : Syntree}
  (inside : tree ∈ arena.tree.subtrees)

include well inside

theorem nodup_childIds : (tree.children.map (·.label.id)).Nodup := by
  have distinct := well.nodup_ids inside
  obtain ⟨node, children⟩ := tree
  exact ((sublist_subtreesAll children).map _).nodup distinct.of_cons

theorem later_eq {before : List Syntree} (parts : tree.children = before ++ child :: rest) :
    (tree.children.dropWhile (·.label.id != child.label.id)).tail = rest := by
  have distinct := nodup_childIds well inside
  rw [parts, map_append, nodup_append] at distinct
  rw [parts, dropWhile_append_of_pos, dropWhile_cons_of_neg (by simp), tail_cons]
  intro other member
  simpa using distinct.2.2 _ (mem_map_of_mem member) child.label.id (by simp)

theorem siteOf_child (below : child ∈ tree.children) : siteOf arena child.label.id =
      (if tree.label.kind.isOwner then { after := arena.exitOf tree.label.id }
        else siteOf arena tree.label.id).inside tree child := by
  have deeper := child_inside below inside
  rw [siteOf, well.ancestors_eq deeper, well.ancestors_child inside below, siteAlong,
    well.subtree_eq inside, well.subtree_eq deeper, well.kind_eq inside, siteOf,
    well.ancestors_eq inside]

omit inside

theorem isControl_forPart {node : Node} {parts : List Syntree}
    (isFor : node.kind = .forStmt hasInit hasTest hasUpdate)
    (inside : .node node parts ∈ arena.tree.subtrees) (laid : arena.LaidOut) {position id : Nat}
    (before : position < hasInit.toNat + hasTest.toNat + hasUpdate.toNat)
    (found : node.children[position]? = some id) : (arena.kind id).isControl = false := by
  have layout := laid.layout inside
  simp only [isFor, Kind.fits, Bool.and_eq_true, beq_iff_eq, length_map] at layout
  obtain ⟨count, heads⟩ := layout
  have named : node.children = parts.map (·.label.id) :=
    well.linked inside _ (self_mem_subtrees _)
  rw [named, getElem?_map, Option.map_eq_some_iff] at found
  obtain ⟨part, here, rfl⟩ := found
  have below := mem_of_getElem? here
  have head : part.label.kind ∈ (parts.map (·.label.kind)).dropLast := by
    rw [dropLast_eq_take, length_map, ← map_take]
    refine mem_map_of_mem (mem_of_getElem? (i := position) ?_)
    rw [getElem?_take_of_lt (by omega), here]
  have deeper := mem_subtrees_of_child below inside
  rw [well.kind_eq deeper]
  simpa using all_eq_true.mp heads _ head

end

theorem label_node (node : Node) (children : List Syntree) :
    (Rose.node node children).label = node := rfl

theorem plain_of (isList : kind.isBlock ∨ kind.isCase ∨ kind.isCatch) :
    kind.isOwner = false ∧ isPlain kind := by
  revert isList
  cases kind <;> simp [Kind.isBlock, Kind.isCase, Kind.isCatch, Kind.isOwner, isPlain]

def Landed (landing : Landing) (tree : Syntree) : Prop :=
  landing.Lands (siteOf landing.arena tree.label.id) tree

structure Standing (landing : Landing) (tree : Syntree) : Prop where
  well : landing.arena.WellNumbered
  laid : landing.arena.LaidOut
  inside : tree ∈ landing.arena.tree.subtrees
  each : ∀ child ∈ tree.children, ∀ part ∈ child.subtrees, landing.Landed part

namespace Standing

variable {tree child : Syntree} (standing : landing.Standing tree) (below : child ∈ tree.children)

include standing

theorem own (plain : isPlain tree.label.kind) : landing.Free tree.label.id :=
  free_of (by rwa [standing.well.kind_eq standing.inside])

theorem layout : tree.label.kind.fits (tree.children.map (·.label.kind)) :=
  standing.laid.fits tree standing.inside

theorem named : tree.label.children = tree.children.map (·.label.id) :=
  standing.well.linked standing.inside tree tree.self_mem_subtrees

theorem linked : ∀ child ∈ tree.children, child.Linked := fun _ below =>
  (standing.well.linked standing.inside).child below

theorem sites (plain : tree.label.kind.isOwner = false) (child : Syntree)
    (below : child ∈ tree.children) : siteOf landing.arena child.label.id =
      (siteOf landing.arena tree.label.id).inside tree child := by
  rw [siteOf_child standing.well standing.inside below, plain]
  rfl

theorem parts (plain : tree.label.kind.isOwner = false) (child : Syntree)
    (below : child ∈ tree.children) :
    landing.Lands ((siteOf landing.arena tree.label.id).inside tree child) child :=
  standing.sites plain child below ▸ standing.each child below child child.self_mem_subtrees

include below in
theorem deeper : landing.Standing child where
  __ := standing
  inside := child_inside below standing.inside
  each _ under part inner := standing.each child below part
    (subtrees_trans inner (child_mem_subtrees under))

variable {labels : List String} {scope : Scope} {after : Nat}
  (sited : siteOf landing.arena tree.label.id = ⟨labels, scope, after⟩)

include sited

theorem stmts (isList : tree.label.kind.isBlock ∨ tree.label.kind.isCase) (before : List Syntree)
    (stmt : Syntree) (rest : List Syntree) (split : tree.children = before ++ stmt :: rest) :
    landing.Lands ⟨[], scope, (firstVertexAny? rest).getD after⟩ stmt := by
  have lands := standing.parts (plain_of (isList.imp_right .inl)).1 stmt (by simp [split])
  rw [Site.inside, later_eq standing.well standing.inside split, sited] at lands
  revert lands isList
  cases tree.label.kind <;> simp [Kind.isBlock, Kind.isCase]

theorem finalizer (isBlock : tree.label.kind.isBlock) : landing.Free tree.label.id ∧
    (∀ last, CompletesAt landing.arena tree.label.id last →
      IsOpen (flowAll landing.exit scope.frames tree.children [(tree.label.id, .fallthrough)]).exits
        last) ∧
    (landing.DrawsPiece scope after
        (flowAll landing.exit scope.frames tree.children [(tree.label.id, .fallthrough)]) →
      (flowAll landing.exit scope.frames tree.children [(tree.label.id, .fallthrough)]).Tied
        landing.bounds 0 scope.frames.length) := by
  have own := standing.own (plain_of (.inl isBlock)).2
  refine ⟨own, fun last completes => ?_, lands_flowAll (tied_singleton own.2) standing.linked
    (standing.stmts sited (.inl isBlock))⟩
  rw [CompletesAt, standing.well.subtree_eq standing.inside] at completes
  exact meets_flowAll (fun stmt _ => met _ stmt) completes (isOpen_single.mpr rfl)

theorem handler (isCatch : tree.label.kind.isCatch) : landing.Free tree.label.id ∧
      ∀ part ∈ tree.children, landing.Lands ⟨[], scope, after⟩ part := by
  refine ⟨standing.own (plain_of (.inr (.inr isCatch))).2, fun part under => ?_⟩
  have lands := standing.parts (plain_of (.inr (.inr isCatch))).1 part under
  rw [Site.inside, sited] at lands
  revert lands isCatch
  cases tree.label.kind <;> simp [Kind.isCatch]

end Standing

variable {node : Node}

theorem tied_begin {init : Piece} {turn : Emitted} {count : Nat} (own : landing.Free node.id)
    (start : init.Tied landing.bounds 0 count) (step : turn.Tied landing.bounds 0 count) :
    (init.emitted ++ { vertices := [node.id], edges := connect init.exits node.id } ++ turn).Tied
      landing.bounds 0 count :=
  Emitted.tied_append.mpr ⟨Emitted.tied_append.mpr
    ⟨start.emitted, tied_head own.1 trivial start.exits⟩, step⟩

section

variable (standing : landing.Standing (.node node children))

include standing

theorem Standing.free (plain : isPlain node.kind) : landing.Free node.id :=
  standing.own plain

theorem landed_simple (plain : steers node.kind children = false) :
    landing.Landed (.node node children) := by
  have layout : node.kind.fits (children.map (·.label.kind)) := standing.layout
  have own := standing.free (by
    revert layout plain
    cases node.kind <;> cases children <;> simp [isPlain, Kind.fits, steers])
  intro preds quiet _
  rw [flow_simple plain]
  exact ⟨tied_head own.1 trivial quiet, tied_singleton own.2⟩

theorem landed_throw (isThrow : node.kind = .throwStmt) : landing.Landed (.node node children) := by
  have own := standing.free (by rw [isThrow]; rfl)
  intro preds quiet _
  simp only [flow, isThrow]
  exact ⟨Emitted.tied_append.mpr ⟨tied_head own.1 trivial quiet,
    tied_raise (.anywhere (fun _ => trivial) _ _) own.2⟩, forall_mem_nil _⟩

theorem landed_block (isBlock : node.kind = .block) : landing.Landed (.node node children) := by
  intro preds quiet drawn
  simp only [flow, isBlock] at drawn ⊢
  exact lands_flowAll quiet standing.linked
    (standing.stmts rfl (.inl (by rw [label_node, isBlock]; rfl))) drawn

theorem landed_jump (jumps : isJump node.kind) : landing.Landed (.node node children) := by
  have kind : landing.arena.kind node.id = node.kind := standing.well.kind_eq standing.inside
  intro preds quiet drawn
  rw [flow_jump jumps, ← kind] at drawn ⊢
  have sent : landing.Draws _ (landing.sent node.id) := (laid_append drawn.emitted).2
  refine ⟨Emitted.tied_append.mpr ⟨tied_head ⟨fun _ => sent, fun isLoop => ?_⟩ trivial quiet,
    tied_sent node.id _⟩, forall_mem_nil _⟩
  rw [← kind, isLoop] at jumps
  cases jumps

theorem landed_with (isWith : node.kind = .withStmt) : landing.Landed (.node node children) := by
  have own := standing.free (by rw [isWith]; rfl)
  have each := standing.parts (by rw [label_node, isWith]; rfl)
  simp only [Site.inside, label_node, isWith] at each
  intro preds quiet drawn
  simp only [flow, isWith] at drawn ⊢
  have body := lands_flowLast (tied_singleton own.2) each
    ⟨(laid_append drawn.emitted).2, drawn.exits⟩
  exact ⟨Emitted.tied_append.mpr ⟨tied_head own.1 trivial quiet, body.emitted⟩, body.exits⟩

theorem landed_loop (isLoop : node.kind = .whileStmt ∨ node.kind = .forIn ∨ node.kind = .forOf) :
    landing.Landed (.node node children) := by
  have own := standing.free (by rcases isLoop with isLoop | isLoop | isLoop <;> rw [isLoop] <;> rfl)
  have each : ∀ part ∈ children, landing.Lands ⟨[], (⟨.loop node.id,
      (siteOf landing.arena node.id).labels⟩, (siteOf landing.arena node.id).after) ::
      (siteOf landing.arena node.id).scope, node.id⟩ part := by
    intro part below
    rcases isLoop with isLoop | isLoop | isLoop <;> simpa only [Site.inside, label_node, isLoop]
      using standing.parts (by rw [label_node, isLoop]; rfl) part below
  intro preds quiet drawn
  rw [flow_loop isLoop] at drawn ⊢
  exact lands_closeLoop (tied_head own.1 trivial quiet)
    (lands_flowLast (tied_singleton own.2) each)
    (fun source isOpen => joins_connectAs.mpr ⟨isOpen, rfl⟩)
    (fun sources => drawn_connectAs .loopBack sources trivial) (tied_singleton own.2) drawn

theorem landed_for (isFor : node.kind = .forStmt hasInit hasTest hasUpdate) :
    landing.Landed (.node node children) := by
  have own := standing.free (by rw [isFor]; rfl)
  have turn := standing.parts (by rw [label_node, isFor]; rfl)
  simp only [Site.inside, label_node, isFor] at turn
  have others : ∀ position id, position < hasInit.toNat + hasTest.toNat + hasUpdate.toNat →
      node.children[position]? = some id → landing.Free id := by
    intro position id before found
    have plain := isControl_forPart standing.well isFor standing.inside standing.laid before found
    refine free_of ?_
    revert plain
    cases landing.arena.kind id <;> simp [isPlain, Kind.isControl]
  have updated : ∀ id ∈ (if hasUpdate then node.children[hasInit.toNat + hasTest.toNat]? else none),
      landing.Free id := by
    intro id found
    rw [Option.mem_def, Option.ite_none_right_eq_some] at found
    exact others _ id (by simp [found.1]) found.2
  intro preds quiet drawn
  rw [flow_def] at drawn ⊢
  simp only [isFor] at drawn ⊢
  generalize (if hasUpdate then node.children[hasInit.toNat + hasTest.toNat]? else none) = update
    at drawn turn updated ⊢
  refine lands_closeLoop (tied_begin own ?_ ?_)
    (lands_flowLast (tied_singleton own.2) turn) ?_ ?_ ?_ drawn
  · split
    case h_1 first _ isFirst =>
      have aside := others 0 first (by rw [Bool.toNat_true]; omega) (by simp [isFirst])
      exact ⟨tied_head aside.1 trivial quiet, tied_singleton aside.2⟩
    case h_2 => exact ⟨Emitted.tied_nothing, quiet⟩
  · cases update with
    | none => exact Emitted.tied_nothing
    | some id =>
      have aside := updated id rfl
      exact ⟨forall_mem_singleton.mpr aside.1,
        forall_mem_singleton.mpr (landing.bounds.leads _ aside.2 trivial), by simp, by simp⟩
  · intro source isOpen
    cases update with
    | none => exact joins_connectAs.mpr ⟨isOpen, rfl⟩
    | some id => exact joins_connect.mpr ⟨isOpen, rfl⟩
  · intro sources
    cases update with
    | none => exact drawn_connectAs .loopBack sources trivial
    | some id => exact drawn_connect sources trivial
  · split
    · exact tied_singleton own.2
    · exact forall_mem_nil _

end

theorem landed_choose {test consequent : Syntree} {alternate : Option Syntree}
    (standing : landing.Standing (.node node (test :: consequent :: alternate.toList)))
    {hasElse : Bool} (isIf : node.kind = .ifStmt hasElse) :
    landing.Landed (.node node (test :: consequent :: alternate.toList)) := by
  have own := standing.free (by rw [isIf]; rfl)
  have parts := standing.parts (by rw [label_node, isIf]; rfl)
  simp only [Site.inside, label_node, isIf] at parts
  intro preds quiet drawn
  rw [flow_choose isIf] at drawn ⊢
  obtain ⟨before, right⟩ := laid_append drawn.emitted
  have yes := parts consequent (by simp [Rose.children]) _ (tied_singleton own.2)
    ⟨(laid_append before).2,
      fun source isOpen => drawn.exits source isOpen.left⟩
  have no := lands_flowLast (tied_singleton own.2)
    (fun stmt below => parts stmt (by simp [Rose.children, below])) ⟨right,
      fun source isOpen => drawn.exits source isOpen.right⟩
  refine ⟨?_, tied_append.mpr ⟨yes.exits, no.exits⟩⟩
  simp only [Emitted.tied_append]
  exact ⟨⟨tied_head own.1 trivial quiet, yes.emitted⟩, no.emitted⟩

theorem landed_doWhile {stmt : Syntree} (standing : landing.Standing (.node node (stmt :: rest)))
    (isLoop : node.kind = .doWhile) : landing.Landed (.node node (stmt :: rest)) := by
  have kind : landing.arena.kind node.id = .doWhile :=
    (standing.well.kind_eq standing.inside).trans isLoop
  have here : landing.bounds.left node.id := by simp [bounds, kind, isJump]
  have turn := standing.parts (by rw [label_node, isLoop]; rfl) stmt mem_cons_self
  simp only [Site.inside, label_node, isLoop] at turn
  intro preds quiet drawn
  simp only [flow, isLoop] at drawn ⊢
  obtain ⟨inner, closing⟩ := laid_append drawn.emitted
  have body := turn preds quiet ⟨inside_plain inner rfl fun source isOpen =>
      drawn.exits source isOpen.left, fun source isOpen =>
        (joins_connect.mpr ⟨isOpen, rfl⟩).imp fun _ member =>
          closing.drawn _ (mem_append_left _ member)⟩
  have back := closing.drawn _ (mem_append_right _ mem_cons_self)
  have target : backTarget landing.arena node.id = (entryVertex? stmt).getD node.id := by
    rw [backTarget, show landing.arena.subtree node.id = _ from
      standing.well.subtree_eq standing.inside]
    rfl
  have left := body.emitted.breaksAt (Nat.lt_succ_self _)
  refine ⟨Emitted.tied_append.mpr ⟨body.emitted.close (Nat.le_succ _), ⟨?_, ?_, by simp, by simp⟩⟩,
    tied_append.mpr ⟨left, tied_singleton here⟩⟩
  · exact forall_mem_singleton.mpr ⟨by simp [kind, isJump], fun _ => target ▸ back⟩
  · exact forall_mem_append.mpr ⟨drawn_connect body.exits trivial,
      forall_mem_singleton.mpr (landing.bounds.leads _ here trivial)⟩

theorem landed_labelled {body : Syntree}
    (standing : landing.Standing (.node node (body :: rest))) {label : String}
    (isLabel : node.kind = .labeled label) : landing.Landed (.node node (body :: rest)) := by
  have part := standing.parts (by rw [label_node, isLabel]; rfl) body mem_cons_self
  simp only [Site.inside, label_node, isLabel] at part
  intro preds quiet drawn
  rw [flow_def] at drawn ⊢
  simp only [isLabel] at drawn ⊢
  by_cases takes : body.label.kind.takesLabel
  · rw [if_pos takes] at drawn part ⊢
    exact part preds quiet drawn
  · rw [if_neg takes] at drawn part ⊢
    have inner := part preds quiet ⟨inside_plain drawn.emitted rfl fun source isOpen =>
      drawn.exits source isOpen.right, fun source isOpen =>
        drawn.exits source isOpen.left⟩
    have leaves := inner.emitted.breaksAt (Nat.lt_succ_self _)
    exact ⟨inner.emitted.close (Nat.le_succ _), tied_append.mpr ⟨inner.exits, leaves⟩⟩

theorem landed_switch {subject : Syntree} {cases : List Syntree}
    (standing : landing.Standing (.node node (subject :: cases)))
    (isSwitch : node.kind = .switchStmt) : landing.Landed (.node node (subject :: cases)) := by
  have own := standing.free (by rw [isSwitch]; rfl)
  have sites := standing.sites (by rw [label_node, isSwitch]; rfl)
  have layout := standing.layout
  simp only [Site.inside, label_node, isSwitch] at sites
  simp only [label_node, isSwitch, Kind.fits, Bool.and_eq_true, Rose.children, map_cons,
    drop_one, tail_cons, all_eq_true, forall_mem_map] at layout
  have each : ∀ before case rest, cases = before ++ case :: rest →
      LandsCase landing ((⟨.choice, (siteOf landing.arena node.id).labels⟩,
        (siteOf landing.arena node.id).after) :: (siteOf landing.arena node.id).scope)
        ((rest.head?.map (·.label.id)).getD (siteOf landing.arena node.id).after) case := by
    intro before case rest same
    have below : case ∈ subject :: cases := by simp [same]
    have isCase := layout.2 case (by simp [same])
    have later : ((subject :: cases).dropWhile _).tail = rest := later_eq standing.well
      standing.inside (by rw [same]; exact cons_append.symm)
    have inner := standing.deeper below
    have fits := inner.layout
    have sited := sites case below
    rw [Rose.children, later] at sited
    obtain ⟨isDefault, kind⟩ : ∃ isDefault, case.label.kind = .switchCase isDefault := by
      revert isCase
      cases case.label.kind <;> simp [Kind.isCase]
    simp only [kind, Kind.fits, isEmpty_map] at fits
    exact ⟨inner.own (plain_of (.inr (.inl isCase))).2, ⟨isDefault, kind, fits⟩,
      inner.linked, inner.stmts sited (.inr isCase)⟩
  intro preds quiet drawn
  simp only [flow, isSwitch] at drawn ⊢
  have inner := (laid_append drawn.emitted).2
  have opens {source : Nat} := fun here => drawn.exits source (IsOpen.left here)
  have body := lands_flowCases own.2 each (forall_mem_nil _)
    ⟨inside_plain inner rfl fun source isOpen => opens isOpen.left,
      fun source isOpen => opens isOpen.right⟩
  have left := body.emitted.breaksAt (Nat.lt_succ_self _)
  refine ⟨Emitted.tied_append.mpr
    ⟨tied_head own.1 trivial quiet, body.emitted.close (Nat.le_succ _)⟩,
    tied_append.mpr ⟨tied_append.mpr ⟨left, body.exits⟩, ?_⟩⟩
  split
  · exact forall_mem_nil _
  · exact tied_singleton own.2

namespace Standing

variable {block : Syntree} {handler final : Option Syntree} {labels : List String}
  (standing : landing.Standing (.node node (block :: (handler.toList ++ final.toList))))
  (isTry : node.kind = .tryStmt handler.isSome final.isSome)
  (sited : siteOf landing.arena node.id = ⟨labels, scope, after⟩)

include standing isTry sited

theorem sites_guarded :
    let last := final.map (·.label.id)
    let site (handling : Bool) : Site := ⟨[], (⟨.guarded (handler.map (·.label.id)) last handling,
      []⟩, after) :: scope, last.getD after⟩
    siteOf landing.arena block.label.id = site false ∧
      (∀ top ∈ handler, siteOf landing.arena top.label.id = site true ∧ top.label.kind.isCatch) ∧
      ∀ top ∈ final, siteOf landing.arena top.label.id = ⟨[], scope, after⟩ ∧
        top.label.kind.isBlock := by
  intro last site
  have sites := standing.sites (by rw [label_node, isTry]; rfl)
  have named : node.children = _ := standing.named
  have layout := standing.layout
  have distinct := nodup_childIds standing.well standing.inside
  have caught : (if handler.isSome then node.children[1]? else none) =
      handler.map (·.label.id) := by cases handler <;> simp [named, Rose.children]
  have cleaned : (if final.isSome then node.children.getLast? else none) = last := by
    cases final <;> simp [named, Rose.children, last, getLast?_cons, getLast?_append]
  have placed (child : Syntree) (below : child ∈ block :: (handler.toList ++ final.toList)) :
      siteOf landing.arena child.label.id = if last = some child.label.id then ⟨[], scope, after⟩
        else site (handler.map (·.label.id) = some child.label.id) := by
    rw [sites child below, label_node, sited]
    simp only [Site.inside, label_node, isTry, caught, cleaned]
    rfl
  clear sites named caught cleaned
  cases handler <;> cases final <;>
    simp [label_node, isTry, Kind.fits, Rose.children, last] at layout distinct placed <;> grind

theorem tied_guardedFlow (drawn : landing.DrawsPiece scope ((final.map (·.label.id)).getD after)
      (guardedFlow landing.exit scope.frames node.id block handler (final.map (·.label.id))))
    (resumed : ∀ {aim? id}, Pending (guardedFlow landing.exit scope.frames node.id block handler
        (final.map (·.label.id))).emitted scope.length aim? → final.map (·.label.id) = some id →
      ∀ last, CompletesAt landing.arena id last →
      landing.Draws scope (send landing.exit scope.frames last aim?)) :
    (guardedFlow landing.exit scope.frames node.id block handler (final.map (·.label.id))).Tied
      landing.bounds 0 (scope.frames.length + 1) := by
  have own := standing.free (by rw [isTry]; rfl)
  obtain ⟨site, catches, -⟩ := standing.sites_guarded isTry sited
  have first := standing.each block mem_cons_self block block.self_mem_subtrees
  rw [Landed, site] at first
  cases handler with
  | none =>
    exact first _ (tied_singleton own.2)
      ⟨inside_guarded drawn.emitted none false _ resumed, drawn.exits⟩
  | some handler =>
    obtain ⟨site', isCatch⟩ := catches handler rfl
    obtain ⟨caught, parts⟩ := (standing.deeper (by simp [Rose.children])).handler site' isCatch
    obtain ⟨top, stmts⟩ := handler
    simp only [guardedFlow, flowHandler] at drawn resumed ⊢
    have held {part : Emitted} : Within part part := .refl part
    have body := first _ (tied_singleton own.2)
      ⟨inside_guarded (drawn.emitted.within held.left.left.left) _ false _ fun pends =>
          resumed (held.left.left.left.pending pends),
        fun source isOpen => drawn.exits source isOpen.left⟩
    have catching := lands_flowLast (tied_singleton caught.2) parts
      ⟨inside_guarded (drawn.emitted.within held.right) _ true _ fun pends =>
          resumed (held.right.pending pends),
        fun source isOpen => drawn.exits source isOpen.right⟩
    refine ⟨?_, tied_append.mpr ⟨body.exits, catching.exits⟩⟩
    simp only [Emitted.tied_append]
    exact ⟨⟨⟨body.emitted, Emitted.tied_ofEdges drawn_raising⟩, Emitted.tied_vertex caught.1⟩,
      catching.emitted⟩

end Standing

theorem landed_guarded {handler : Option Syntree}
    (standing : landing.Standing (.node node (block :: handler.toList)))
    (isTry : node.kind = .tryStmt handler.isSome false) :
    landing.Landed (.node node (block :: handler.toList)) := by
  have own := standing.free (by rw [isTry]; rfl)
  have whole : landing.Standing (.node node (block :: (handler.toList ++ Option.toList none))) := by
    rwa [Option.toList_none, append_nil]
  intro preds quiet drawn
  rw [flow_guarded _ _ _ _ _ _ isTry] at drawn ⊢
  have body := whole.tied_guardedFlow isTry rfl ⟨(laid_append drawn.emitted).2, drawn.exits⟩ (by simp)
  exact ⟨Emitted.tied_append.mpr
    ⟨tied_head own.1 trivial quiet, body.emitted.close (Nat.le_succ _)⟩, body.exits⟩

theorem landed_finalized {handler : Option Syntree} {final : Node} {stmts : List Syntree}
    (standing : landing.Standing (.node node (block :: (handler.toList ++ [.node final stmts]))))
    (isTry : node.kind = .tryStmt handler.isSome true) :
    landing.Landed (.node node (block :: (handler.toList ++ [.node final stmts]))) := by
  have own := standing.free (by rw [isTry]; rfl)
  have whole : landing.Standing (.node node (block ::
    (handler.toList ++ (some (Rose.node final stmts)).toList))) := standing
  obtain ⟨sited, isBlock⟩ := (whole.sites_guarded isTry rfl).2.2 _ rfl
  obtain ⟨ends, exits, last⟩ := (standing.deeper (by simp [Rose.children])).finalizer sited isBlock
  intro preds quiet drawn
  rw [flow_finalized _ _ _ _ _ _ _ _ isTry] at drawn ⊢
  obtain ⟨before, resumes⟩ := laid_append drawn.emitted
  obtain ⟨before, departs⟩ := laid_append before
  obtain ⟨before, behind⟩ := laid_append before
  obtain ⟨before, joined⟩ := laid_append before
  have body := whole.tied_guardedFlow isTry rfl
    ⟨(laid_append (laid_append before).1).2, fun source isOpen =>
      (joins_connect.mpr ⟨isOpen, rfl⟩).imp fun _ => joined.drawn _⟩
    fun pends same source isLast => draws_resumed departs resumes pends
      (by cases same; exact exits _ isLast)
  have after := last ⟨behind, drawn.exits⟩
  obtain ⟨away, onward⟩ := tied_resume (.anywhere (fun _ => trivial) landing.exit _)
    body.emitted after.exits
  refine ⟨?_, after.exits⟩
  simp only [Emitted.tied_append]
  exact ⟨⟨⟨⟨⟨⟨⟨tied_head own.1 trivial quiet, Emitted.tied_vertex ends.1⟩,
    body.emitted.close (Nat.le_succ _)⟩, Emitted.tied_ofEdges drawn_raising⟩,
    Emitted.tied_ofEdges (drawn_connect body.exits trivial)⟩, after.emitted⟩, away⟩, onward⟩

variable (well : landing.arena.WellNumbered) (laid : landing.arena.LaidOut)

include well laid

theorem landed (inside : tree ∈ landing.arena.tree.subtrees) : landing.Landed tree := by
  induction tree using bySubtrees with
  | node node children ih =>
    have standing : landing.Standing (.node node children) := ⟨well, laid, inside,
      fun child below part under => ih child below part under
        (subtrees_trans under (mem_subtrees_of_child below inside))⟩
    cases form node children with
    | block isBlock => exact landed_block standing isBlock
    | choose isIf => exact landed_choose standing isIf
    | loop isLoop => exact landed_loop standing isLoop
    | doWhile isLoop => exact landed_doWhile standing isLoop
    | forLoop isFor => exact landed_for standing isFor
    | labelled isLabel => exact landed_labelled standing isLabel
    | breaks isKind | continues isKind | returns isKind =>
      exact landed_jump standing (by rw [isKind]; rfl)
    | throws isThrow => exact landed_throw standing isThrow
    | switch isSwitch => exact landed_switch standing isSwitch
    | with_ isWith => exact landed_with standing isWith
    | guarded isTry => exact landed_guarded standing isTry
    | finalized isTry => exact landed_finalized standing isTry
    | simple plain => exact landed_simple standing plain

theorem lands_body {tree : Syntree} (inside : tree ∈ landing.arena.tree.subtrees)
    (owns : tree.label.kind.isOwner) (isExit : landing.arena.exitOf tree.label.id = landing.exit)
    {start : Exits} (quiet : start.Tied landing.bounds.left)
    (drawn : landing.DrawsPiece [] landing.exit (ControlGraph.body landing.exit tree start)) :
    (ControlGraph.body landing.exit tree start).Tied landing.bounds 0 0 := by
  have sited {before rest : List Syntree} {child : Syntree}
      (parts : tree.children = before ++ child :: rest) : siteOf landing.arena child.label.id =
        ⟨[], [], (firstVertexAny? rest).getD landing.exit⟩ := by
    rw [siteOf_child well inside (by simp [parts]), Site.inside,
      later_eq well inside parts, isExit]
    revert owns
    cases tree.label.kind <;> simp [Kind.isOwner]
  have within {child : Syntree} (below : child ∈ tree.children) := child_inside below inside
  have standing : landing.Standing tree := ⟨well, laid, inside, fun child below part under =>
    landed well laid (subtrees_trans under (within below))⟩
  unfold ControlGraph.body at drawn ⊢
  split at drawn
  case h_1 count _ isFunction =>
    rcases found : tree.children[2 + count]? with _ | body
    · exact ⟨Emitted.tied_nothing, quiet⟩
    · simp only [found] at drawn ⊢
      have below := mem_of_getElem? found
      have layout := standing.layout
      simp only [isFunction, Kind.fits, Bool.and_eq_true, decide_eq_true_eq,
        length_map, all_eq_true] at layout
      obtain ⟨bound, rfl⟩ := List.getElem?_eq_some_iff.mp found
      have single : tree.children.drop (2 + count) = [tree.children[2 + count]] := by
        rw [drop_eq_getElem_cons bound, drop_of_length_le (by omega)]
      by_cases isBlock : tree.children[2 + count].label.kind = .block
      · rw [if_pos isBlock] at drawn ⊢
        have whole := sited (single ▸ (take_append_drop _ _).symm)
        exact lands_flowAll quiet (standing.deeper below).linked
          ((standing.deeper below).stmts whole (.inl (by rw [isBlock]; rfl))) drawn
      · rw [if_neg isBlock] at drawn ⊢
        have plain := layout.2 tree.children[2 + count].label.kind
          (by rw [← map_drop, single]; simp)
        have own : landing.Free tree.children[2 + count].label.id := by
          refine (standing.deeper below).own ?_
          revert plain isBlock
          cases tree.children[2 + count].label.kind <;>
            simp [Kind.isBlock, Kind.isControl, isPlain]
        exact ⟨tied_head own.1 trivial quiet, tied_singleton own.2⟩
  case h_2 =>
    refine lands_flowAll quiet (fun stmt under => standing.linked stmt (mem_of_mem_drop under))
      (fun before stmt rest same => ?_) drawn
    have parts : tree.children = (tree.children.take 2 ++ before) ++ stmt :: rest := by
      rw [append_assoc, ← same, take_append_drop]
    rw [← sited parts]
    exact landed well laid (within (by rw [parts]; simp))

omit well laid

def ofTree (arena : Arena) (tree : Syntree) : Landing :=
  ⟨arena, (ControlGraph.ofTree tree).edges, (ControlGraph.ofTree tree).exit⟩

theorem lands_ofTree (well : arena.WellNumbered) (laid : arena.LaidOut)
    (inside : tree ∈ arena.tree.subtrees) (owns : tree.label.kind.isOwner) :
    (∀ vertex ∈ (ControlGraph.ofTree tree).vertices, (ofTree arena tree).bounds.placed vertex) ∧
      ∀ edge ∈ (ControlGraph.ofTree tree).edges, (ofTree arena tree).bounds.drawn edge := by
  obtain ⟨first, last, rest, parts, isFirst, isLast⟩ := laid.exists_ends inside owns
  have numbered := well.linked inside tree tree.self_mem_subtrees
  have free {child : Syntree} (below : child ∈ tree.children) (plain : isPlain child.label.kind) :
      (ofTree arena tree).Free child.label.id := free_of (by
    rwa [show (ofTree arena tree).arena = arena from rfl,
      well.kind_eq (child_inside below inside)])
  have opens := free (by simp [parts]) (show isPlain first.label.kind by rw [isFirst]; rfl)
  have closes := free (by simp [parts]) (show isPlain last.label.kind by rw [isLast]; rfl)
  have isExit : (ofTree arena tree).exit = last.label.id := by
    simp [ofTree, ControlGraph.ofTree, numbered, parts]
  have leaves : arena.exitOf tree.label.id = (ofTree arena tree).exit := by
    simp [Arena.exitOf, Arena.child?, well.children_eq inside, parts, isExit]
  have known {edge : ControlEdge} :=
    @ControlGraph.mem_edges_ofTree tree first last rest parts numbered edge
  rw [← isExit] at known
  have body := @lands_body (ofTree arena tree) well laid tree inside owns leaves
    [(first.label.id, .fallthrough)] (tied_singleton opens.2)
    ⟨⟨fun edge member => known.mpr (.inl member), by simp, by simp⟩, fun source isOpen =>
      (joins_connect.mpr ⟨isOpen, rfl⟩).imp fun _ member => known.mpr (.inr member)⟩
  constructor
  · intro vertex member
    rcases (ControlGraph.mem_vertices_ofTree parts numbered).mp member with rfl | rfl | inner
    · exact opens.1
    · exact closes.1
    · exact body.emitted.vertices vertex (isExit ▸ inner)
  · intro edge member
    rcases known.mp member with inner | leaves
    · exact body.emitted.edges edge inner
    · exact drawn_connect body.exits trivial edge leaves

end Landing

theorem breakAim?_append {inner : Scope} (free : ∀ construct ∈ inner, ¬construct.1.takesBreak label)
    (takes : frame.takesBreak label) (after : Nat) (outer : Scope) :
    breakAim? label (Scope.frames (inner ++ (frame, after) :: outer)) =
      some (.leave outer.length) := by
  induction inner with
  | nil => simp [Scope.frames_cons, breakAim?, takes]
  | cons construct inner ih =>
    obtain ⟨here, there⟩ := forall_mem_cons.mp free
    rw [cons_append, Scope.frames_cons, breakAim?, if_neg here, ih there]

theorem continueAim?_append {inner : Scope}
    (free : ∀ construct ∈ inner, construct.1.continueTo? label = none) {construct : Frame × Nat}
    (takes : construct.1.continueTo? label = some target) (outer : Scope) :
    continueAim? label (Scope.frames (inner ++ construct :: outer)) =
      some (.again outer.length target) := by
  induction inner with
  | nil => simp [Scope.frames_cons, continueAim?, takes]
  | cons construct inner ih =>
    obtain ⟨here, there⟩ := forall_mem_cons.mp free
    rw [cons_append, Scope.frames_cons, continueAim?, here]
    exact ih there

theorem Jumps.aims {exit : Nat} {scope passed : Scope}
    (jumps : Jumps exit kind scope passed target) : isJump kind ∧ ∃ rest, scope = passed ++ rest ∧
      Aims exit (aimOf? scope.frames kind) rest target := by
  cases jumps with
  | returns => exact ⟨rfl, [], (append_nil _).symm, .exit⟩
  | breaks free leaves =>
    have takes := takesBreak_iff.mpr leaves
    refine ⟨rfl, _, rfl, ?_⟩
    rw [aimOf?, breakAim?_append (fun inner member => takesBreak_iff.not.mpr (free inner member)) takes]
    exact .leave takes
  | continues free repeats =>
    refine ⟨rfl, _, rfl, ?_⟩
    rw [aimOf?, continueAim?_append (fun inner member => ?_) (continueTo?_eq_some.mpr repeats)]
    · exact .again
    · exact Option.eq_none_iff_forall_ne_some.mpr fun again taken =>
        free inner member again (continueTo?_eq_some.mp taken)

end Seepage.Structured

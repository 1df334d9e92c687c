import Seepage.Proofs.Flow.Forms
import Seepage.Proofs.Flow.Pieces
import Seepage.Proofs.Tree.Layout

set_option autoImplicit false

namespace Seepage

open List Exits
open Rose hiding node

variable {hasHandler hasFinalizer : Bool} {frames : List Frame} {tree : Syntree}
  {id start stop : Nat} {cases children : List Syntree} {preds : Exits}

def Kind.setsApart : Kind → Bool
  | .program | .function .. | .assign _ => true
  | _ => false

theorem Kind.isGuard_of_tryStmt {parts : List Kind}
    (layout : (Kind.tryStmt hasHandler hasFinalizer).fits parts) {part : Kind}
    (member : part ∈ parts) : part.isBlock ∨ part.isCatch := by
  simp only [Kind.fits, Bool.and_eq_true, all_eq_true] at layout
  obtain ⟨⟨⟨-, first⟩, second⟩, others⟩ := layout
  rw [← take_append_drop 1 parts, ← take_append_drop hasHandler.toNat (parts.drop 1),
    drop_drop, mem_append, mem_append] at member
  rcases member with guarded | handler | finalizer
  · exact .inl (first part guarded)
  · exact .inr (second part handler)
  · exact .inl (others part finalizer)

theorem Kind.setsApart_of_isGuard {kind : Kind} (isGuard : kind.isBlock ∨ kind.isCatch) :
    kind.setsApart = false := by
  cases kind <;> first | rfl | simp [Kind.isBlock, Kind.isCatch] at isGuard

def Node.Turns (node : Node) (id : Nat) : Prop :=
  match node.kind with
  | .whileStmt | .doWhile | .forIn | .forOf => id = node.id
  | .forStmt hasInit hasTest hasUpdate =>
    id = node.id ∨ hasUpdate ∧ node.children[hasInit.toNat + hasTest.toNat]? = some id
  | _ => False

structure Course where
  placed : Nat → Prop
  left : Nat → Nat → Prop
  aimed : Nat → Nat → Prop
  drawn : ControlEdge → Prop
  leads : ∀ (point : Nat) (edge : ControlEdge), left point edge.source → aimed point edge.target →
    drawn edge
  later : ∀ {point point' id : Nat}, point ≤ point' → left point id → left point' id := by
    exact fun _ known => known
  earlier : ∀ {point point' id : Nat}, point ≤ point' → aimed point' id → aimed point id := by
    exact fun _ known => known

def Course.at (course : Course) (point : Nat) : Bounds where
  placed := course.placed
  left := course.left point
  aimed := course.aimed point
  drawn := course.drawn
  leads := course.leads point
  turns id := ∀ point, course.aimed point id
  aimed_of_turns _ known := known point

section

variable {course : Course} {point point' floor count : Nat} (order : point ≤ point')

include order

theorem Exits.Tied.later {exits : Exits} (tied : exits.Tied (course.left point)) :
    exits.Tied (course.left point') := fun exit member =>
  course.later order (tied exit member)

theorem Emitted.Tied.later {emitted : Emitted} (tied : emitted.Tied (course.at point) floor count) :
    emitted.Tied (course.at point') floor count where
  vertices := tied.vertices
  edges := tied.edges
  breaks jump member := (tied.breaks jump member).imp_right (course.later order ∘ ·)
  resumes := tied.resumes

theorem Piece.Tied.later {piece : Piece} (tied : piece.Tied (course.at point) floor count) :
    piece.Tied (course.at point') floor count :=
  ⟨tied.emitted.later order, tied.exits.later order⟩

theorem Around.earlier {exit : Nat} (around : Around (course.at point') exit floor frames) :
    Around (course.at point) exit floor frames := by
  have each {frame : Frame} (tied : frame.kind.Tied (course.at point')) :
      frame.kind.Tied (course.at point) := by
    revert tied
    cases frame.kind with
    | guarded handler finalizer handling =>
      exact fun tied => ⟨fun open_ id known => course.earlier order (tied.1 open_ id known),
        fun id known => course.earlier order (tied.2 id known)⟩
    | _ => exact id
  induction around with
  | ground none last => exact .ground none (course.earlier order last)
  | wall here tied final plain => exact .wall here (each tied) final plain
  | inside tied _ ih => exact .inside (each tied) ih

end

def Row (first last : Syntree → Nat) (start : Nat) : List Syntree → Nat → Prop
  | [], stop => start ≤ stop
  | tree :: rest, stop =>
    start ≤ first tree ∧ first tree ≤ last tree ∧ Row first last (last tree) rest stop

namespace Row

variable {first last : Syntree → Nat} {start stop : Nat} {trees : List Syntree}

theorem still (trees : List Syntree) : Row (fun _ => 0) (fun _ => 0) 0 trees 0 := by
  induction trees with
  | nil => exact Nat.le_refl 0
  | cons tree rest ih => exact ⟨Nat.le_refl 0, Nat.le_refl 0, ih⟩

section

variable (row : Row first last start trees stop)

include row

theorem of_le {start' : Nat} (order : start' ≤ start) :
    Row first last start' trees stop := by
  cases trees with
  | nil => exact Nat.le_trans order row
  | cons => exact ⟨Nat.le_trans order row.1, row.2⟩

theorem le : start ≤ stop := by
  induction trees generalizing start with
  | nil => exact row
  | cons tree rest ih => exact Nat.le_trans row.1 (Nat.le_trans row.2.1 (ih row.2.2))

theorem drop (count : Nat) :
    Row first last start (trees.drop count) stop := by
  induction count generalizing trees with
  | zero => exact row
  | succ count ih =>
    cases trees with
    | nil => exact row
    | cons tree rest => exact ih (row.2.2.of_le (Nat.le_trans row.1 row.2.1))

theorem mem (member : tree ∈ trees) :
    start ≤ first tree ∧ last tree ≤ stop := by
  induction trees generalizing start with
  | nil => cases member
  | cons other rest ih =>
    rcases mem_cons.mp member with rfl | later
    · exact ⟨row.1, row.2.2.le⟩
    · exact ⟨Nat.le_trans row.1 (Nat.le_trans row.2.1 (ih row.2.2 later).1), (ih row.2.2 later).2⟩

end

theorem concat (row : Row first last start (trees ++ [tree]) stop) :
    Row first last start trees (first tree) ∧ first tree ≤ last tree ∧ last tree ≤ stop := by
  induction trees generalizing start with
  | nil => exact row
  | cons other rest ih => exact ⟨⟨row.1, row.2.1, (ih row.2.2).1⟩, (ih row.2.2).2⟩

end Row

structure Interior (exit : Nat) extends Course where
  within : Syntree → Prop
  apart : Syntree → Prop
  held : Nat → Prop
  first : Syntree → Nat := fun _ => 0
  last : Syntree → Nat := fun _ => 0
  step : Nat := 0
  ordered : ∀ {tree : Syntree}, within tree →
    Row first last (first tree + step) tree.children (last tree) := by
    exact fun _ => Row.still _
  tries : ∀ {tree : Syntree}, apart tree →
    ∃ hasHandler hasFinalizer, tree.label.kind = .tryStmt hasHandler hasFinalizer
  root : ∀ {tree : Syntree}, within tree → placed tree.label.id ∧ (held tree.label.id →
    left (first tree + step) tree.label.id ∧ aimed (first tree) tree.label.id)
  child : ∀ {node : Node} {children : List Syntree}, within (.node node children) →
    ¬apart (.node node children) → node.kind.setsApart = false → ∀ child ∈ children, within child
  parts : ∀ {node : Node} {children : List Syntree} {hasInit hasTest hasUpdate : Bool},
    within (.node node children) → node.kind = .forStmt hasInit hasTest hasUpdate →
    ∀ id ∈ node.children, placed id ∧ (held id →
      left (last (.node node children)) id ∧ aimed (first (.node node children)) id)
  guarded : ∀ {node : Node} {children : List Syntree} {hasHandler hasFinalizer : Bool},
    within (.node node children) → ¬apart (.node node children) →
    node.kind = .tryStmt hasHandler hasFinalizer →
    ∀ child ∈ children, ∀ part ∈ child.children, within part
  turning : ∀ {tree : Syntree}, within tree → ∀ {id : Nat}, tree.label.Turns id →
    aimed (first tree) id → ∀ point, aimed point id := by
    intros; assumption
  again : ∀ {node : Node} {stmt : Syntree} {rest : List Syntree},
    within (.node node (stmt :: rest)) → node.kind = .doWhile → held node.id →
    ∀ frames labels preds,
    (∀ vertex ∈ (flow exit frames labels stmt preds).emitted.vertices, held vertex) →
    aimed (first (.node node (stmt :: rest)) + step) ((entryVertex? stmt).getD node.id)
  raises : ∀ {node : Node} {block target : Syntree} {rest : List Syntree}
    {hasHandler hasFinalizer : Bool}, within (.node node (block :: target :: rest)) →
    ¬apart (.node node (block :: target :: rest)) →
    node.kind = .tryStmt hasHandler hasFinalizer → ∀ frames labels preds,
    ∀ vertex ∈ (flow exit frames labels block preds).emitted.vertices, held vertex →
    aimed (first target) target.label.id → drawn ⟨vertex, target.label.id, .exception⟩
  rethrows : ∀ {node : Node} {block handler finalizer : Syntree},
    within (.node node [block, handler, finalizer]) →
    ¬apart (.node node [block, handler, finalizer]) → node.kind = .tryStmt true true → ∀ frames,
    ∀ vertex ∈ (flowHandler exit frames handler).emitted.vertices, held vertex →
    aimed (first finalizer) finalizer.label.id → drawn ⟨vertex, finalizer.label.id, .exception⟩

section

variable {within : Syntree → Prop}

theorem exists_of_entryVertexAny? {trees : List Syntree}
    (each : ∀ tree ∈ trees, ∀ id, entryVertex? tree = some id →
      ∃ inner, within inner ∧ inner.label.id = id)
    (found : entryVertexAny? trees = some id) : ∃ inner, within inner ∧ inner.label.id = id := by
  induction trees with
  | nil => cases found
  | cons tree rest ih =>
    obtain ⟨here, there⟩ := forall_mem_cons.mp each
    rw [entryVertexAny?, Option.or_eq_some_iff] at found
    rcases found with found | ⟨-, found⟩
    · exact here id found
    · exact ih there found

theorem exists_of_entryVertex?
    (child : ∀ {node : Node} {children : List Syntree}, within (.node node children) →
      node.kind.setsApart = false → ∀ child ∈ children, within child) (inside : within tree)
    (found : entryVertex? tree = some id) : ∃ inner, within inner ∧ inner.label.id = id := by
  induction tree using byChildren generalizing id with
  | node node children ih =>
    have below := child inside
    unfold entryVertex? at found
    split at found
    case h_1 isBlock =>
      have inner := below (by rw [isBlock]; rfl)
      exact exists_of_entryVertexAny?
        (fun tree member _ found => ih tree member (inner tree member) found) found
    case h_2 isFor =>
      cases found
      exact ⟨_, below (by rw [isFor]; rfl) _ mem_cons_self, rfl⟩
    case h_3 isKind | h_4 isKind =>
      have first := below (by rw [isKind]; rfl) _ mem_cons_self
      rw [Option.or_eq_some_iff] at found
      rcases found with found | ⟨-, found⟩
      · exact ih _ mem_cons_self first found
      · cases found
        exact ⟨_, inside, rfl⟩
    case h_5 =>
      cases found
      exact ⟨_, inside, rfl⟩

end

theorem tries_nothing (special : False) :
    ∃ hasHandler hasFinalizer, tree.label.kind = .tryStmt hasHandler hasFinalizer :=
  special.elim

section

variable {exit : Nat} {interior : Interior exit} {floor : Nat} {frames : List Frame}

variable {node : Node} {children : List Syntree}

theorem Interior.below (interior : Interior exit) (inside : interior.within (.node node children))
    (open_ : node.kind.setsApart = false)
    (plain : ∀ hasHandler hasFinalizer, node.kind ≠ .tryStmt hasHandler hasFinalizer) :
    ∀ child ∈ children, interior.within child := by
  refine interior.child inside (fun special => ?_) open_
  obtain ⟨hasHandler, hasFinalizer, isTry⟩ := interior.tries special
  exact plain hasHandler hasFinalizer isTry

theorem tied_send {bounds : Bounds} (around : Around bounds exit floor frames)
    {source count : Nat} (here : bounds.left source) (kind : Kind) :
    (send exit frames source (aimOf? frames kind)).Tied bounds floor count := by
  cases aims : aimOf? frames kind with
  | none => exact tied_depart around here
  | some aim =>
    refine tied_jump around here ?_
    cases kind <;> try cases aims
    case breakStmt => exact around.tied_breakAim? aims
    case continueStmt => exact around.tied_continueAim? aims

def Flows (interior : Interior exit) (floor : Nat) (tree : Syntree) : Prop :=
  interior.within tree → ∀ frames labels preds,
    Around (interior.at (interior.last tree)) exit floor frames →
    Exits.Tied (interior.left (interior.first tree)) preds →
    (∀ vertex ∈ (flow exit frames labels tree preds).emitted.vertices, interior.held vertex) →
    (flow exit frames labels tree preds).Tied (interior.at (interior.last tree)) floor frames.length

section

variable {start stop : Nat} {trees : List Syntree}
  (each : ∀ tree ∈ trees, Flows interior floor tree)
  (inside : ∀ tree ∈ trees, interior.within tree)
  (row : Row interior.first interior.last start trees stop)
  (around : Around (interior.at stop) exit floor frames) {preds : Exits}
  (sources : preds.Tied (interior.left start))

include each inside row around sources

theorem tied_flowAll
    (known : ∀ vertex ∈ (flowAll exit frames trees preds).emitted.vertices, interior.held vertex) :
    (flowAll exit frames trees preds).Tied (interior.at stop) floor frames.length := by
  induction trees generalizing start preds with
  | nil => exact ⟨Emitted.tied_nothing, sources.later row⟩
  | cons tree rest ih =>
    obtain ⟨here, there⟩ := forall_mem_cons.mp each
    obtain ⟨first, others⟩ := forall_mem_cons.mp inside
    obtain ⟨begins, -, behind⟩ := row
    simp only [flowAll, Emitted.vertices_append, forall_mem_append] at known ⊢
    have one := here first frames [] preds (around.earlier behind.le) (sources.later begins) known.1
    have more := ih there others behind one.exits known.2
    exact ⟨Emitted.tied_append.mpr ⟨one.emitted.later behind.le, more.emitted⟩, more.exits⟩

theorem tied_flowLast
    (known : ∀ vertex ∈ (flowLast exit frames trees preds).emitted.vertices, interior.held vertex) :
    (flowLast exit frames trees preds).Tied (interior.at stop) floor frames.length := by
  induction trees generalizing start with
  | nil => exact ⟨Emitted.tied_nothing, sources.later row⟩
  | cons tree rest ih =>
    obtain ⟨here, there⟩ := forall_mem_cons.mp each
    obtain ⟨first, others⟩ := forall_mem_cons.mp inside
    obtain ⟨begins, grows, behind⟩ := row
    cases rest with
    | nil =>
      exact (here first frames [] preds (around.earlier behind) (sources.later begins) known).later
        behind
    | cons next rest =>
      exact ih there others behind (sources.later (Nat.le_trans begins grows)) known

end

theorem tied_flowHandler {handler : Syntree}
    (each : ∀ part ∈ handler.children, Flows interior floor part)
    (inside : ∀ part ∈ handler.children, interior.within part)
    (row : Row interior.first interior.last start handler.children stop)
    (around : Around (interior.at stop) exit floor frames)
    (here : interior.left start handler.label.id)
    (known : ∀ vertex ∈ (flowHandler exit frames handler).emitted.vertices, interior.held vertex) :
    (flowHandler exit frames handler).Tied (interior.at stop) floor frames.length := by
  obtain ⟨node, parts⟩ := handler
  exact tied_flowLast each inside row around (tied_singleton here) known

variable {preds : Exits}

theorem tied_own (inside : interior.within tree) (known : interior.held tree.label.id)
    (sources : preds.Tied (interior.left (interior.first tree))) (point floor count : Nat) :
    Emitted.Tied (interior.at point) floor count
      { vertices := [tree.label.id], edges := connect preds tree.label.id } := by
  have edges := @drawn_connect (interior.at (interior.first tree)) _ _ sources
    ((interior.root inside).2 known).2
  exact ⟨forall_mem_singleton.mpr (interior.root inside).1, edges, by simp, by simp⟩

theorem Interior.left_own (interior : Interior exit) (inside : interior.within tree)
    (known : interior.held tree.label.id) : interior.left (interior.last tree) tree.label.id :=
  interior.later (interior.ordered inside).le ((interior.root inside).2 known).1

theorem tied_leaving (inside : interior.within (.node node children))
    (sources : preds.Tied (interior.left (interior.first (.node node children)))) {away : Emitted}
    (tied : interior.left (interior.last (.node node children)) node.id →
      away.Tied (interior.at (interior.last (.node node children))) floor frames.length)
    (known : ∀ vertex ∈ ({ vertices := [node.id], edges := connect preds node.id } ++ away :
      Emitted).vertices, interior.held vertex) :
    Piece.Tied (interior.at (interior.last (.node node children))) floor frames.length
      ⟨{ vertices := [node.id], edges := connect preds node.id } ++ away, []⟩ := by
  have here : interior.held node.id := known _ (by simp)
  exact ⟨Emitted.tied_append.mpr ⟨tied_own inside here sources _ floor _,
    tied (interior.left_own inside here)⟩, forall_mem_nil _⟩

theorem tied_flowCases {head : Nat} (top : interior.left start head)
    (each : ∀ tree ∈ cases, ∀ part ∈ tree.children, Flows interior floor part)
    (inside : ∀ tree ∈ cases, interior.within tree)
    (row : Row interior.first interior.last start cases stop)
    (around : Around (interior.at stop) exit floor frames)
    (sources : preds.Tied (interior.left start))
    (known : ∀ vertex ∈ (flowCases exit frames head cases preds).emitted.vertices,
      interior.held vertex) :
    (flowCases exit frames head cases preds).Tied (interior.at stop) floor frames.length := by
  induction cases generalizing start preds with
  | nil => exact ⟨Emitted.tied_nothing, sources.later row⟩
  | cons tree rest ih =>
    obtain ⟨here, there⟩ := forall_mem_cons.mp each
    obtain ⟨first, others⟩ := forall_mem_cons.mp inside
    obtain ⟨begins, grows, behind⟩ := row
    have order := Nat.le_trans begins grows
    rcases flowCases_cons tree rest exit frames head preds with ⟨isDefault, isCase, whole⟩ | ⟨-, whole⟩
    · simp only [whole, Emitted.vertices_append, forall_mem_append] at known ⊢
      obtain ⟨⟨self, inner⟩, later⟩ := known
      obtain ⟨placed, own⟩ := interior.root first
      obtain ⟨own, target⟩ := own (self _ mem_cons_self)
      have below : ∀ part ∈ tree.children, interior.within part := by
        obtain ⟨node, parts⟩ := tree
        have isCase : node.kind = .switchCase isDefault := isCase
        exact interior.below first (by rw [isCase]; rfl) (by simp [isCase])
      have body := tied_flowAll (fun stmt member => here stmt (mem_of_mem_drop member))
        (fun stmt member => below stmt (mem_of_mem_drop member))
        ((interior.ordered first).drop _) (around.earlier behind.le) (tied_singleton own) inner
      have more := ih (interior.later order top) there others behind body.exits later
      have edges := @drawn_connectAs (interior.at (interior.first tree)) _ _ .fallthrough
        (sources.later begins) target
      refine ⟨Emitted.tied_append.mpr ⟨Emitted.tied_append.mpr ⟨?_, body.emitted.later behind.le⟩,
        more.emitted⟩, more.exits⟩
      exact ⟨forall_mem_singleton.mpr placed, forall_mem_cons.mpr
        ⟨interior.leads _ _ (interior.later begins top) target, edges⟩, by simp, by simp⟩
    · rw [whole] at known ⊢
      exact ih (interior.later order top) there others behind (sources.later order) known

section

variable {node : Node}

variable {stmts : List Syntree}

theorem flows_block (isBlock : node.kind = .block)
    (each : ∀ stmt ∈ stmts, Flows interior floor stmt) :
    Flows interior floor (.node node stmts) := by
  intro inside frames labels preds around sources known
  have inner := interior.below inside (by rw [isBlock]; rfl) (by simp [isBlock])
  simp only [flow, isBlock] at known ⊢
  exact tied_flowAll each inner (interior.ordered inside) around
    (sources.later (Nat.le_add_right ..)) known

theorem flows_choose {hasElse : Bool} (isIf : node.kind = .ifStmt hasElse)
    {test consequent : Syntree} {alternate : Option Syntree}
    (first : Flows interior floor consequent)
    (second : ∀ stmt ∈ alternate.toList, Flows interior floor stmt) :
    Flows interior floor (.node node (test :: consequent :: alternate.toList)) := by
  intro inside frames labels preds around sources known
  have parts := interior.below inside (by rw [isIf]; rfl) (by simp [isIf])
  obtain ⟨begins, grows, begins', grows', behind⟩ := interior.ordered inside
  have order := Nat.le_trans begins (Nat.le_trans grows begins')
  simp only [flow_choose isIf, Emitted.vertices_append, forall_mem_append] at known ⊢
  obtain ⟨⟨self, inner⟩, inner'⟩ := known
  have own : interior.held node.id := self _ mem_cons_self
  have here := interior.later order ((interior.root inside).2 own).1
  have yes := first (parts consequent (by simp)) frames [] _ (around.earlier behind.le)
    (tied_singleton here) inner
  have no := tied_flowLast second (fun stmt below => parts stmt (by simp [below])) behind around
    (tied_singleton (interior.later grows' here)) inner'
  refine ⟨?_, tied_append.mpr ⟨yes.exits.later behind.le, no.exits⟩⟩
  simp only [Emitted.tied_append]
  exact ⟨⟨tied_own inside own sources _ floor _, yes.emitted.later behind.le⟩, no.emitted⟩

variable {parts : List Syntree}

theorem flows_while (isLoop : node.kind = .whileStmt ∨ node.kind = .forIn ∨ node.kind = .forOf)
    (each : ∀ part ∈ parts, Flows interior floor part) :
    Flows interior floor (.node node parts) := by
  intro inside frames labels preds around sources known
  have inner : ∀ part ∈ parts, interior.within part := by
    rcases isLoop with isLoop | isLoop | isLoop <;>
      exact interior.below inside (by rw [isLoop]; rfl) (by simp [isLoop])
  rw [flow_loop isLoop] at known ⊢
  simp only [closeLoop, Emitted.vertices_append, forall_mem_append] at known
  obtain ⟨⟨self, turns⟩, -⟩ := known
  have own : interior.held node.id := self _ mem_cons_self
  obtain ⟨here, aimed⟩ := (interior.root inside).2 own
  have again := interior.turning inside
    (by rcases isLoop with isLoop | isLoop | isLoop <;> simp [Node.Turns, label, isLoop]) aimed
  have tied := tied_flowLast each inner (interior.ordered inside) (around.loop again labels)
    (tied_singleton here) turns
  exact tied_closeLoop (tied_own inside own sources _ floor _) tied
    (drawn_connectAs .loopBack tied.exits (again _))
    (tied_singleton (interior.left_own inside own))

variable {rest : List Syntree}

theorem flows_doWhile (isLoop : node.kind = .doWhile) {stmt : Syntree}
    (turn : Flows interior floor stmt) : Flows interior floor (.node node (stmt :: rest)) := by
  intro inside frames labels preds around sources known
  have first := interior.below inside (by rw [isLoop]; rfl) (by simp [isLoop]) stmt mem_cons_self
  obtain ⟨begins, -, behind⟩ := interior.ordered inside
  simp only [flow, isLoop, Emitted.vertices_append, forall_mem_append] at known ⊢
  obtain ⟨inner, self⟩ := known
  have own : interior.held node.id := self _ mem_cons_self
  obtain ⟨here, aimed⟩ := (interior.root inside).2 own
  have again := interior.turning inside (by simp [Node.Turns, label, isLoop]) aimed
  have placed : interior.placed node.id := (interior.root inside).1
  have body := (turn first (⟨.loop node.id, labels⟩ :: frames) [] preds
    ((around.loop again labels).earlier behind.le)
    (sources.later (Nat.le_trans (Nat.le_add_right ..) begins)) inner).later behind.le
  -- The loop goes back to where its body starts, which may be deep inside.
  have back := interior.leads _ ⟨node.id, (entryVertex? stmt).getD node.id, .loopBack⟩ here
    (interior.again inside isLoop own _ _ _ inner)
  refine ⟨Emitted.tied_append.mpr ⟨body.emitted.close (Nat.le_succ _),
      forall_mem_singleton.mpr placed, forall_mem_append.mpr ⟨?_, ?_⟩, by simp, by simp⟩,
    tied_append.mpr ⟨body.emitted.breaksAt (Nat.lt_succ_self _),
      tied_singleton (interior.left_own inside own)⟩⟩
  · exact drawn_connect body.exits (again _)
  · exact forall_mem_singleton.mpr back

theorem flows_for {hasInit hasTest hasUpdate : Bool}
    (isFor : node.kind = .forStmt hasInit hasTest hasUpdate)
    (each : ∀ part ∈ parts, Flows interior floor part) :
    Flows interior floor (.node node parts) := by
  intro inside frames labels preds around sources known
  have inner := interior.below inside (by rw [isFor]; rfl) (by simp [isFor])
  have numbers := interior.parts inside isFor
  rw [flow_def] at known ⊢
  simp only [isFor] at known ⊢
  -- Start and step are looked up among the numbers of the children, since either may be missing.
  generalize isUpdate : (if hasUpdate = true then
    node.children[hasInit.toNat + hasTest.toNat]? else none) = update at known ⊢
  simp only [closeLoop, Emitted.vertices_append, forall_mem_append] at known
  obtain ⟨⟨⟨⟨start, self⟩, next⟩, turns⟩, -⟩ := known
  have own : interior.held node.id := self _ mem_cons_self
  obtain ⟨here, aimed⟩ := (interior.root inside).2 own
  have again := interior.turning inside (by simp [Node.Turns, label, isFor]) aimed
  have last := interior.left_own inside own
  have updated : ∀ id ∈ update, interior.placed id ∧
      interior.left (interior.last (.node node parts)) id ∧ ∀ point, interior.aimed point id := by
    rintro id rfl
    rw [Option.ite_none_right_eq_some] at isUpdate
    obtain ⟨placed, known⟩ := numbers id (mem_of_getElem? isUpdate.2)
    obtain ⟨left, aimed⟩ := known (next id mem_cons_self)
    exact ⟨placed, left, interior.turning inside
      (by simp [Node.Turns, label, isFor, isUpdate]) aimed⟩
  have turning : ∀ point, interior.aimed point (update.getD node.id) := by
    cases update with
    | none => exact again
    | some id => exact (updated id rfl).2.2
  have body := tied_flowLast each inner (interior.ordered inside) (around.loop turning labels)
    (tied_singleton here) turns
  refine tied_closeLoop (Emitted.tied_append.mpr ⟨?_, ?_⟩) body ?_ ?_
  · revert start
    split
    case h_1 first _ isFirst =>
      intro start
      obtain ⟨placed, known⟩ := numbers first (by simp [isFirst])
      obtain ⟨left, target⟩ := known (start _ mem_cons_self)
      have entered := @drawn_connect (interior.at _) _ _ sources target
      have joined : ∀ edge ∈ connect [(first, .fallthrough)] node.id, interior.drawn edge :=
        @drawn_connect (interior.at _) _ _ (tied_singleton left) (again _)
      exact Emitted.tied_append.mpr
        ⟨⟨forall_mem_singleton.mpr placed, entered, forall_mem_nil _, forall_mem_nil _⟩,
        forall_mem_singleton.mpr (interior.root inside).1, joined, by simp, by simp⟩
    case h_2 =>
      exact fun _ => Emitted.tied_append.mpr
        ⟨Emitted.tied_nothing, tied_own inside own sources _ floor _⟩
  · cases update with
    | none => exact Emitted.tied_nothing
    | some id =>
      obtain ⟨placed, left, -⟩ := updated id rfl
      exact ⟨forall_mem_singleton.mpr placed, forall_mem_singleton.mpr
        (interior.leads _ _ left (again _)), by simp, by simp⟩
  · cases update with
    | none => exact drawn_connectAs .loopBack body.exits (again _)
    | some id => exact drawn_connect body.exits (turning _)
  · split
    · exact tied_singleton last
    · exact forall_mem_nil _

theorem flows_labelled {label : String} (isLabel : node.kind = .labeled label) {body : Syntree}
    (each : Flows interior floor body) : Flows interior floor (.node node (body :: rest)) := by
  intro inside frames labels preds around sources known
  have first := interior.below inside (by rw [isLabel]; rfl) (by simp [isLabel]) body
    mem_cons_self
  obtain ⟨begins, -, behind⟩ := interior.ordered inside
  have sources := sources.later (Nat.le_trans (Nat.le_add_right ..) begins)
  rw [flow_def] at known ⊢
  simp only [isLabel] at known ⊢
  by_cases takes : body.label.kind.takesLabel
  · rw [if_pos takes] at known ⊢
    exact (each first frames (labels ++ [label]) preds (around.earlier behind.le) sources
      known).later behind.le
  · rw [if_neg takes] at known ⊢
    have inner := (each first (⟨.labelled, labels ++ [label]⟩ :: frames) [] preds
      (.inside trivial (around.earlier behind.le)) sources known).later behind.le
    exact ⟨inner.emitted.close (Nat.le_succ _),
      tied_append.mpr ⟨inner.exits, inner.emitted.breaksAt (Nat.lt_succ_self _)⟩⟩

theorem flows_jump (jumps : isJump node.kind) (children : List Syntree) :
    Flows interior floor (.node node children) := by
  intro inside frames labels preds around sources known
  rw [flow_jump jumps] at known ⊢
  exact tied_leaving inside sources (fun here => tied_send around here _) known

theorem flows_throw (isThrow : node.kind = .throwStmt) (children : List Syntree) :
    Flows interior floor (.node node children) := by
  intro inside frames labels preds around sources known
  simp only [flow, isThrow] at known ⊢
  exact tied_leaving inside sources (tied_raise around) known

theorem flows_switch (isSwitch : node.kind = .switchStmt) {subject : Syntree}
    (each : ∀ case ∈ cases, ∀ part ∈ case.children, Flows interior floor part) :
    Flows interior floor (.node node (subject :: cases)) := by
  intro inside frames labels preds around sources known
  have parts := interior.below inside (by rw [isSwitch]; rfl) (by simp [isSwitch])
  have inner := (forall_mem_cons.mp parts).2
  obtain ⟨begins, grows, behind⟩ := interior.ordered inside
  simp only [flow, isSwitch, Emitted.vertices_append, forall_mem_append] at known ⊢
  have own : interior.held node.id := known.1 _ mem_cons_self
  have here := interior.later (Nat.le_trans begins grows) ((interior.root inside).2 own).1
  have body := tied_flowCases here each inner behind (around.choice labels) (forall_mem_nil _)
    known.2
  refine ⟨Emitted.tied_append.mpr ⟨tied_own inside own sources _ floor _,
    body.emitted.close (Nat.le_succ _)⟩, ?_⟩
  simp only [tied_append]
  refine ⟨⟨body.emitted.breaksAt (Nat.lt_succ_self _), body.exits⟩, ?_⟩
  split
  · exact forall_mem_nil _
  · exact tied_singleton (interior.left_own inside own)

theorem flows_with (isWith : node.kind = .withStmt)
    (each : ∀ part ∈ parts, Flows interior floor part) :
    Flows interior floor (.node node parts) := by
  intro inside frames labels preds around sources known
  have inner := interior.below inside (by rw [isWith]; rfl) (by simp [isWith])
  simp only [flow, isWith, Emitted.vertices_append, forall_mem_append] at known ⊢
  have own : interior.held node.id := known.1 _ mem_cons_self
  have here := ((interior.root inside).2 own).1
  have body := tied_flowLast each inner (interior.ordered inside) around (tied_singleton here)
    known.2
  exact ⟨Emitted.tied_append.mpr ⟨tied_own inside own sources _ floor _, body.emitted⟩, body.exits⟩

variable {block : Syntree}

theorem drawn_raising {target : Syntree} (isTry : node.kind = .tryStmt hasHandler hasFinalizer)
    (plain : ¬interior.apart (.node node (block :: target :: rest)))
    (inside : interior.within (.node node (block :: target :: rest)))
    (here : interior.left (interior.first target) node.id)
    (aimed : interior.aimed (interior.first target) target.label.id) {labels : List String}
    (known : ∀ vertex ∈ (flow exit frames labels block preds).emitted.vertices,
      interior.held vertex) :
    ∀ edge ∈ raising (node.id :: (flow exit frames labels block preds).emitted.vertices)
      target.label.id, interior.drawn edge := by
  intro edge member
  obtain ⟨vertex, listed, rfl⟩ := mem_map.mp member
  rcases mem_cons.mp listed with rfl | inner
  · exact interior.leads _ _ here aimed
  · exact interior.raises inside plain isTry _ _ _ vertex inner (known vertex inner) aimed

section

variable {handler : Option Syntree} {finalizer : Node}
  (first : Flows interior floor block)
  (second : ∀ top ∈ handler, ∀ part ∈ top.children, Flows interior floor part)

include first second

theorem tied_guardedFlow (isTry : node.kind = .tryStmt handler.isSome hasFinalizer)
    (isParts : children = block :: (handler.toList ++ rest))
    (plain : ¬interior.apart (.node node children)) (inside : interior.within (.node node children))
    (row : Row interior.first interior.last start (block :: handler.toList) stop)
    (around : Around (interior.at stop) exit floor frames) (here : interior.left start node.id)
    {target : Option Nat} (ends : ∀ id ∈ target, interior.aimed stop id)
    (known : ∀ vertex ∈ (guardedFlow exit frames node.id block handler target).emitted.vertices,
      interior.held vertex) :
    (guardedFlow exit frames node.id block handler target).Tied (interior.at stop) floor
      (frames.length + 1) := by
  subst isParts
  have parts := interior.child inside plain (by rw [isTry]; rfl)
  obtain ⟨begins, grows, behind⟩ := row
  have here := interior.later begins here
  cases handler with
  | none =>
    exact (first (parts block mem_cons_self) _ [] _
      ((around.guarded none target false (by simp) ends).earlier behind) (tied_singleton here)
      known).later behind
  | some handler =>
    obtain ⟨begins', grows', ending⟩ := behind
    simp only [guardedFlow, Emitted.vertices_append, forall_mem_append] at known ⊢
    obtain ⟨⟨⟨guarded, -⟩, caught⟩, handled⟩ := known
    have within := parts handler (by simp)
    obtain ⟨placed, opens⟩ := interior.root within
    obtain ⟨there, aimed⟩ := opens (caught _ mem_cons_self)
    have order := Nat.le_trans begins' (Nat.le_trans grows' ending)
    have body := first (parts block (by simp)) _ [] _
      ((around.earlier order).guarded (some handler.label.id) target false
        (fun _ id same => Option.mem_some.mp same ▸ interior.earlier begins' aimed)
        fun id known => interior.earlier order (ends id known))
      (tied_singleton here) guarded
    have catching := tied_flowHandler (second handler rfl)
      (interior.guarded inside plain isTry handler (by simp)) (interior.ordered within)
      ((around.guarded (some handler.label.id) target true (by simp) ends).earlier ending) there handled
    have raised := drawn_raising isTry plain inside
      (interior.later (Nat.le_trans grows begins') here) aimed guarded
    refine ⟨?_, tied_append.mpr ⟨body.exits.later order, catching.exits.later ending⟩⟩
    simp only [Emitted.tied_append]
    exact ⟨⟨⟨body.emitted.later order, Emitted.tied_ofEdges raised⟩, Emitted.tied_vertex placed⟩,
      catching.emitted.later ending⟩

theorem flows_guarded (isTry : node.kind = .tryStmt handler.isSome false)
    (plain : ¬interior.apart (.node node (block :: handler.toList))) :
    Flows interior floor (.node node (block :: handler.toList)) := by
  intro inside frames labels preds around sources known
  simp only [flow_guarded _ _ _ _ _ _ isTry, Emitted.vertices_append, forall_mem_append]
    at known ⊢
  have own : interior.held node.id := known.1 _ mem_cons_self
  have here := ((interior.root inside).2 own).1
  have body := tied_guardedFlow first second isTry (by rw [append_nil]) plain inside
    (interior.ordered inside) around here (by simp) known.2
  exact ⟨Emitted.tied_append.mpr ⟨tied_own inside own sources _ floor _,
    body.emitted.close (Nat.le_succ _)⟩, body.exits⟩

theorem flows_finalized (isTry : node.kind = .tryStmt handler.isSome true)
    (plain : ¬interior.apart (.node node (block :: (handler.toList ++ [.node finalizer stmts]))))
    (final : ∀ stmt ∈ stmts, Flows interior floor stmt) :
    Flows interior floor (.node node (block :: (handler.toList ++ [.node finalizer stmts]))) := by
  intro inside frames labels preds around sources known
  have below : .node finalizer stmts ∈ block :: (handler.toList ++ [.node finalizer stmts]) := by
    simp
  have ordered := interior.ordered inside
  rw [← cons_append] at ordered
  obtain ⟨row, grows, ending⟩ := ordered.concat
  have order := Nat.le_trans grows ending
  simp only [flow_finalized _ _ _ _ _ _ _ _ isTry, Emitted.vertices_append, forall_mem_append]
    at known ⊢
  obtain ⟨⟨⟨⟨⟨⟨⟨self, ending'⟩, guarded⟩, -⟩, -⟩, behind⟩, -⟩, -⟩ := known
  have own : interior.held node.id := self _ mem_cons_self
  have here := ((interior.root inside).2 own).1
  have within := interior.child inside plain (by rw [isTry]; rfl) _ below
  obtain ⟨placed, opens⟩ := interior.root within
  obtain ⟨there, target⟩ := opens (ending' _ mem_cons_self)
  have body := tied_guardedFlow first second isTry rfl plain inside row (around.earlier order) here
    (fun id same => Option.mem_some.mp same ▸ target) guarded
  have after := (tied_flowAll final (interior.guarded inside plain isTry _ below)
    (interior.ordered within) (around.earlier ending) (tied_singleton there) behind).later ending
  -- What the block raises goes to the handler, what the handler raises to the finalizer.
  have raised : ∀ edge ∈ raising (uncaught exit frames node.id block handler finalizer.id)
      finalizer.id, interior.drawn edge := by
    cases handler with
    | none =>
      exact drawn_raising isTry plain inside (interior.later row.le here) target guarded
    | some handler =>
      intro edge member
      obtain ⟨vertex, listed, rfl⟩ := mem_map.mp member
      exact interior.rethrows inside plain isTry _ vertex listed
        (guarded vertex (mem_append_right _ listed)) target
  have joined := @drawn_connect (interior.at _) _ _ body.exits target
  obtain ⟨leaves, resumes⟩ := tied_resume around (body.emitted.later order) after.exits
  refine ⟨?_, after.exits⟩
  simp only [Emitted.tied_append]
  exact ⟨⟨⟨⟨⟨⟨⟨tied_own inside own sources _ floor _, Emitted.tied_vertex placed⟩,
    (body.emitted.later order).close (Nat.le_succ _)⟩, Emitted.tied_ofEdges raised⟩,
    Emitted.tied_ofEdges joined⟩, after.emitted⟩, leaves⟩, resumes⟩

end

theorem flows_simple (plain : steers node.kind children = false) :
    Flows interior floor (.node node children) := by
  intro inside frames labels preds around sources known
  rw [flow_simple plain] at known ⊢
  have own : interior.held node.id := known _ mem_cons_self
  exact ⟨tied_own inside own sources _ floor _, tied_singleton (interior.left_own inside own)⟩

end

theorem flows_node (plain : ¬interior.apart (.node node children))
    (each : ∀ child ∈ children, ∀ tree ∈ child.subtrees, Flows interior floor tree) :
    Flows interior floor (.node node children) := by
  have parts : ∀ child ∈ children, Flows interior floor child := fun child member =>
    each child member child child.self_mem_subtrees
  have deeper : ∀ child ∈ children, ∀ part ∈ child.children, Flows interior floor part :=
    fun child member part inner => each child member part (child_mem_subtrees inner)
  cases form node children with
  | block isBlock => exact flows_block isBlock parts
  | choose isIf =>
    exact flows_choose isIf (parts _ (by simp)) fun stmt below => parts stmt (by simp_all)
  | loop isLoop => exact flows_while isLoop parts
  | doWhile isLoop => exact flows_doWhile isLoop (parts _ mem_cons_self)
  | forLoop isFor => exact flows_for isFor parts
  | labelled isLabel => exact flows_labelled isLabel (parts _ mem_cons_self)
  | breaks isKind | continues isKind | returns isKind =>
    exact flows_jump (by rw [isKind]; rfl) children
  | throws isThrow => exact flows_throw isThrow children
  | switch isSwitch => exact flows_switch isSwitch (forall_mem_cons.mp deeper).2
  | with_ isWith => exact flows_with isWith parts
  | guarded isTry =>
    exact flows_guarded (parts _ (by simp)) (fun _ isHandler => deeper _ (by simp_all)) isTry plain
  | @finalized _ _ finalizer stmts isTry =>
    exact flows_finalized (parts _ (by simp)) (fun _ isHandler => deeper _ (by simp_all)) isTry plain
      (deeper (.node finalizer stmts) (by simp))
  | simple plain => exact flows_simple plain

theorem flows (special : ∀ tree, interior.apart tree →
      (∀ child ∈ tree.children, ∀ part ∈ child.subtrees, Flows interior floor part) →
      Flows interior floor tree) (tree : Syntree) : Flows interior floor tree := by
  induction tree using bySubtrees with
  | node node children ih =>
    by_cases plain : interior.apart (.node node children)
    · exact special _ plain ih
    · exact flows_node plain ih

end

namespace ControlGraph

section

variable {tree first last : Syntree} {rest : List Syntree}
  (parts : tree.children = first :: last :: rest)
  (numbered : tree.label.children = tree.children.map (·.label.id))

include parts numbered

theorem mem_vertices_ofTree {vertex : Nat} : vertex ∈ (ofTree tree).vertices ↔
    vertex = first.label.id ∨ vertex = last.label.id ∨
      vertex ∈ (body last.label.id tree [(first.label.id, .fallthrough)]).emitted.vertices := by
  simp [ofTree, numbered, parts, mem_eraseDups]

theorem mem_edges_ofTree {edge : ControlEdge} : edge ∈ (ofTree tree).edges ↔
    edge ∈ (body last.label.id tree [(first.label.id, .fallthrough)]).emitted.edges ∨
      edge ∈ connect (body last.label.id tree [(first.label.id, .fallthrough)]).exits
        last.label.id := by
  simp [ofTree, numbered, parts, mem_eraseDups]

end

section

variable {exit : Nat} {interior : Interior exit} (every : ∀ tree, Flows interior 0 tree)
  {tree : Syntree}

include every

theorem tied_body (inside : ∀ child ∈ tree.children.drop 2, interior.within child)
    (row : Row interior.first interior.last start (tree.children.drop 2) stop)
    (last : interior.aimed stop exit) (sources : preds.Tied (interior.left start))
    (known : ∀ vertex ∈ (body exit tree preds).emitted.vertices, interior.held vertex) :
    (body exit tree preds).Tied (interior.at stop) 0 0 := by
  have around : Around (interior.at stop) exit 0 [] := .ground rfl last
  unfold body at known ⊢
  split at known
  case h_1 paramCount _ _ =>
    rcases found : tree.children[2 + paramCount]? with _ | body
    · exact ⟨Emitted.tied_nothing, sources.later row.le⟩
    · simp only [found] at known ⊢
      have member : body ∈ tree.children.drop 2 :=
        mem_of_getElem? (by rwa [getElem?_drop])
      have within := inside body member
      obtain ⟨begins, ending⟩ := row.mem member
      by_cases isBlock : body.label.kind = .block
      · rw [if_pos isBlock] at known ⊢
        obtain ⟨node, stmts⟩ := body
        have isBlock : node.kind = .block := isBlock
        have below := interior.below within (by rw [isBlock]; rfl) (by simp [isBlock])
        exact (tied_flowAll (fun stmt _ => every stmt) below (interior.ordered within)
          (around.earlier ending) (sources.later (Nat.le_trans begins (Nat.le_add_right ..)))
          known).later ending
      · rw [if_neg isBlock] at known ⊢
        have own := known _ mem_cons_self
        exact ⟨tied_own within own (sources.later begins) _ 0 _,
          tied_singleton (interior.later ending (interior.left_own within own))⟩
  case h_2 =>
    exact tied_flowAll (fun stmt _ => every stmt) inside row around sources known

theorem tied_ends (inside : ∀ child ∈ tree.children, interior.within child) {first last : Syntree}
    {rest : List Syntree} (parts : tree.children = first :: last :: rest)
    (isExit : last.label.id = exit)
    (numbered : tree.label.children = tree.children.map (·.label.id))
    (row : Row interior.first interior.last start tree.children stop)
    (leaves : interior.aimed (interior.first last) exit → interior.aimed stop exit)
    (known : ∀ vertex ∈ (ofTree tree).vertices, interior.held vertex) :
    (∀ vertex ∈ (ofTree tree).vertices, interior.placed vertex) ∧
      ∀ edge ∈ (ofTree tree).edges, interior.drawn edge := by
  subst isExit
  have opening := inside first (by simp [parts])
  have placed := (interior.root opening).1
  obtain ⟨placed', closes⟩ := interior.root (inside last (by simp [parts]))
  simp only [mem_vertices_ofTree parts numbered, forall_eq_or_imp] at known ⊢
  have target := leaves (closes known.2.1).2
  rw [parts] at row
  obtain ⟨-, -, begins, grows, behind⟩ := row
  have tied := tied_body every (fun child below => inside child (mem_of_mem_drop below))
    (by rwa [parts]) target
    (tied_singleton (interior.later (Nat.le_trans begins grows)
      (interior.left_own opening known.1))) known.2.2
  refine ⟨⟨placed, placed', tied.emitted.vertices⟩, ?_⟩
  intro edge member
  rcases (mem_edges_ofTree parts numbered).mp member with inner | leaves
  · exact tied.emitted.edges edge inner
  · exact @drawn_connect (interior.at stop) _ _ tied.exits target edge leaves

end

end ControlGraph

structure Arena.Owned (arena : Arena) (owner id : Nat) : Prop where
  known : id < arena.size
  owned : arena.owner id = owner
  apart : ∀ above op, arena.parent? id = some above → arena.kind above ≠ .assign op

structure Held (arena : Arena) (owner : Nat) (tree : Syntree) : Prop where
  inside : tree ∈ arena.tree.subtrees
  root : arena.Owned owner tree.label.id

section

variable {arena : Arena} {owner : Nat}

variable {tree : Syntree}

theorem Arena.WellNumbered.linked (well : arena.WellNumbered)
    (inside : tree ∈ arena.tree.subtrees) : tree.Linked := by
  intro part deeper
  have within := subtrees_trans deeper inside
  rw [← well.children_eq within, Arena.children, well.node_eq within]

section

variable (well : arena.WellNumbered) {node : Node} {children : List Syntree}
  (held : Held arena owner (.node node children)) (open_ : node.kind.setsApart = false)

include well held open_

theorem Held.child : ∀ child ∈ children, Held arena owner child := by
  intro child below
  have inside := child_inside below held.inside
  have plain : node.kind.isOwner = false := by
    revert open_
    cases node.kind <;> simp [Kind.setsApart, Kind.isOwner]
  refine ⟨inside, well.id_lt inside, ?_, ?_⟩
  · rw [well.owner_child held.inside below]
    simp only [label, plain]
    exact held.root.owned
  · intro above op parent isAssign
    rw [well.parent_child held.inside below] at parent
    cases parent
    rw [well.kind_eq held.inside] at isAssign
    simp only [label] at isAssign
    simp [isAssign, Kind.setsApart] at open_

theorem Held.parts : ∀ id ∈ node.children, arena.Owned owner id := by
  intro id member
  have same : node.children = children.map (·.label.id) :=
    well.linked held.inside _ (self_mem_subtrees _)
  rw [same] at member
  obtain ⟨child, below, rfl⟩ := mem_map.mp member
  exact (held.child well open_ child below).root

end

theorem Held.guarded (well : arena.WellNumbered) (laid : arena.LaidOut) {node : Node}
    {children : List Syntree} {hasHandler hasFinalizer : Bool}
    (held : Held arena owner (.node node children))
    (isTry : node.kind = .tryStmt hasHandler hasFinalizer) :
    ∀ child ∈ children, ∀ part ∈ child.children, Held arena owner part := by
  intro child below part inner
  have layout := laid.layout held.inside
  rw [isTry] at layout
  have plain : child.label.kind.setsApart = false :=
    Kind.setsApart_of_isGuard (Kind.isGuard_of_tryStmt layout (mem_map_of_mem below))
  have first := held.child well (by rw [isTry]; rfl) child below
  obtain ⟨top, parts⟩ := child
  exact first.child well plain part inner

theorem held_of_owner (well : arena.WellNumbered) (inside : tree ∈ arena.tree.subtrees)
    (owns : tree.label.kind.isOwner) (child : Syntree) (below : child ∈ tree.children) :
    Held arena tree.label.id child := by
  have deeper := child_inside below inside
  refine ⟨deeper, well.id_lt deeper, by rw [well.owner_child inside below, if_pos owns], ?_⟩
  intro above op parent isAssign
  rw [well.parent_child inside below] at parent
  cases parent
  rw [well.kind_eq inside] at isAssign
  rw [isAssign] at owns
  cases owns

theorem Held.owned_entryVertex? (well : arena.WellNumbered) (held : Held arena owner tree)
    (found : entryVertex? tree = some id) : arena.Owned owner id := by
  obtain ⟨inner, inside, rfl⟩ :=
    exists_of_entryVertex? (fun held open_ => Held.child well held open_) held found
  exact inside.root

def ownedInterior (well : arena.WellNumbered) (laid : arena.LaidOut) (owner exit : Nat)
    (held aimed : Nat → Prop) (takes : ∀ id, arena.Owned owner id → held id → aimed id)
    (again : ∀ {node : Node} {stmt : Syntree} {rest : List Syntree},
      Held arena owner (.node node (stmt :: rest)) → node.kind = .doWhile → held node.id →
      ∀ frames labels preds,
      (∀ vertex ∈ (flow exit frames labels stmt preds).emitted.vertices, held vertex) →
      aimed ((entryVertex? stmt).getD node.id)) : Interior exit where
  placed := arena.Owned owner
  left _ := held
  aimed _ := aimed
  drawn edge := held edge.source ∧ aimed edge.target
  leads _ _ source target := ⟨source, target⟩
  within := Held arena owner
  apart _ := False
  held := held
  tries := tries_nothing
  root inside := ⟨inside.root, fun known => ⟨known, takes _ inside.root known⟩⟩
  child inside _ := inside.child well
  parts inside isFor id member :=
    have owned := inside.parts well (by rw [isFor]; rfl) id member
    ⟨owned, fun known => ⟨known, takes id owned known⟩⟩
  guarded inside _ := inside.guarded well laid
  again := again
  raises _ _ _ _ _ _ _ _ known target := ⟨known, target⟩
  rethrows _ _ _ _ _ _ known target := ⟨known, target⟩

end

namespace ControlGraph

variable {arena : Arena} (well : arena.WellNumbered) (laid : arena.LaidOut) {tree : Syntree}
  (inside : tree ∈ arena.tree.subtrees) (owns : tree.label.kind.isOwner)

include well laid inside owns

theorem tied_ofTree : (∀ vertex ∈ (ofTree tree).vertices, arena.Owned tree.label.id vertex) ∧
      ∀ edge ∈ (ofTree tree).edges,
        edge.source ∈ (ofTree tree).vertices ∧ arena.Owned tree.label.id edge.target := by
  obtain ⟨first, last, rest, parts, -, -⟩ := laid.exists_ends inside owns
  have numbered := well.linked inside tree tree.self_mem_subtrees
  let interior := ownedInterior well laid tree.label.id last.label.id (· ∈ (ofTree tree).vertices)
    (arena.Owned tree.label.id) (fun _ owned _ => owned) (by
      intro node stmt rest held isLoop _ _ _ _ _
      cases found : entryVertex? stmt with
      | none => exact held.root
      | some id =>
        exact (held.child well (by rw [isLoop]; rfl) stmt mem_cons_self).owned_entryVertex? well
          found)
  have every : ∀ stmt, Flows interior 0 stmt := flows fun _ special => False.elim special
  exact tied_ends every (held_of_owner well inside owns) parts rfl numbered (Row.still _) id
    fun _ member => member

end ControlGraph

end Seepage

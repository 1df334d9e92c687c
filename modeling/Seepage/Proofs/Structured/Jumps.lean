import Mathlib.Logic.Relation
import Seepage.Proofs.Flow.Vertices
import Seepage.Proofs.Structured.Completion

set_option autoImplicit false

namespace Seepage.Structured

open List

variable {frame : Frame} {label : Option String} {depth source : Nat} {aim? : Option Aim}

structure Site where
  labels : List String := []
  scope : Scope := []
  after : Nat

def Site.inside (site : Site) (whole part : Syntree) : Site :=
  let id := whole.label.id
  let later := (whole.children.dropWhile (·.label.id != part.label.id)).tail
  let around (kind : FrameKind) (labels : List String) (after : Nat) : Site :=
    { scope := (⟨kind, labels⟩, site.after) :: site.scope, after }
  match whole.label.kind with
  | .whileStmt | .doWhile | .forIn | .forOf => around (.loop id) site.labels id
  | .forStmt hasInit hasTest hasUpdate =>
    let update := if hasUpdate then whole.label.children[hasInit.toNat + hasTest.toNat]? else none
    around (.loop (update.getD id)) site.labels (update.getD id)
  | .labeled label =>
    if part.label.kind.takesLabel then { site with labels := site.labels ++ [label] }
    else around .labelled (site.labels ++ [label]) site.after
  | .switchStmt => around .choice site.labels ((later.head?.map (·.label.id)).getD site.after)
  | .tryStmt hasHandler hasFinalizer =>
    let handler := if hasHandler then whole.label.children[1]? else none
    let finalizer := if hasFinalizer then whole.label.children.getLast? else none
    if finalizer = some part.label.id then { scope := site.scope, after := site.after }
    else around (.guarded handler finalizer (handler = some part.label.id)) []
      (finalizer.getD site.after)
  | .ifStmt _ | .withStmt | .catchClause _ => { scope := site.scope, after := site.after }
  | _ => { scope := site.scope, after := (firstVertexAny? later).getD site.after }

def siteAlong (arena : Arena) : List Nat → Site
  | part :: whole :: above =>
    (if (arena.kind whole).isOwner then { after := arena.exitOf whole }
      else siteAlong arena (whole :: above)).inside (arena.subtree whole) (arena.subtree part)
  | _ => { after := 0 }

def siteOf (arena : Arena) (id : Nat) : Site :=
  siteAlong arena (id :: arena.ancestors id)

-- Without a label the nearest loop or choice is left, otherwise what has the label.
def Leaves (frame : Frame) : Option String → Prop
  | none => frame.kind = .choice ∨ ∃ again, frame.kind = .loop again
  | some label => label ∈ frame.labels

def Repeats (frame : Frame) (label : Option String) (again : Nat) : Prop :=
  frame.kind = .loop again ∧ ∀ name ∈ label, name ∈ frame.labels

theorem takesBreak_iff : frame.takesBreak label ↔ Leaves frame label := by
  obtain ⟨kind, labels⟩ := frame
  cases label with
  | none => cases kind <;> simp [Frame.takesBreak, Leaves]
  | some label => simp [Frame.takesBreak, Leaves]

theorem continueTo?_eq_some {again : Nat} :
    frame.continueTo? label = some again ↔ Repeats frame label again := by
  obtain ⟨kind, labels⟩ := frame
  cases kind with
  | loop target => cases label <;> simp [Frame.continueTo?, Repeats, and_comm]
  | _ => simp [Frame.continueTo?, Repeats]

inductive Jumps (exit : Nat) : Kind → Scope → Scope → Nat → Prop where
  | returns {hasValue : Bool} {scope : Scope} : Jumps exit (.returnStmt hasValue) scope scope exit
  | breaks {label : Option String} {inner outer : Scope} {frame : Frame} {after : Nat}
    (free : ∀ construct ∈ inner, ¬Leaves construct.1 label) (leaves : Leaves frame label) :
    Jumps exit (.breakStmt label) (inner ++ (frame, after) :: outer) inner after
  | continues {label : Option String} {inner outer : Scope} {construct : Frame × Nat} {target : Nat}
    (free : ∀ construct ∈ inner, ∀ again, ¬Repeats construct.1 label again)
    (repeats : Repeats construct.1 label target) :
    Jumps exit (.continueStmt label) (inner ++ construct :: outer) inner target

def stations (scope : Scope) : List Nat :=
  scope.filterMap (·.1.finalizer?)

def Led (edges : List ControlEdge) (ends : Nat → Nat → Prop) (target : Nat) : List Nat → Nat → Prop
  | [], vertex => Joins edges vertex target
  | finalizer :: others, vertex => Joins edges vertex finalizer ∧
      ∀ last, ends finalizer last → Led edges ends target others last

def Pending (emitted : Emitted) (depth : Nat) : Option Aim → Prop
  | some aim => (depth, aim) ∈ emitted.resumes
  | none => depth ∈ emitted.departs

inductive Aims (exit : Nat) : Option Aim → Scope → Nat → Prop where
  | exit : Aims exit none [] exit
  | leave {frame : Frame} {after : Nat} {outer : Scope} {label : Option String}
    (takes : frame.takesBreak label) :
    Aims exit (some (.leave outer.length)) ((frame, after) :: outer) after
  | again {construct : Frame × Nat} {outer : Scope} {target : Nat} :
    Aims exit (some (.again outer.length target)) (construct :: outer) target

section

variable {exit source goal : Nat} {inner rest : Scope} {aim? : Option Aim}

theorem finalizerFrom?_split (inner rest : Scope) :
    stations inner = [] ∧ finalizerFrom? rest.length (Scope.frames (inner ++ rest)) = none ∨
      ∃ past guard between finalizer, inner = past ++ guard :: between ∧
        guard.1.finalizer? = some finalizer ∧
        stations inner = finalizer :: stations between ∧
        finalizerFrom? rest.length (Scope.frames (inner ++ rest)) =
          some ((between ++ rest).length, finalizer) := by
  induction inner with
  | nil =>
    refine .inl ⟨rfl, ?_⟩
    cases rest with
    | nil => rfl
    | cons construct outer => simp [Scope.frames_cons, finalizerFrom?]
  | cons construct inner ih =>
    have deep : ¬(Scope.frames (inner ++ rest)).length < rest.length := by simp
    simp only [cons_append, Scope.frames_cons, finalizerFrom?, if_neg deep, stations,
      filterMap_cons]
    cases isFinal : construct.1.finalizer? with
    | some finalizer => exact .inr ⟨[], construct, inner, finalizer, by simp [isFinal]⟩
    | none =>
      refine ih.imp_right ?_
      rintro ⟨past, guard, between, finalizer, rfl, found⟩
      exact ⟨construct :: past, guard, between, finalizer, rfl, found⟩

theorem send_through {frames : List Frame} {finalizer : Nat} (aims : Aims exit aim? rest goal)
    (found : finalizerFrom? rest.length frames = some (depth, finalizer)) :
    (send exit frames source aim?).edges = [⟨source, finalizer, .jump⟩] ∧
      (send exit frames source aim?).breaks = [] ∧
      Pending (send exit frames source aim?) depth aim? := by
  cases aims <;> simp_all [send, depart, departure, jump, Aim.depth, Pending]

end

structure Laid (edges : List ControlEdge) (ends : Nat → Nat → Prop) (exit : Nat) (scope : Scope)
    (emitted : Emitted) : Prop where
  drawn : ∀ edge ∈ emitted.edges, edge ∈ edges
  breaks : ∀ {inner outer : Scope} {frame : Frame} {after : Nat},
    scope = inner ++ (frame, after) :: outer → ∀ {source : Nat} {label : Option String},
    (outer.length, source) ∈ emitted.breaks → frame.takesBreak label → Joins edges source after
  pending : ∀ {inner between rest : Scope} {guard : Frame × Nat},
    scope = inner ++ guard :: (between ++ rest) →
    ∀ {aim? : Option Aim} {goal finalizer : Nat}, Pending emitted (between ++ rest).length aim? →
    guard.1.finalizer? = some finalizer → Aims exit aim? rest goal →
    ∀ last, ends finalizer last → Led edges ends goal (stations between) last

section

variable {edges : List ControlEdge} {ends : Nat → Nat → Prop} {exit : Nat} {scope : Scope}
  {first second emitted : Emitted}

theorem Within.pending (within : Within first second) (pends : Pending first depth aim?) :
    Pending second depth aim? := by
  cases aim? with
  | some => exact within.resumes pends
  | none => exact within.departs pends

theorem Laid.within (laid : Laid edges ends exit scope second) (within : Within first second) :
    Laid edges ends exit scope first where
  drawn _ member := laid.drawn _ (within.edges member)
  breaks split _ _ member := laid.breaks split (within.breaks member)
  pending split _ _ _ pends := laid.pending split (within.pending pends)

theorem laid_append (laid : Laid edges ends exit scope (first ++ second)) :
    Laid edges ends exit scope first ∧ Laid edges ends exit scope second :=
  ⟨laid.within (.left (.refl _)), laid.within (.right (.refl _))⟩

theorem led_of_send {goal : Nat} {inner rest : Scope}
    (parts : scope = inner ++ rest) (laid : Laid edges ends exit scope
      (send exit scope.frames source aim?)) (aims : Aims exit aim? rest goal) :
    Led edges ends goal (stations inner) source := by
  subst parts
  have split := finalizerFrom?_split inner rest
  generalize Scope.frames (inner ++ rest) = frames at laid split
  rcases split with ⟨free, none⟩ | ⟨past, guard, between, finalizer, rfl, isFinal, found, through⟩
  · rw [free]
    cases aims with
    | exit => exact ⟨.jump, laid.drawn _ (by simp_all [send, depart, departure])⟩
    | leave takes => exact laid.breaks rfl (by simp_all [send, jump, Aim.depth]) takes
    | again => exact ⟨.jump, laid.drawn _ (by simp_all [send, jump, Aim.depth])⟩
  · obtain ⟨leads, -, pends⟩ := send_through aims through
    rw [found]
    exact ⟨⟨.jump, laid.drawn _ (by simp [leads])⟩,
      laid.pending (append_assoc past (guard :: between) rest) pends isFinal aims⟩

theorem Laid.push (laid : Laid edges ends exit scope emitted) {after : Nat}
    (left : ∀ {source label}, (scope.length, source) ∈ emitted.breaks → frame.takesBreak label →
      Joins edges source after) (resumed : ∀ {aim? finalizer}, Pending emitted scope.length aim? →
      frame.finalizer? = some finalizer → ∀ last, ends finalizer last →
      Laid edges ends exit scope (send exit scope.frames last aim?)) :
    Laid edges ends exit ((frame, after) :: scope) emitted where
  drawn := laid.drawn
  breaks {inner _ _ _} split := by
    cases inner with
    | nil =>
      cases split
      exact left
    | cons =>
      obtain ⟨-, split⟩ := List.cons.inj split
      exact laid.breaks split
  pending {inner _ _ _} split := by
    cases inner with
    | nil =>
      cases split
      exact fun pends isFinal aims last isLast =>
        led_of_send rfl (resumed pends isFinal last isLast) aims
    | cons =>
      obtain ⟨-, split⟩ := List.cons.inj split
      exact laid.pending split

end

def isPlain : Kind → Bool
  | .breakStmt _ | .continueStmt _ | .returnStmt _ | .doWhile => false
  | _ => true

structure Landing where
  arena : Arena
  edges : List ControlEdge
  exit : Nat

namespace Landing

variable (landing : Landing)

def sent (id : Nat) : Emitted :=
  let frames := (siteOf landing.arena id).scope.frames
  send landing.exit frames id (aimOf? frames (landing.arena.kind id))

def Draws (scope : Scope) (emitted : Emitted) : Prop :=
  Laid landing.edges (CompletesAt landing.arena) landing.exit scope emitted

def bounds : Bounds where
  placed id :=
    (isJump (landing.arena.kind id) →
      landing.Draws (siteOf landing.arena id).scope (landing.sent id)) ∧
    (landing.arena.kind id = .doWhile →
      ⟨id, backTarget landing.arena id, .loopBack⟩ ∈ landing.edges)
  left id := isJump (landing.arena.kind id) → (landing.sent id).breaks ≠ []
  aimed _ := True
  drawn edge := isJump (landing.arena.kind edge.source) →
    (landing.sent edge.source).breaks = [] → edge.label ≠ .exception →
    edge ∈ (landing.sent edge.source).edges
  leads _ source _ jumps none := absurd none (source jumps)

structure DrawsPiece (scope : Scope) (after : Nat) (piece : Piece) : Prop where
  emitted : landing.Draws scope piece.emitted
  exits : ∀ source, IsOpen piece.exits source → Joins landing.edges source after

def Lands (site : Site) (tree : Syntree) : Prop :=
  ∀ preds, Exits.Tied landing.bounds.left preds →
    landing.DrawsPiece site.scope site.after
      (flow landing.exit site.scope.frames site.labels tree preds) →
    (flow landing.exit site.scope.frames site.labels tree preds).Tied landing.bounds 0
      site.scope.frames.length

variable {landing} {scope : Scope} {after : Nat} {preds : Exits}

def Free (landing : Landing) (id : Nat) : Prop :=
  landing.bounds.placed id ∧ landing.bounds.left id

theorem free_of {id : Nat} (plain : isPlain (landing.arena.kind id)) : landing.Free id := by
  simp only [Free, bounds]
  revert plain
  cases landing.arena.kind id <;> simp [isPlain, isJump]

theorem tied_sent (id count : Nat) : (landing.sent id).Tied landing.bounds 0 count := by
  let own : Bounds :=
    { placed _ := False, left := (· = id), aimed _ := True, drawn := (·.source = id),
      leads _ same _ := same }
  have tied : (landing.sent id).Tied own 0 count :=
    tied_send (.anywhere (fun _ => trivial) landing.exit _) rfl _
  refine ⟨fun _ member => (tied.vertices _ member).elim, fun edge member _ _ _ => ?_,
    fun jump member => ⟨Nat.zero_le _, fun inner _ none => ?_⟩, tied.resumes⟩
  · rwa [show edge.source = id from tied.edges edge member]
  · rw [show jump.2 = id from (tied.breaks jump member).2 inner] at none
    rw [none] at member
    cases member

theorem joins_of_enters {piece : Exits → Piece} {first : Option Nat} (enters : Enters piece first)
    (drawn : landing.DrawsPiece scope after (piece preds))
    (isOpen : IsOpen preds source) : Joins landing.edges source (first.getD after) := by
  cases first with
  | some id =>
    rw [enters.2 preds] at drawn
    obtain ⟨label, member⟩ := joins_connect.mpr ⟨isOpen, rfl⟩
    exact ⟨label, (laid_append drawn.emitted).1.drawn _ member⟩
  | none =>
    rw [enters preds] at drawn
    exact drawn.exits source isOpen

section

variable (quiet : Exits.Tied landing.bounds.left preds)

include quiet

theorem lands_flowAll {stmts : List Syntree} (linked : ∀ stmt ∈ stmts, stmt.Linked)
    (each : ∀ before stmt rest, stmts = before ++ stmt :: rest →
      landing.Lands ⟨[], scope, (firstVertexAny? rest).getD after⟩ stmt)
    (drawn : landing.DrawsPiece scope after (flowAll landing.exit scope.frames stmts preds)) :
    (flowAll landing.exit scope.frames stmts preds).Tied landing.bounds 0 scope.frames.length := by
  induction stmts generalizing preds with
  | nil => exact ⟨Emitted.tied_nothing, quiet⟩
  | cons stmt rest ih =>
    obtain ⟨first, others⟩ := forall_mem_cons.mp linked
    obtain ⟨here, there⟩ := laid_append drawn.emitted
    have behind := enters_flowAll fun tree member =>
      enters_flow (others tree member) landing.exit scope.frames []
    have one := each [] stmt rest rfl preds quiet
      ⟨here, fun source => joins_of_enters behind ⟨there, drawn.exits⟩⟩
    have more := ih one.exits others
      (fun before next after same => each (stmt :: before) next after (by rw [same]; rfl))
      ⟨there, drawn.exits⟩
    exact ⟨Emitted.tied_append.mpr ⟨one.emitted, more.emitted⟩, more.exits⟩

theorem lands_flowLast {parts : List Syntree}
    (each : ∀ part ∈ parts, landing.Lands ⟨[], scope, after⟩ part)
    (drawn : landing.DrawsPiece scope after (flowLast landing.exit scope.frames parts preds)) :
    (flowLast landing.exit scope.frames parts preds).Tied landing.bounds 0 scope.frames.length := by
  induction parts with
  | nil => exact ⟨Emitted.tied_nothing, quiet⟩
  | cons part rest ih =>
    obtain ⟨here, there⟩ := forall_mem_cons.mp each
    cases rest with
    | nil => exact here preds quiet drawn
    | cons next rest => exact ih there drawn

end

theorem flowCases_case {case : Syntree} {isDefault : Bool}
    (isCase : case.label.kind = .switchCase isDefault)
    (layout : isDefault || !case.children.isEmpty) (rest : List Syntree) (exit : Nat)
    (frames : List Frame) (head : Nat) (preds : Exits) :
    ∃ before stmts body others, case.children = before ++ stmts ∧
      body = flowAll exit frames stmts [(case.label.id, .fallthrough)] ∧
      others = flowCases exit frames head rest body.exits ∧
      flowCases exit frames head (case :: rest) preds =
        ⟨{ vertices := [case.label.id], edges := ⟨head, case.label.id, .whenTrue⟩ ::
            connectAs .fallthrough preds case.label.id } ++ body.emitted ++ others.emitted,
          others.exits⟩ := by
  rcases flowCases_cons case rest exit frames head preds with ⟨isDefault', -, whole⟩ | ⟨few, -⟩
  · exact ⟨_, _, _, _, (take_append_drop (!isDefault').toNat _).symm, rfl, rfl, whole⟩
  · cases isDefault <;> simp_all

structure LandsCase (landing : Landing) (scope : Scope) (after : Nat) (case : Syntree) : Prop where
  own : landing.Free case.label.id
  isCase : ∃ isDefault, case.label.kind = .switchCase isDefault ∧
    (isDefault || !case.children.isEmpty)
  linked : ∀ stmt ∈ case.children, stmt.Linked
  stmts : ∀ before stmt rest, case.children = before ++ stmt :: rest →
    landing.Lands ⟨[], scope, (firstVertexAny? rest).getD after⟩ stmt

theorem lands_flowCases {head : Nat} (top : landing.bounds.left head) {cases : List Syntree}
    (each : ∀ before case rest, cases = before ++ case :: rest →
      LandsCase landing scope ((rest.head?.map (·.label.id)).getD after) case)
    (quiet : Exits.Tied landing.bounds.left preds) (drawn : landing.DrawsPiece scope after
      (flowCases landing.exit scope.frames head cases preds)) :
    (flowCases landing.exit scope.frames head cases preds).Tied landing.bounds 0
      scope.frames.length := by
  induction cases generalizing preds with
  | nil => exact ⟨Emitted.tied_nothing, quiet⟩
  | cons case rest ih =>
    obtain ⟨own, ⟨_, isCase, layout⟩, linked, stmts⟩ := each [] case rest rfl
    obtain ⟨before, body, _, _, parts, rfl, rfl, whole⟩ :=
      flowCases_case isCase layout rest landing.exit scope.frames head preds
    rw [whole] at drawn ⊢
    obtain ⟨opens, there⟩ := laid_append drawn.emitted
    obtain ⟨-, here⟩ := laid_append opens
    have one := lands_flowAll (Exits.tied_singleton own.2)
      (fun stmt member => linked stmt (by simp [parts, member]))
      (fun before' stmt rest same => stmts (before ++ before') stmt rest (by simp [parts, same]))
      ⟨here, fun source isOpen => ?_⟩
    · have more := ih (fun before next rest same =>
        each (case :: before) next rest (by rw [same]; rfl)) one.exits ⟨there, drawn.exits⟩
      refine ⟨Emitted.tied_append.mpr ⟨Emitted.tied_append.mpr ⟨?_, one.emitted⟩, more.emitted⟩,
        more.exits⟩
      refine ⟨forall_mem_singleton.mpr own.1, forall_mem_cons.mpr
        ⟨landing.bounds.leads _ top trivial, drawn_connectAs .fallthrough quiet trivial⟩,
        by simp, by simp⟩
    · cases rest with
      | nil => exact drawn.exits source isOpen
      | cons next rest =>
        obtain ⟨_, isNext, layout⟩ := (each [case] next rest rfl).isCase
        obtain ⟨_, _, _, _, -, -, -, enters⟩ := flowCases_case isNext layout rest landing.exit
          scope.frames head
          (flowAll landing.exit scope.frames body [(case.label.id, .fallthrough)]).exits
        rw [enters] at there
        obtain ⟨label, member⟩ : Joins (connectAs .fallthrough _ next.label.id) source _ :=
          joins_connectAs.mpr ⟨isOpen, rfl⟩
        exact ⟨label, (laid_append (laid_append there).1).1.drawn _ (mem_cons_of_mem _ member)⟩

end Landing

end Seepage.Structured

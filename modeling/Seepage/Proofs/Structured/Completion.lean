import Seepage.Proofs.Structured.Drawing

set_option autoImplicit false

namespace Seepage.Structured

open List
open Rose hiding node

variable {labels : List String}

-- What is left of an ending outside of a construct with these labels.
def Ending.leaving (labels : List String) (bare : Bool) : Ending → Ending
  | .broken label => if label.elim bare labels.contains then .normal else .broken label
  | ending => ending

def Turns (labels : List String) (tested : Bool) (id : Nat) (body : Ending → Prop) (ending : Ending)
    (last : Nat) : Prop :=
  tested ∧ ending = .normal ∧ last = id ∨
    ∃ label, body (.broken label) ∧ ending = (Ending.broken label).leaving labels true

-- A finalizer has the last word, but a jump that has run it may go on from its end.
def Finally (guarded final : Ending → Prop) (ending : Ending) : Prop :=
  final ending ∨ ending ≠ .normal ∧ guarded ending ∧ final .normal

mutual

-- How a statement with these labels may end that is entered from a vertex, and at which vertex.
def Ends (labels : List String) : Syntree → Nat → Ending → Nat → Prop
  | .node node children, start, ending, last =>
    match node.kind, children with
    | .block, stmts => EndsAll stmts start ending last
    | .ifStmt _, [_, consequent] =>
      Ends [] consequent node.id ending last ∨ ending = .normal ∧ last = node.id
    | .ifStmt _, [_, consequent, alternate] =>
      Ends [] consequent node.id ending last ∨ Ends [] alternate node.id ending last
    | .whileStmt, parts | .forIn, parts | .forOf, parts =>
      Turns labels true node.id (fun inner => EndsLast parts node.id inner last) ending last
    | .doWhile, body :: _ =>
      Turns labels true node.id (fun inner => Ends [] body start inner last) ending last
    | .forStmt _ tested _, parts =>
      Turns labels tested node.id (fun inner => EndsLast parts node.id inner last) ending last
    | .labeled label, body :: _ =>
      if body.label.kind.takesLabel then Ends (labels ++ [label]) body start ending last
      else ∃ inner, Ends [] body start inner last ∧ ending = inner.leaving (labels ++ [label]) false
    | .breakStmt label, _ => ending = .broken label ∧ last = node.id
    | .continueStmt _, _ | .returnStmt _, _ | .throwStmt, _ => False
    | .switchStmt, _ :: cases =>
      (∃ inner, EndsCases cases inner last ∧ ending = inner.leaving labels true) ∨
        (cases.any fun case => case.label.kind == .switchCase true) = false ∧ ending = .normal ∧
          last = node.id
    | .withStmt, parts => EndsLast parts node.id ending last
    | .tryStmt false false, [block] => Ends [] block node.id ending last
    | .tryStmt true false, [block, .node handler parts] =>
      Ends [] block node.id ending last ∨ EndsLast parts handler.id ending last
    | .tryStmt false true, [block, .node finalizer stmts] =>
      Finally (fun inner => ∃ middle, Ends [] block node.id inner middle)
        (fun inner => EndsAll stmts finalizer.id inner last) ending
    | .tryStmt true true, [block, .node handler parts, .node finalizer stmts] =>
      Finally (fun inner => ∃ middle, Ends [] block node.id inner middle ∨
        EndsLast parts handler.id inner middle)
        (fun inner => EndsAll stmts finalizer.id inner last) ending
    | _, _ => ending = .normal ∧ last = node.id

def EndsAll : List Syntree → Nat → Ending → Nat → Prop
  | [], start, ending, last => ending = .normal ∧ last = start
  | stmt :: rest, start, ending, last =>
    (∃ middle, Ends [] stmt start .normal middle ∧ EndsAll rest middle ending last) ∨
      ending ≠ .normal ∧ Ends [] stmt start ending last

def EndsLast : List Syntree → Nat → Ending → Nat → Prop
  | [], start, ending, last => ending = .normal ∧ last = start
  | [body], start, ending, last => Ends [] body start ending last
  | _ :: rest, start, ending, last => EndsLast rest start ending last

def EndsCases : List Syntree → Ending → Nat → Prop
  | [], _, _ => False
  | .node node parts :: rest, ending, last =>
    EndsCases rest ending last ∨ (ending = .normal → rest = []) ∧
      match node.kind, parts with
      | .switchCase true, stmts | .switchCase false, _ :: stmts =>
        EndsAll stmts node.id ending last
      | _, _ => False

end

structure Within (part whole : Emitted) : Prop where
  edges : part.edges ⊆ whole.edges
  breaks : part.breaks ⊆ whole.breaks
  resumes : part.resumes ⊆ whole.resumes
  departs : part.departs ⊆ whole.departs

namespace Within

variable {part whole first second : Emitted}

theorem refl (part : Emitted) : Within part part :=
  ⟨fun _ => id, fun _ => id, fun _ => id, fun _ => id⟩

theorem trans {middle : Emitted} (inner : Within part middle) (outer : Within middle whole) :
    Within part whole where
  edges _ member := outer.edges (inner.edges member)
  breaks _ member := outer.breaks (inner.breaks member)
  resumes _ member := outer.resumes (inner.resumes member)
  departs _ member := outer.departs (inner.departs member)

theorem left (within : Within part first) : Within part (first ++ second) :=
  within.trans ⟨subset_append_left _ _, subset_append_left _ _, subset_append_left _ _,
    subset_append_left _ _⟩

theorem right (within : Within part second) : Within part (first ++ second) :=
  within.trans ⟨subset_append_right _ _, subset_append_right _ _, subset_append_right _ _,
    subset_append_right _ _⟩

theorem concat {parts : List Emitted} (member : part ∈ parts) : Within part (.concat parts) := by
  induction parts with
  | nil => cases member
  | cons other rest ih =>
    rcases mem_cons.mp member with rfl | later
    · exact (refl _).left
    · exact (ih later).right

theorem resumeAll {frames : List Frame} {exits : Exits} {depth last : Nat} {aim : Aim}
    (pends : (depth, aim) ∈ part.resumes) (isOpen : IsOpen exits last) :
    Within (jump frames last aim) (resumeAll frames exits (part.resumesAt depth)) := by
  obtain ⟨label, isOpen⟩ := isOpen
  have member : aim ∈ part.resumesAt depth := by
    simpa [Emitted.resumesAt, mem_eraseDups] using pends
  refine .trans ?_ (concat (mem_map_of_mem member))
  exact concat (mem_map_of_mem isOpen)

end Within

-- Where control has got when a statement ends: to an open end, or into the jump of a `break`.
def Meets (frames : List Frame) (piece : Piece) (last : Nat) : Ending → Prop
  | .normal => IsOpen piece.exits last
  | .broken label => ∀ aim, breakAim? label frames = some aim →
    Within (jump frames last aim) piece.emitted
  | _ => True

section

variable {exit last start : Nat} {frames : List Frame} {frame : Frame} {piece whole : Piece}
  {label : Option String} {ending : Ending} {preds : Exits} {stmts : List Syntree}

theorem depth_lt {aim : Aim} (aims : breakAim? label frames = some aim) :
    aim.depth < frames.length := by
  obtain ⟨_, _, rfl, found, -⟩ := exists_of_breakAim? aims
  simpa [Aim.depth] using (List.getElem?_eq_some_iff.mp found).1

namespace Meets

theorem mono (meets : Meets frames piece last ending)
    (exits : ending = .normal → IsOpen piece.exits last → IsOpen whole.exits last)
    (within : Within piece.emitted whole.emitted) : Meets frames whole last ending := by
  cases ending with
  | normal => exact exits rfl meets
  | broken label => exact fun aim aims => (meets aim aims).trans within
  | _ => trivial

theorem outer (meets : Meets (frame :: frames) piece last (.broken label))
    (free : frame.takesBreak label = false) (plain : frame.finalizer? = none) :
    Meets frames piece last (.broken label) := by
  intro aim aims
  have within := meets aim (by rwa [breakAim?, if_neg (by simp [free])])
  rwa [jump.eq_def, finalizerFrom?, plain, if_neg (Nat.not_lt.mpr (depth_lt aims))] at within

theorem leaving {kind : FrameKind} {bare : Bool}
    (meets : Meets (⟨kind, labels⟩ :: frames) piece last ending)
    (isTarget : (⟨kind, labels⟩ : Frame).takesBreak none = bare)
    (plain : (⟨kind, labels⟩ : Frame).finalizer? = none)
    (exits : ending = .normal → IsOpen piece.exits last → IsOpen whole.exits last)
    (left : IsOpen (piece.emitted.breaksAt frames.length) last → IsOpen whole.exits last)
    (within : Within piece.emitted whole.emitted) :
    Meets frames whole last (ending.leaving labels bare) := by
  subst isTarget
  cases ending with
  | normal => exact exits rfl meets
  | broken label =>
    have takes : label.elim (Frame.takesBreak ⟨kind, labels⟩ none) labels.contains =
        Frame.takesBreak ⟨kind, labels⟩ label := by cases label <;> rfl
    rw [Ending.leaving, takes]
    split
    case isTrue own =>
      refine left (isOpen_breaksAt.mpr ((meets _ (by rw [breakAim?, if_pos own])).breaks ?_))
      simp [jump, Aim.depth, finalizerFrom?]
    case isFalse other =>
      exact (meets.outer (by simpa using other) plain).mono (by rintro ⟨⟩) within
  | _ => trivial

theorem unguarded {handler : Option Nat} {handling : Bool}
    (meets : Meets (⟨.guarded handler none handling, []⟩ :: frames) piece last ending) :
    Meets frames piece last ending := by
  cases ending with
  | broken label => exact meets.outer (by cases label <;> rfl) rfl
  | _ => exact meets

theorem resumed {handler : Option Nat} {finalizer middle : Nat} {handling : Bool}
    {guarded : Emitted} {exits : Exits}
    (meets : Meets (⟨.guarded handler (some finalizer) handling, []⟩ :: frames) piece middle ending)
    (jumps : ending ≠ .normal) (inner : Within piece.emitted guarded) (isOpen : IsOpen exits last)
    (outer : Within (resumeAll frames exits (guarded.resumesAt frames.length)) whole.emitted) :
    Meets frames whole last ending := by
  cases ending with
  | normal => exact absurd rfl jumps
  | broken label =>
    intro aim aims
    have pends : (frames.length, aim) ∈ piece.emitted.resumes := by
      refine (meets aim (by cases label <;> exact aims)).resumes ?_
      rw [jump.eq_def, finalizerFrom?, if_neg (Nat.not_lt.mpr (depth_lt aims))]
      exact mem_singleton_self _
    exact (Within.resumeAll (inner.resumes pends) isOpen).trans outer
  | _ => trivial

end Meets

def Met (exit : Nat) (tree : Syntree) : Prop :=
  ∀ frames {labels preds start ending last}, Ends labels tree start ending last →
    IsOpen preds start → Meets frames (flow exit frames labels tree preds) last ending

theorem meets_flowAll (each : ∀ stmt ∈ stmts, Met exit stmt)
    (ends : EndsAll stmts start ending last) (entered : IsOpen preds start) :
    Meets frames (flowAll exit frames stmts preds) last ending := by
  induction stmts generalizing preds start with
  | nil =>
    obtain ⟨rfl, rfl⟩ := ends
    exact entered
  | cons stmt rest ih =>
    obtain ⟨first, others⟩ := forall_mem_cons.mp each
    rcases ends with ⟨middle, here, there⟩ | ⟨jumps, here⟩
    · exact (ih others there (first _ here entered)).mono (fun _ => id) (.right (.refl _))
    · exact (first _ here entered).mono (fun same => absurd same jumps) (.left (.refl _))

theorem meets_flowLast (each : ∀ stmt ∈ stmts, Met exit stmt)
    (ends : EndsLast stmts start ending last) (entered : IsOpen preds start) :
    Meets frames (flowLast exit frames stmts preds) last ending := by
  induction stmts with
  | nil =>
    obtain ⟨rfl, rfl⟩ := ends
    exact entered
  | cons stmt rest ih =>
    obtain ⟨first, others⟩ := forall_mem_cons.mp each
    cases rest with
    | nil => exact first _ ends entered
    | cons next rest => exact ih others ends

theorem meets_flowCases {cases : List Syntree}
    (each : ∀ case ∈ cases, ∀ stmt ∈ case.children, Met exit stmt)
    (ends : EndsCases cases ending last) (head : Nat) (preds : Exits) :
    Meets frames (flowCases exit frames head cases preds) last ending := by
  induction cases generalizing preds with
  | nil => cases ends
  | cons case rest ih =>
    obtain ⟨here, others⟩ := forall_mem_cons.mp each
    obtain ⟨node, parts⟩ := case
    unfold EndsCases at ends
    rw [flowCases.eq_def]
    dsimp only
    rcases ends with later | ⟨stops, own⟩
    · split
      case h_3 => exact ih others later _
      all_goals exact (ih others later _).mono (fun _ => id) (.right (.refl _))
    · split
      case h_3 => split at own <;> simp_all
      all_goals
        rename_i isCase
        simp only [isCase] at own
        refine (meets_flowAll (fun stmt member => here stmt (by simp [children, member])) own
          ⟨.fallthrough, mem_singleton_self _⟩).mono (fun same isOpen => ?_) ?_
        · obtain rfl := stops same
          exact isOpen
        · exact .left (.right (.refl _))

theorem meets_turns {tested : Bool} {id again : Nat} {inner : Ending → Prop}
    (turns : Turns labels tested id inner ending last)
    (meets : ∀ {ending}, inner ending → Meets (⟨.loop again, labels⟩ :: frames) piece last ending)
    (exits : whole.exits = piece.emitted.breaksAt frames.length ++
      if tested then [(id, .whenFalse)] else [])
    (within : Within piece.emitted whole.emitted) : Meets frames whole last ending := by
  rcases turns with ⟨passes, rfl, rfl⟩ | ⟨label, ends, rfl⟩
  · exact ⟨.whenFalse, by simp [exits, passes]⟩
  · refine (meets ends).leaving rfl rfl (by rintro ⟨⟩) (fun isOpen => ?_) within
    exact exits ▸ isOpen.left

theorem met (exit : Nat) (tree : Syntree) : Met exit tree := by
  induction tree using bySubtrees with
  | node node children ih =>
    have below : ∀ child ∈ children, Met exit child := fun child member =>
      ih child member child child.self_mem_subtrees
    have deeper : ∀ child ∈ children, ∀ part ∈ child.children, Met exit part :=
      fun child member part under => ih child member part (child_mem_subtrees under)
    intro frames labels preds start ending last ends entered
    have own (label : ControlLabel) : IsOpen [(node.id, label)] node.id :=
      ⟨label, mem_singleton_self _⟩
    have held {part : Emitted} : Within part part := .refl part
    unfold Ends at ends
    cases form node children with
    | block isBlock =>
      rw [flow_def]
      simp only [isBlock] at ends ⊢
      exact meets_flowAll below ends entered
    | @choose _ _ _ alternate isIf =>
      rw [flow_choose isIf]
      cases alternate <;> simp only [isIf, Option.toList] at ends <;> rcases ends with inner | ends
      · exact (below _ (by simp) _ inner (own _)).mono (fun _ => .left) held.right.left
      · obtain ⟨rfl, rfl⟩ := ends
        exact (own _).right
      · exact (below _ (by simp) _ inner (own _)).mono (fun _ => .left) held.right.left
      · exact (below _ (by simp) _ ends (own .whenFalse)).mono (fun _ => .right) held.right
    | loop isLoop =>
      rw [flow_loop isLoop]
      rcases isLoop with isLoop | isLoop | isLoop <;> simp only [isLoop] at ends <;>
        exact meets_turns ends (fun inner => meets_flowLast below inner (own _)) rfl
          held.right.left
    | doWhile isLoop =>
      rw [flow_def]
      simp only [isLoop] at ends ⊢
      exact meets_turns ends (fun inner => below _ mem_cons_self _ inner entered) rfl held.left
    | forLoop isFor =>
      rw [flow_def]
      simp only [isFor] at ends ⊢
      exact meets_turns ends (fun inner => meets_flowLast below inner (own _)) rfl
        held.right.left
    | @labelled label _ _ isLabel =>
      rw [flow_def]
      simp only [isLabel] at ends ⊢
      split at ends
      case isTrue takes =>
        rw [if_pos takes]
        exact below _ mem_cons_self _ ends entered
      case isFalse other =>
        rw [if_neg other]
        obtain ⟨inner, ends, rfl⟩ := ends
        have meets := below _ mem_cons_self (⟨.labelled, labels ++ [label]⟩ :: frames) ends entered
        exact meets.leaving rfl rfl (fun _ => .left) .right held
    | breaks isBreak =>
      simp only [isBreak] at ends
      obtain ⟨rfl, rfl⟩ := ends
      intro aim aims
      rw [flow_jump (by rw [isBreak]; rfl), isBreak, aimOf?, aims]
      exact held.right
    | continues other | returns other | throws other =>
      simp only [other] at ends
    | switch isSwitch =>
      rw [flow_def]
      simp only [isSwitch] at ends ⊢
      rcases ends with ⟨inner, ends, rfl⟩ | ⟨none, rfl, rfl⟩
      · exact Meets.leaving (meets_flowCases (forall_mem_cons.mp deeper).2 ends _ _) rfl rfl
          (fun _ isOpen => isOpen.right.left) (fun isOpen => isOpen.left.left) held.right
      · exact .right (by rw [none]; exact own _)
    | with_ isWith =>
      rw [flow_def]
      simp only [isWith] at ends ⊢
      exact (meets_flowLast below ends (own _)).mono (fun _ => id) held.right
    | @guarded _ handler isTry =>
      rw [flow_def]
      rcases handler with _ | ⟨top, parts⟩ <;>
        simp only [isTry, Option.isSome, Option.toList] at ends ⊢
      · exact (below _ mem_cons_self _ ends (own _)).unguarded.mono (fun _ => id) held.right
      · rcases ends with inner | inner
        · exact (below _ mem_cons_self _ inner (own .fallthrough)).unguarded.mono (fun _ => .left)
            held.right.left.left.left
        · have under : ∀ part ∈ parts, Met exit part := deeper (.node top parts) (by simp)
          exact (meets_flowLast under inner ⟨.fallthrough, mem_singleton_self _⟩).unguarded.mono
            (fun _ => .right) held.right
    | @finalized _ handler final stmts isTry =>
      rw [flow_finalized _ _ _ _ _ _ _ _ isTry]
      have under : ∀ stmt ∈ stmts, Met exit stmt := deeper (.node final stmts) (by simp)
      have finals {ending : Ending} (ends : EndsAll stmts final.id ending last) :
          Meets frames (flowAll exit frames stmts [(final.id, .fallthrough)]) last ending :=
        meets_flowAll under ends ⟨.fallthrough, mem_singleton_self _⟩
      rcases handler with _ | ⟨top, parts⟩ <;>
        simp only [isTry, Option.isSome, Option.toList, nil_append, cons_append] at ends <;>
        rcases ends with ends | ⟨jumps, ⟨middle, inner⟩, normal⟩
      · exact (finals ends).mono (fun _ => id) held.right.left.left
      · exact (below _ mem_cons_self _ inner (own .fallthrough)).resumed jumps held (finals normal)
          held.right
      · exact (finals ends).mono (fun _ => id) held.right.left.left
      · rcases inner with inner | inner
        · exact (below _ mem_cons_self _ inner (own .fallthrough)).resumed jumps
            held.left.left.left (finals normal) held.right
        · have under : ∀ part ∈ parts, Met exit part := deeper (.node top parts) (by simp)
          exact (meets_flowLast under inner ⟨.fallthrough, mem_singleton_self _⟩).resumed jumps
            held.right (finals normal) held.right
    | simple plain =>
      rw [flow_simple plain]
      split at ends
      case h_20 =>
        obtain ⟨rfl, rfl⟩ := ends
        exact own _
      all_goals simp_all [steers]

-- Where a finalizer comes to its end, and a jump that has run it goes on from.
def CompletesAt (arena : Arena) (finalizer last : Nat) : Prop :=
  EndsAll (arena.subtree finalizer).children finalizer .normal last

end

end Seepage.Structured

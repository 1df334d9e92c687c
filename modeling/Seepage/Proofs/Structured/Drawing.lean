import Seepage.Proofs.Flow.Edges
import Seepage.Proofs.Flow.Statements
import Seepage.Proofs.Structured.Walks

set_option autoImplicit false

namespace Seepage.Structured

open List Code

variable {frame : Frame} {depth id : Nat} {emitted : Emitted} {code body : Code} {node : Node}
  {hasElse : Bool} {children trees cases parts : List Syntree} {tree : Syntree}

abbrev Scope := List (Frame × Nat)

namespace Scope

def frames (scope : Scope) : List Frame :=
  scope.map (·.1)

def after? (scope : Scope) (depth : Nat) : Option Nat :=
  scope.reverse[depth]?.map (·.2)

def breakTo (exit : Nat) (label : Option String) : Scope → Nat
  | [] => exit
  | (frame, after) :: outer => if frame.takesBreak label then after else breakTo exit label outer

def continueTo (exit : Nat) (label : Option String) : Scope → Nat
  | [] => exit
  | (frame, _) :: outer => (frame.continueTo? label).getD (continueTo exit label outer)

def env (scope : Scope) (exit : Nat) : Env where
  exit := exit
  breaks label := breakTo exit label scope
  continues label := continueTo exit label scope

def Unguarded (scope : Scope) : Prop :=
  ∀ frame ∈ scope.frames, ∀ handler finalizer handling,
    frame.kind ≠ .guarded handler finalizer handling

theorem frames_cons (construct : Frame × Nat) (outer : Scope) :
    frames (construct :: outer) = construct.1 :: frames outer := rfl

@[simp] theorem length_frames (scope : Scope) : scope.frames.length = scope.length :=
  length_map _

theorem after?_cons (frame : Frame) (after : Nat) (scope : Scope) (depth : Nat) :
    after? ((frame, after) :: scope) depth =
      if depth = scope.length then some after else scope.after? depth := by
  unfold after?
  rw [reverse_cons, getElem?_append, length_reverse]
  split
  case isTrue here => rw [if_neg (Nat.ne_of_lt here)]
  case isFalse beyond =>
    split
    case isTrue same => simp [same]
    case isFalse other =>
      rw [getElem?_eq_none (by simp; omega), getElem?_eq_none (by simp; omega)]

theorem after?_outer {after target : Nat} {scope : Scope}
    (found : scope.after? depth = some target) :
    after? ((frame, after) :: scope) depth = some target := by
  have inner : depth ≠ scope.length := by
    rintro rfl
    simp [after?] at found
  rw [after?_cons, if_neg inner, found]

theorem breakAim?_frames (exit : Nat) (label : Option String) (scope : Scope) :
    breakAim? label scope.frames = none ∧ breakTo exit label scope = exit ∨
      ∃ depth, breakAim? label scope.frames = some (.leave depth) ∧
        scope.after? depth = some (breakTo exit label scope) := by
  induction scope with
  | nil => exact .inl ⟨rfl, rfl⟩
  | cons construct outer ih =>
    obtain ⟨frame, after⟩ := construct
    rw [frames_cons, breakAim?, breakTo]
    by_cases takes : frame.takesBreak label
    · rw [if_pos takes, if_pos takes]
      exact .inr ⟨_, rfl, by simp [after?_cons]⟩
    · rw [if_neg takes, if_neg takes]
      refine ih.imp_right fun aimed => ?_
      obtain ⟨depth, aims, found⟩ := aimed
      exact ⟨depth, aims, after?_outer found⟩

theorem continueAim?_frames (exit : Nat) (label : Option String) (scope : Scope) :
    continueAim? label scope.frames = none ∧ continueTo exit label scope = exit ∨
      ∃ depth, continueAim? label scope.frames =
        some (.again depth (continueTo exit label scope)) := by
  induction scope with
  | nil => exact .inl ⟨rfl, rfl⟩
  | cons construct outer ih =>
    obtain ⟨frame, after⟩ := construct
    rw [frames_cons, continueAim?, continueTo]
    cases frame.continueTo? label with
    | some target => exact .inr ⟨_, rfl⟩
    | none => exact ih

section

variable (scope : Scope) (exit after : Nat) (labels : List String)

theorem env_loop (again : Nat) : env ((⟨.loop again, labels⟩, after) :: scope) exit =
    (((scope.env exit).leavingAll labels after).leaving none after).looping labels again := by
  ext aim
  · rfl
  · cases aim <;> simp [env, breakTo, Frame.takesBreak, Env.leaving, Env.leavingAll, Env.looping]
  · simp only [env, continueTo, Frame.continueTo?, Env.looping, Env.leaving, Env.leavingAll]
    split <;> rfl

theorem env_choice : env ((⟨.choice, labels⟩, after) :: scope) exit =
    ((scope.env exit).leavingAll labels after).leaving none after := by
  ext aim
  · rfl
  · cases aim <;> simp [env, breakTo, Frame.takesBreak, Env.leaving, Env.leavingAll]
  · rfl

theorem env_labelled : env ((⟨.labelled, labels⟩, after) :: scope) exit =
    (scope.env exit).leavingAll labels after := by
  ext aim
  · rfl
  · cases aim <;> simp [env, breakTo, Frame.takesBreak, Env.leavingAll]
  · rfl

end

namespace Unguarded

variable {scope : Scope} (unguarded : scope.Unguarded)

include unguarded

theorem cons (kind : FrameKind) (labels : List String) (plain : ∀ handler finalizer handling,
    kind ≠ .guarded handler finalizer handling) (after : Nat) :
    Unguarded ((⟨kind, labels⟩, after) :: scope) :=
  forall_mem_cons.mpr ⟨plain, unguarded⟩

theorem finalizerFrom?_eq_none (least : Nat) : finalizerFrom? least scope.frames = none := by
  induction scope with
  | nil => rfl
  | cons construct outer ih =>
    obtain ⟨plain, others⟩ := forall_mem_cons.mp unguarded
    have absent : construct.1.finalizer? = none := by
      unfold Frame.finalizer?
      split
      case h_1 isGuarded => exact absurd isGuarded (plain _ _ _)
      case h_2 => rfl
    rw [frames_cons, finalizerFrom?, absent]
    split
    · rfl
    · exact ih others

theorem depart_eq (exit source : Nat) :
    depart scope.frames exit source = { edges := [⟨source, exit, .jump⟩] } := by
  simp only [depart, departure, unguarded.finalizerFrom?_eq_none]

theorem raise_eq (exit source : Nat) :
    raise exit source scope.frames = { edges := [⟨source, exit, .exception⟩] } := by
  induction scope with
  | nil => rfl
  | cons construct outer ih =>
    obtain ⟨plain, others⟩ := forall_mem_cons.mp unguarded
    rw [frames_cons, raise]
    split
    case h_1 isGuarded | h_2 isGuarded => exact absurd isGuarded (plain _ _ _)
    case h_3 => exact ih others

end Unguarded

end Scope

section

variable {scope : Scope} {source target after : Nat} {before first second : Emitted} {body : Piece}
  {exits exits' done : Exits}

def EmittedLeads (scope : Scope) (emitted : Emitted) (source target : Nat) : Prop :=
  Joins emitted.edges source target ∨
    ∃ depth, (depth, source) ∈ emitted.breaks ∧ scope.after? depth = some target

def PieceLeads (scope : Scope) (after : Nat) (piece : Piece) (source target : Nat) : Prop :=
  EmittedLeads scope piece.emitted source target ∨ IsOpen piece.exits source ∧ target = after

theorem leads_append : EmittedLeads scope (first ++ second) source target ↔
    EmittedLeads scope first source target ∨ EmittedLeads scope second source target := by
  simp only [EmittedLeads, Emitted.edges_append, Emitted.breaks_append, joins_append,
    mem_append, or_and_right, exists_or]
  exact or_or_or_comm

theorem leads_without (none : emitted.breaks = []) :
    EmittedLeads scope emitted source target ↔ Joins emitted.edges source target := by
  simp [EmittedLeads, none]

theorem pieceLeads_append :
    PieceLeads scope after ⟨first ++ second, exits ++ exits'⟩ source target ↔
      PieceLeads scope after ⟨first, exits⟩ source target ∨
        PieceLeads scope after ⟨second, exits'⟩ source target := by
  rw [PieceLeads, leads_append, isOpen_append, or_and_right, or_or_or_comm]
  rfl

theorem pieceLeads_behind :
    PieceLeads scope after ⟨before ++ body.emitted, body.exits⟩ source target ↔
      EmittedLeads scope before source target ∨ PieceLeads scope after body source target := by
  rw [PieceLeads, leads_append, or_assoc]
  rfl

theorem isOpen_breaksAt :
    IsOpen (emitted.breaksAt depth) source ↔ (depth, source) ∈ emitted.breaks := by
  simp [IsOpen, Emitted.breaksAt]

theorem leads_cons : EmittedLeads ((frame, after) :: scope) emitted source target ↔
      EmittedLeads scope emitted source target ∨
        IsOpen (emitted.breaksAt scope.length) source ∧ target = after := by
  simp only [EmittedLeads, isOpen_breaksAt, Scope.after?_cons]
  constructor
  · rintro (joins | ⟨depth, listed, found⟩)
    · exact .inl (.inl joins)
    · split at found
      case isTrue here =>
        cases found
        exact .inr ⟨here ▸ listed, rfl⟩
      case isFalse => exact .inl (.inr ⟨depth, listed, found⟩)
  · rintro ((joins | ⟨depth, listed, found⟩) | ⟨listed, rfl⟩)
    · exact .inl joins
    · refine .inr ⟨depth, listed, ?_⟩
      rw [← Scope.after?_cons frame, Scope.after?_outer found]
    · exact .inr ⟨_, listed, if_pos rfl⟩

theorem pieceLeads_leave (frame : Frame) : PieceLeads scope after ⟨before ++ body.emitted,
      body.emitted.breaksAt scope.length ++ body.exits ++ done⟩ source target ↔
      EmittedLeads scope before source target ∨
        PieceLeads ((frame, after) :: scope) after body source target ∨
        IsOpen done source ∧ target = after := by
  simp only [PieceLeads, leads_append, leads_cons, isOpen_append, or_and_right, or_assoc]

theorem pieceLeads_closeLoop (frame : Frame) {again : Nat} {back : List ControlEdge}
    (backs : Joins back source target ↔ IsOpen body.exits source ∧ target = again) :
    PieceLeads scope after (closeLoop before body back scope.length done) source target ↔
      EmittedLeads scope before source target ∨
        PieceLeads ((frame, after) :: scope) again body source target ∨
        IsOpen done source ∧ target = after := by
  simp only [PieceLeads, closeLoop, leads_append, leads_cons, leads_without, Emitted.ofEdges,
    isOpen_append, or_and_right, backs, or_assoc]
  exact or_congr_right (or_congr_right or_left_comm)

section

variable (unguarded : scope.Unguarded) {exit id : Nat}

include unguarded

theorem leads_depart : EmittedLeads scope (depart scope.frames exit id) source target ↔
    source = id ∧ target = exit := by
  simp [unguarded.depart_eq, EmittedLeads, Joins]

theorem leads_raise : EmittedLeads scope (raise exit id scope.frames) source target ↔
    source = id ∧ target = exit := by
  simp [unguarded.raise_eq, EmittedLeads, Joins]

theorem leads_again (depth : Nat) {again : Nat} :
    EmittedLeads scope (jump scope.frames id (.again depth again)) source target ↔
      source = id ∧ target = again := by
  simp [jump, unguarded.finalizerFrom?_eq_none, EmittedLeads, Joins]

theorem leads_leave {after : Nat} (found : scope.after? depth = some after) :
    EmittedLeads scope (jump scope.frames id (.leave depth)) source target ↔
      source = id ∧ target = after := by
  simp [jump, unguarded.finalizerFrom?_eq_none, EmittedLeads, Joins, found, eq_comm]

theorem leads_send (after : Nat) (kind : Kind) :
    EmittedLeads scope (send exit scope.frames id (aimOf? scope.frames kind)) source target ↔
      source = id ∧ target = (scope.env exit).next after (match kind with
        | .breakStmt label => .broken label
        | .continueStmt label => .continued label
        | _ => .departed) := by
  cases kind
  case breakStmt label =>
    rcases scope.breakAim?_frames exit label with ⟨absent, outside⟩ | ⟨depth, present, found⟩
    · simp only [aimOf?, absent, send, Env.next, Scope.env, outside]
      exact leads_depart unguarded
    · simp only [aimOf?, present, send]
      exact leads_leave unguarded found
  case continueStmt label =>
    rcases scope.continueAim?_frames exit label with ⟨absent, outside⟩ | ⟨depth, present⟩
    · simp only [aimOf?, absent, send, Env.next, Scope.env, outside]
      exact leads_depart unguarded
    · simp only [aimOf?, present, send]
      exact leads_again unguarded depth
  all_goals exact leads_depart unguarded

end

end

def Draws (scope : Scope) (env : Env) (after : Nat) (piece : Exits → Piece) (code : Code) : Prop :=
  ∀ preds source target, PieceLeads scope after (piece preds) source target ↔
    IsOpen preds source ∧ target = code.start after ∨ code.Goes env after source target

namespace Draws

variable {scope : Scope} {env : Env} {after : Nat} {piece piece' : Exits → Piece}
  {first second : Code}

theorem congr {code' : Code} (draws : Draws scope env after piece code)
    (same : ∀ preds, piece' preds = piece preds) (same' : code' = code) :
    Draws scope env after piece' code' := by
  obtain rfl := funext same
  exact same' ▸ draws

theorem skip : Draws scope env after (fun preds => ⟨{}, preds⟩) .skip := by
  intro preds source target
  simp [PieceLeads, leads_without, not_joins_nil, Code.Goes]

theorem visit (id : Nat) : Draws scope env after (Piece.simple id) (.visit id) := by
  intro preds source target
  rw [PieceLeads, Piece.simple, leads_without rfl, joins_connect, isOpen_single]
  rfl

theorem stop (id : Nat) (ending : Ending) {away : Emitted}
    (leads : ∀ source target, EmittedLeads scope away source target ↔
      source = id ∧ target = env.next after ending) : Draws scope env after
      (fun preds => ⟨{ vertices := [id], edges := connect preds id } ++ away, []⟩)
      (.stop id ending) := by
  intro preds source target
  simp only [PieceLeads, leads_append, leads_without, joins_connect, leads, IsOpen,
    not_mem_nil, exists_false, false_and, or_false]
  rfl

theorem seq (here : Draws scope env (second.start after) piece first)
    (there : Draws scope env after piece' second) : Draws scope env after (fun preds =>
      ⟨(piece preds).emitted ++ (piece' (piece preds).exits).emitted,
        (piece' (piece preds).exits).exits⟩) (.seq first second) := by
  intro preds source target
  have one := here preds source target
  have more := there (piece preds).exits source target
  simp only [PieceLeads, leads_append, start_seq, Code.Goes] at one more ⊢
  rw [or_assoc, more, ← or_assoc, one, or_assoc]

theorem branch (id : Nat) {yes no : Code} (here : Draws scope env after piece yes)
    (there : Draws scope env after piece' no) : Draws scope env after (fun preds =>
      ⟨{ vertices := [id], edges := connect preds id } ++ (piece [(id, .whenTrue)]).emitted ++
          (piece' [(id, .whenFalse)]).emitted,
        (piece [(id, .whenTrue)]).exits ++ (piece' [(id, .whenFalse)]).exits⟩)
      (.branch id yes no) := by
  intro preds source target
  have first := here [(id, .whenTrue)] source target
  have second := there [(id, .whenFalse)] source target
  rw [isOpen_single] at first second
  rw [pieceLeads_append, pieceLeads_behind, leads_without rfl, joins_connect, first, second,
    Code.Goes, and_or_left, or_assoc, or_or_or_comm]
  rfl

theorem loop (id : Nat) (tested : Bool) (step : Option Nat) {labels : List String}
    (turn : Draws ((frame, after) :: scope)
      ((env.leaving none after).looping labels (step.getD id)) (step.getD id) piece body) :
    Draws scope env after (fun preds => closeLoop
      ({ vertices := [id], edges := connect preds id } ++
        match step with
        | some update => { vertices := [update], edges := [⟨update, id, .loopBack⟩] }
        | none => {})
      (piece [(id, .whenTrue)])
      (match step with
        | some update => connect (piece [(id, .whenTrue)]).exits update
        | none => connectAs .loopBack (piece [(id, .whenTrue)]).exits id)
      scope.length (if tested then [(id, .whenFalse)] else []))
      (.loop labels id tested step body) := by
  intro preds source target
  have inner := turn [(id, .whenTrue)] source target
  have ends : IsOpen (if tested then [(id, .whenFalse)] else []) source ↔ tested ∧ source = id := by
    cases tested <;> simp [IsOpen]
  rw [isOpen_single] at inner
  -- On both sides the loop is entered, turns, goes back and is left.
  cases step with
  | none =>
    rw [Option.getD_none] at inner
    rw [pieceLeads_closeLoop frame joins_connectAs, Emitted.append_nil, leads_without rfl,
      joins_connect, inner, ends, start_loop, Code.Goes, Option.getD_none]
    grind
  | some update =>
    rw [Option.getD_some] at inner
    rw [pieceLeads_closeLoop frame joins_connect, leads_append, leads_without rfl, joins_connect,
      leads_without rfl, joins_single, inner, ends, start_loop, Code.Goes, Option.getD_some]
    grind

theorem labelled {label : String} {code : Code}
    (inner : Draws scope (env.leaving (some label) after) after piece code) :
    Draws scope env after piece (.labelled label code) :=
  inner

theorem leave (inner : Draws ((frame, after) :: scope) env after piece code) :
    Draws scope env after (fun preds => ⟨(piece preds).emitted,
      (piece preds).exits ++ (piece preds).emitted.breaksAt scope.length⟩) code := by
  intro preds source target
  rw [← inner preds source target]
  simp only [PieceLeads, leads_cons, isOpen_append, or_and_right, or_assoc]
  exact or_congr_right or_comm

end Draws

def DrawsCases (scope : Scope) (env : Env) (after head : Nat) (piece : Exits → Piece)
    (cases : Code) : Prop :=
  ∀ preds source target, PieceLeads scope after (piece preds) source target ↔
    IsOpen preds source ∧ target = cases.start after ∨
      source = head ∧ (∃ entry ∈ cases.entries, target = entry.start after) ∨
      cases.Goes env after source target

namespace DrawsCases

variable {scope : Scope} {env : Env} {after head : Nat} {piece piece' : Exits → Piece}

theorem skip : DrawsCases scope env after head (fun preds => ⟨{}, preds⟩) .skip := by
  intro preds source target
  simp [PieceLeads, leads_without, not_joins_nil, Code.Goes, entries]

theorem case {rest : Code} (here : Draws scope env (rest.start after) piece body)
    (there : DrawsCases scope env after head piece' rest) :
    DrawsCases scope env after head (fun preds =>
      ⟨{ vertices := [id], edges := ⟨head, id, .whenTrue⟩ :: connectAs .fallthrough preds id } ++
          (piece [(id, .fallthrough)]).emitted ++
          (piece' (piece [(id, .fallthrough)]).exits).emitted,
        (piece' (piece [(id, .fallthrough)]).exits).exits⟩)
      (.case id body rest) := by
  intro preds source target
  have first := here [(id, .fallthrough)] source target
  have second := there (piece [(id, .fallthrough)]).exits source target
  rw [PieceLeads, isOpen_single] at first
  have enter : Joins (⟨head, id, .whenTrue⟩ :: connectAs .fallthrough preds id) source target ↔
      source = head ∧ target = id ∨ IsOpen preds source ∧ target = id := by
    have more : Joins (connectAs .fallthrough preds id) source target ↔ _ := joins_connectAs
    rw [← more]
    simp [Joins, exists_or]
  -- What the body leaves open goes on with the other cases.
  rw [pieceLeads_behind, second, leads_append, leads_without rfl, enter, or_assoc,
    ← @or_assoc (EmittedLeads ..), first]
  simp only [start_case, Code.Goes, entries, mem_cons, exists_eq_or_imp]
  grind

theorem choice (hasDefault : Bool) {cases : Code}
    (inner : DrawsCases ((frame, after) :: scope) (env.leaving none after) after id piece cases) :
    Draws scope env after (fun preds =>
      ⟨{ vertices := [id], edges := connect preds id } ++ (piece []).emitted,
        (piece []).emitted.breaksAt scope.length ++ (piece []).exits ++
          if hasDefault then [] else [(id, .whenFalse)]⟩)
      (.choice id hasDefault cases) := by
  intro preds source target
  have first := inner [] source target
  have none : ¬IsOpen [] source := by simp [IsOpen]
  have skips : IsOpen (if hasDefault then [] else [(id, .whenFalse)]) source ↔
      ¬hasDefault ∧ source = id := by
    cases hasDefault <;> simp [IsOpen]
  simp only [none, false_and, false_or] at first
  rw [pieceLeads_leave frame, leads_without rfl, joins_connect, first, skips, start_choice,
    Code.Goes]
  grind

end DrawsCases

theorem Code.ofTree_choose (isIf : node.kind = .ifStmt hasElse)
    (test consequent : Syntree) (alternate : Option Syntree) (labels : List String) :
    ofTree labels (.node node (test :: consequent :: alternate.toList)) =
      .branch node.id (.ofTree [] consequent) (.ofLast alternate.toList) := by
  cases alternate <;> rw [ofTree_def] <;>
    simp only [isIf, Option.toList_none, Option.toList_some, ofLast]

theorem Code.ofTree_simple (plain : steers node.kind children = false) (labels : List String) :
    ofTree labels (.node node children) = .visit node.id := by
  unfold ofTree
  split <;> simp_all [steers]

def Drawn (exit : Nat) (tree : Syntree) : Prop :=
  ∀ labels, labels = [] ∨ tree.label.kind.takesLabel → ∀ scope : Scope, scope.Unguarded → ∀ after,
    Draws scope ((scope.env exit).leavingAll labels after) after
      (flow exit scope.frames labels tree) (.ofTree labels tree)

section

variable {exit : Nat} {scope : Scope} (unguarded : scope.Unguarded)

include unguarded

theorem Drawn.plain (drawn : Drawn exit tree) (after : Nat) :
    Draws scope (scope.env exit) after (flow exit scope.frames [] tree) (.ofTree [] tree) := by
  have free := drawn [] (.inl rfl) scope unguarded after
  rwa [Env.leavingAll_nil] at free

theorem draws_flowAll (each : ∀ tree ∈ trees, Drawn exit tree) (after : Nat) :
    Draws scope (scope.env exit) after (flowAll exit scope.frames trees) (.ofAll trees) := by
  induction trees with
  | nil => exact .skip
  | cons tree rest ih =>
    obtain ⟨here, there⟩ := forall_mem_cons.mp each
    exact .seq (here.plain unguarded _) (ih there)

theorem draws_flowLast (each : ∀ tree ∈ trees, Drawn exit tree) (after : Nat) :
    Draws scope (scope.env exit) after (flowLast exit scope.frames trees) (.ofLast trees) := by
  induction trees with
  | nil => exact .skip
  | cons tree rest ih =>
    obtain ⟨here, there⟩ := forall_mem_cons.mp each
    cases rest with
    | nil => exact here.plain unguarded after
    | cons next rest => exact ih there

theorem draws_flowCases
    (each : ∀ tree ∈ cases, ∀ isDefault, tree.label.kind = .switchCase isDefault →
      ∀ part ∈ tree.children, Drawn exit part) (head after : Nat) :
    DrawsCases scope (scope.env exit) after head (flowCases exit scope.frames head cases)
      (.ofCases cases) := by
  induction cases with
  | nil => exact .skip
  | cons tree rest ih =>
    obtain ⟨here, there⟩ := forall_mem_cons.mp each
    obtain ⟨node, parts⟩ := tree
    intro preds source target
    unfold flowCases
    split
    case h_1 isCase =>
      rw [ofCases.eq_2 _ _ _ isCase]
      exact DrawsCases.case (draws_flowAll unguarded (here _ isCase) _) (ih there) preds source
        target
    case h_2 isCase =>
      rw [ofCases.eq_3 _ _ _ _ isCase]
      exact DrawsCases.case (draws_flowAll unguarded (forall_mem_cons.mp (here _ isCase)).2 _)
        (ih there) preds source target
    case h_3 first second =>
      rw [ofCases.eq_4 _ _ _ first second]
      exact ih there preds source target

end

theorem Drawn.unlabelled {exit : Nat} (plain : tree.label.kind.takesLabel = false)
    (draws : ∀ scope : Scope, scope.Unguarded → ∀ after,
      Draws scope (scope.env exit) after (flow exit scope.frames [] tree) (.ofTree [] tree)) :
    Drawn exit tree := by
  intro labels takes scope unguarded after
  obtain rfl : labels = [] := takes.resolve_right (by simp [plain])
  rw [Env.leavingAll_nil]
  exact draws scope unguarded after

section

variable {exit : Nat} {node : Node}

theorem drawn_block (isBlock : node.kind = .block) {stmts : List Syntree}
    (each : ∀ stmt ∈ stmts, Drawn exit stmt) : Drawn exit (.node node stmts) := by
  refine .unlabelled (by simp [Rose.label, isBlock, Kind.takesLabel])
    fun scope unguarded after => ?_
  refine (draws_flowAll unguarded each after).congr (fun preds => ?_) ?_
  · simp only [flow, isBlock]
  · simp only [ofTree, isBlock]

theorem drawn_choose (isIf : node.kind = .ifStmt hasElse)
    {test consequent : Syntree} {alternate : Option Syntree} (here : Drawn exit consequent)
    (there : ∀ stmt ∈ alternate.toList, Drawn exit stmt) :
    Drawn exit (.node node (test :: consequent :: alternate.toList)) := by
  refine .unlabelled (by simp [Rose.label, isIf, Kind.takesLabel])
    fun scope unguarded after => ?_
  refine (Draws.branch node.id (here.plain unguarded after)
    (draws_flowLast unguarded there after)).congr (fun preds => flow_choose isIf ..) ?_
  exact ofTree_choose isIf ..

theorem drawn_while (isLoop : node.kind = .whileStmt ∨ node.kind = .forIn ∨ node.kind = .forOf)
    (each : ∀ part ∈ parts, Drawn exit part) : Drawn exit (.node node parts) := by
  intro labels _ scope unguarded after
  have inner := draws_flowLast (unguarded.cons (.loop node.id) labels (by simp) after) each node.id
  rw [Scope.env_loop] at inner
  refine (Draws.loop node.id true none inner).congr (fun preds => ?_) ?_
  · rcases isLoop with isLoop | isLoop | isLoop <;>
      simp only [flow, isLoop, Scope.length_frames, Emitted.append_nil] <;> rfl
  · rcases isLoop with isLoop | isLoop | isLoop <;> simp only [ofTree, isLoop]

theorem drawn_jump (jumps : isJump node.kind) (children : List Syntree) :
    Drawn exit (.node node children) := by
  refine .unlabelled ?_ fun scope unguarded after => ?_
  · rw [Rose.label]
    revert jumps
    cases node.kind <;> simp [isJump, Kind.takesLabel]
  have leads (source target : Nat) :=
    @leads_send scope source target unguarded exit node.id after node.kind
  cases kind : node.kind <;> rw [kind] at jumps leads <;> try cases jumps
  all_goals
    refine (Draws.stop node.id _ leads).congr (fun preds => ?_) ?_
    · rw [flow_jump (by rw [kind]; rfl), kind]
    · rw [ofTree_def]
      simp only [kind]

theorem drawn_throw (isThrow : node.kind = .throwStmt) (children : List Syntree) :
    Drawn exit (.node node children) := by
  refine .unlabelled (by simp [Rose.label, isThrow, Kind.takesLabel])
    fun scope unguarded after => ?_
  refine (Draws.stop node.id .departed fun _ _ => leads_raise unguarded).congr (fun preds => ?_) ?_
  · simp only [flow, isThrow]
    rfl
  · simp only [ofTree, isThrow]

theorem drawn_switch (isSwitch : node.kind = .switchStmt) {subject : Syntree}
    (each : ∀ case ∈ cases, ∀ isDefault, case.label.kind = .switchCase isDefault →
      ∀ part ∈ case.children, Drawn exit part) : Drawn exit (.node node (subject :: cases)) := by
  refine .unlabelled (by simp [Rose.label, isSwitch, Kind.takesLabel])
    fun scope unguarded after => ?_
  have inner := draws_flowCases (unguarded.cons .choice [] (by simp) after) each node.id after
  rw [Scope.env_choice, Env.leavingAll_nil, Scope.frames_cons] at inner
  refine (DrawsCases.choice (cases.any fun case => case.label.kind == .switchCase true) inner).congr
    (fun preds => ?_) ?_
  · simp only [flow, isSwitch, Scope.length_frames]
  · simp only [ofTree, isSwitch]

theorem drawn_with (isWith : node.kind = .withStmt)
    (each : ∀ part ∈ parts, Drawn exit part) : Drawn exit (.node node parts) := by
  refine .unlabelled (by simp [Rose.label, isWith, Kind.takesLabel])
    fun scope unguarded after => ?_
  refine (Draws.seq (.visit node.id) (draws_flowLast unguarded each after)).congr
    (fun preds => ?_) ?_
  · simp only [flow, isWith]
    rfl
  · simp only [ofTree, isWith]

theorem drawn_for {hasInit hasTest hasUpdate : Bool}
    (isFor : node.kind = .forStmt hasInit hasTest hasUpdate)
    (numbered : node.children = parts.map (·.label.id))
    (each : ∀ part ∈ parts, Drawn exit part) : Drawn exit (.node node parts) := by
  intro labels _ scope unguarded after
  generalize isStep : (if hasUpdate then parts[hasInit.toNat + hasTest.toNat]? else none).map
    (·.label.id) = step
  have isUpdate : (if hasUpdate then node.children[hasInit.toNat + hasTest.toNat]? else none) =
      step := by
    rw [← isStep, numbered]
    split <;> simp
  have inner := draws_flowLast (unguarded.cons (.loop (step.getD node.id)) labels (by simp) after)
    each (step.getD node.id)
  rw [Scope.env_loop] at inner
  have loop := Draws.loop node.id hasTest step inner
  cases hasInit with
  | false =>
    refine loop.congr (fun preds => ?_) ?_
    · rw [flow_def]
      simp only [isFor, isUpdate, Scope.length_frames]
      cases step <;> rfl
    · rw [ofTree_def]
      simp only [isFor, isStep]
      rfl
  | true =>
    cases parts with
    | nil =>
      refine loop.congr (fun preds => ?_) ?_
      · rw [flow_def]
        simp only [isFor, isUpdate, Scope.length_frames]
        simp only [numbered]
        cases step <;> rfl
      · rw [ofTree_def]
        simp only [isFor, isStep]
        rfl
    | cons init rest =>
      refine (Draws.seq (.visit init.label.id) loop).congr (fun preds => ?_) ?_
      · rw [flow_def]
        simp only [isFor, isUpdate, Scope.length_frames, closeLoop, Emitted.append_assoc]
        simp only [numbered]
        cases step <;> rfl
      · rw [ofTree_def]
        simp only [isFor, isStep]
        rfl

theorem drawn_labelled {label : String} (isLabel : node.kind = .labeled label) {body : Syntree}
    {rest : List Syntree} (inner : Drawn exit body) : Drawn exit (.node node (body :: rest)) := by
  intro labels _ scope unguarded after
  have code : ofTree labels (.node node (body :: rest)) =
      .labelled label (.ofTree (labels ++ [label]) body) := by
    rw [ofTree_def]
    simp only [isLabel]
  by_cases takes : body.label.kind.takesLabel
  · have whole := inner (labels ++ [label]) (.inr takes) scope unguarded after
    rw [Env.leavingAll_append] at whole
    refine whole.labelled.congr (fun preds => ?_) code
    rw [flow_def]
    simp only [isLabel, takes, if_true]
  · have whole := inner.plain (unguarded.cons .labelled (labels ++ [label]) (by simp) after) after
    rw [Scope.env_labelled, Env.leavingAll_append] at whole
    rw [ofTree_of_unlabelled takes] at code
    refine whole.leave.labelled.congr (fun preds => ?_) code
    rw [flow_def]
    simp only [isLabel, takes, Scope.length_frames]
    rfl

theorem drawn_simple (plain : steers node.kind children = false) :
    Drawn exit (.node node children) := by
  intro labels _ scope _ after
  exact (Draws.visit node.id).congr (fun preds => flow_simple plain ..)
    (ofTree_simple plain labels)

end

def isStructured : Kind → Bool
  | .doWhile | .tryStmt .. => false
  | _ => true

section

variable {arena : Arena} (well : arena.WellNumbered) {owner : Nat}
  (plain : ∀ id < arena.size, arena.owner id = owner → isStructured (arena.kind id)) (exit : Nat)

include well plain

theorem drawn_node (held : Held arena owner (.node node children))
    (each : ∀ child ∈ children, ∀ part ∈ child.subtrees, Held arena owner part → Drawn exit part) :
    Drawn exit (.node node children) := by
  have parts (open_ : node.kind.setsApart = false) : ∀ child ∈ children, Drawn exit child :=
    fun child below => each child below child child.self_mem_subtrees
      (held.child well open_ child below)
  have structured : isStructured node.kind := by
    have kind : arena.kind node.id = node.kind := well.kind_eq held.inside
    exact kind ▸ plain node.id held.root.known held.root.owned
  cases form node children with
  | block isBlock => exact drawn_block isBlock (parts (by rw [isBlock]; rfl))
  | choose isIf =>
    have parts := parts (by rw [isIf]; rfl)
    exact drawn_choose isIf (parts _ (by simp)) fun stmt below => parts stmt (by simp_all)
  | loop isLoop =>
    refine drawn_while isLoop (parts ?_)
    rcases isLoop with isLoop | isLoop | isLoop <;> rw [isLoop] <;> rfl
  | forLoop isFor =>
    exact drawn_for isFor (well.linked held.inside _ (Rose.self_mem_subtrees _))
      (parts (by rw [isFor]; rfl))
  | labelled isLabel =>
    exact drawn_labelled isLabel (parts (by rw [isLabel]; rfl) _ mem_cons_self)
  | breaks isKind | continues isKind | returns isKind =>
    exact drawn_jump (by rw [isKind]; rfl) children
  | throws isThrow => exact drawn_throw isThrow children
  | @switch subject cases isSwitch =>
    refine drawn_switch isSwitch fun case member isDefault isCase part inner => ?_
    have below := mem_cons_of_mem subject member
    have inside := held.child well (by rw [isSwitch]; rfl) case below
    obtain ⟨top, stmts⟩ := case
    have open_ : top.kind.setsApart = false := by
      rw [show top.kind = _ from isCase]
      rfl
    exact each _ below part (Rose.child_mem_subtrees inner) (inside.child well open_ part inner)
  | with_ isWith => exact drawn_with isWith (parts (by rw [isWith]; rfl))
  | simple plain => exact drawn_simple plain
  | doWhile other | guarded other | finalized other =>
    simp [other, isStructured] at structured

theorem drawn (held : Held arena owner tree) : Drawn exit tree := by
  induction tree using Rose.bySubtrees with
  | node node children ih => exact drawn_node well plain exit held ih

theorem draws_body (inside : tree ∈ arena.tree.subtrees)
    (owns : tree.label.kind.isOwner) (owned : tree.label.id = owner) :
    Draws [] (Scope.env [] exit) exit (ControlGraph.body exit tree) (.ofOwner tree) := by
  subst owned
  have unguarded : Scope.Unguarded [] := forall_mem_nil _
  have held := held_of_owner well inside owns
  intro preds
  unfold ControlGraph.body
  split
  case h_1 paramCount _ isFunction =>
    simp only [ofOwner, isFunction]
    rcases found : tree.children[2 + paramCount]? with _ | body
    · exact Draws.skip preds
    · have below := held body (mem_of_getElem? found)
      by_cases isBlock : body.label.kind = .block
      · obtain ⟨node, stmts⟩ := body
        simp only [isBlock, if_true]
        refine draws_flowAll unguarded (fun stmt member => drawn well plain exit ?_) exit preds
        have isBlock : node.kind = .block := isBlock
        exact below.child well (by rw [isBlock]; rfl) stmt member
      · simp only [isBlock, if_false]
        exact Draws.visit body.label.id preds
  case h_2 other =>
    have stmts : ofOwner tree = .ofAll (tree.children.drop 2) := by
      unfold ofOwner
      split
      case h_1 isFunction => exact (other _ _ _ _ isFunction).elim
      case h_2 => rfl
    rw [stmts]
    exact draws_flowAll unguarded (fun stmt member =>
      drawn well plain exit (held stmt (mem_of_mem_drop member))) exit preds

end

end Seepage.Structured

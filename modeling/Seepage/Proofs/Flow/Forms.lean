import Mathlib.Logic.Basic
import Seepage.Flow.Control
import Seepage.Proofs.Tree.Numbering

set_option autoImplicit false

namespace Seepage

open List

variable {node : Node} {children : List Syntree}

alias flow_def := flow.eq_def

def steers : Kind → List Syntree → Bool
  | .block, _ | .whileStmt, _ | .forIn, _ | .forOf, _ | .forStmt .., _ | .withStmt, _ => true
  | .breakStmt _, _ | .continueStmt _, _ | .returnStmt _, _ | .throwStmt, _ => true
  | .ifStmt _, [_, _] | .ifStmt _, [_, _, _] => true
  | .doWhile, _ :: _ | .labeled _, _ :: _ | .switchStmt, _ :: _ => true
  | .tryStmt true false, [_, _] | .tryStmt false true, [_, _] => true
  | .tryStmt true true, [_, _, _] | .tryStmt false false, [_] => true
  | _, _ => false

inductive Form (node : Node) : List Syntree → Prop where
  | block {stmts : List Syntree} (isBlock : node.kind = .block) : Form node stmts
  | choose {hasElse : Bool} {test consequent : Syntree} {alternate : Option Syntree}
    (isIf : node.kind = .ifStmt hasElse) : Form node (test :: consequent :: alternate.toList)
  | loop {parts : List Syntree}
    (isLoop : node.kind = .whileStmt ∨ node.kind = .forIn ∨ node.kind = .forOf) : Form node parts
  | doWhile {stmt : Syntree} {rest : List Syntree} (isLoop : node.kind = .doWhile) :
    Form node (stmt :: rest)
  | forLoop {hasInit hasTest hasUpdate : Bool} {parts : List Syntree}
    (isFor : node.kind = .forStmt hasInit hasTest hasUpdate) : Form node parts
  | labelled {label : String} {body : Syntree} {rest : List Syntree}
    (isLabel : node.kind = .labeled label) : Form node (body :: rest)
  | breaks {label : Option String} {parts : List Syntree} (isBreak : node.kind = .breakStmt label) :
    Form node parts
  | continues {label : Option String} {parts : List Syntree}
    (isContinue : node.kind = .continueStmt label) : Form node parts
  | returns {hasValue : Bool} {parts : List Syntree} (isReturn : node.kind = .returnStmt hasValue) :
    Form node parts
  | throws {parts : List Syntree} (isThrow : node.kind = .throwStmt) : Form node parts
  | switch {subject : Syntree} {cases : List Syntree} (isSwitch : node.kind = .switchStmt) :
    Form node (subject :: cases)
  | with_ {parts : List Syntree} (isWith : node.kind = .withStmt) : Form node parts
  | guarded {block : Syntree} {handler : Option Syntree}
    (isTry : node.kind = .tryStmt handler.isSome false) : Form node (block :: handler.toList)
  | finalized {block : Syntree} {handler : Option Syntree} {finalizer : Node}
    {stmts : List Syntree} (isTry : node.kind = .tryStmt handler.isSome true) :
    Form node (block :: (handler.toList ++ [.node finalizer stmts]))
  | simple {parts : List Syntree} (plain : steers node.kind parts = false) : Form node parts

theorem form (node : Node) (children : List Syntree) : Form node children := by
  cases plain : steers node.kind children with
  | false => exact .simple plain
  | true =>
    unfold steers at plain
    split at plain
    case h_1 isBlock => exact .block isBlock
    case h_2 isLoop => exact .loop (.inl isLoop)
    case h_3 isLoop => exact .loop (.inr (.inl isLoop))
    case h_4 isLoop => exact .loop (.inr (.inr isLoop))
    case h_5 isFor => exact .forLoop isFor
    case h_6 isWith => exact .with_ isWith
    case h_7 isBreak => exact .breaks isBreak
    case h_8 isContinue => exact .continues isContinue
    case h_9 isReturn => exact .returns isReturn
    case h_10 isThrow => exact .throws isThrow
    case h_11 isIf => exact @Form.choose node _ _ _ none isIf
    case h_12 alternate isIf => exact @Form.choose node _ _ _ (some alternate) isIf
    case h_13 isLoop => exact .doWhile isLoop
    case h_14 isLabel => exact .labelled isLabel
    case h_15 isSwitch => exact .switch isSwitch
    case h_16 handler isTry => exact @Form.guarded node _ (some handler) isTry
    case h_17 finalizer isTry => cases finalizer; exact @Form.finalized node _ none _ _ isTry
    case h_18 handler finalizer isTry =>
      cases finalizer
      exact @Form.finalized node _ (some handler) _ _ isTry
    case h_19 isTry => exact @Form.guarded node _ none isTry
    case h_20 => cases plain

theorem flow_simple (plain : steers node.kind children = false) (exit : Nat) (frames : List Frame)
    (labels : List String) (preds : Exits) :
    flow exit frames labels (.node node children) preds = .simple node.id preds := by
  apply flow.eq_21
  all_goals (intros; simp_all [steers])

def send (exit : Nat) (frames : List Frame) (source : Nat) : Option Aim → Emitted
  | some aim => jump frames source aim
  | none => depart frames exit source

def isJump : Kind → Bool
  | .breakStmt _ | .continueStmt _ | .returnStmt _ => true
  | _ => false

def aimOf? (frames : List Frame) : Kind → Option Aim
  | .breakStmt label => breakAim? label frames
  | .continueStmt label => continueAim? label frames
  | _ => none

theorem flow_jump (jumps : isJump node.kind) (children : List Syntree) (exit : Nat)
    (frames : List Frame) (labels : List String) (preds : Exits) :
    flow exit frames labels (.node node children) preds =
      ⟨{ vertices := [node.id], edges := connect preds node.id } ++
        send exit frames node.id (aimOf? frames node.kind), []⟩ := by
  rw [flow_def]
  cases kind : node.kind <;> rw [kind] at jumps <;> try cases jumps
  case breakStmt label =>
    cases aims : breakAim? label frames <;> simp only [kind, aims, aimOf?, send]
  case continueStmt label =>
    cases aims : continueAim? label frames <;> simp only [kind, aims, aimOf?, send]
  case returnStmt => simp only [kind, aimOf?, send]

theorem flow_loop (isLoop : node.kind = .whileStmt ∨ node.kind = .forIn ∨ node.kind = .forOf)
    (parts : List Syntree) (exit : Nat) (frames : List Frame) (labels : List String)
    (preds : Exits) :
    flow exit frames labels (.node node parts) preds =
      let body := flowLast exit (⟨.loop node.id, labels⟩ :: frames) parts [(node.id, .whenTrue)]
      closeLoop { vertices := [node.id], edges := connect preds node.id } body
        (connectAs .loopBack body.exits node.id) frames.length [(node.id, .whenFalse)] := by
  rcases isLoop with isLoop | isLoop | isLoop <;> simp only [flow, isLoop]

theorem Emitted.append_assoc (first second third : Emitted) :
    first ++ second ++ third = first ++ (second ++ third) := by
  change Emitted.append (Emitted.append ..) _ = Emitted.append _ (Emitted.append ..)
  simp only [Emitted.append, List.append_assoc]

theorem Emitted.append_nil (emitted : Emitted) : emitted ++ {} = emitted := by
  change Emitted.append emitted {} = emitted
  simp only [Emitted.append, List.append_nil]

theorem flow_choose {hasElse : Bool} (isIf : node.kind = .ifStmt hasElse)
    (test consequent : Syntree) (alternate : Option Syntree) (exit : Nat) (frames : List Frame)
    (labels : List String) (preds : Exits) :
    flow exit frames labels (.node node (test :: consequent :: alternate.toList)) preds =
      let yes := flow exit frames [] consequent [(node.id, .whenTrue)]
      let no := flowLast exit frames alternate.toList [(node.id, .whenFalse)]
      ⟨{ vertices := [node.id], edges := connect preds node.id } ++ yes.emitted ++ no.emitted,
        yes.exits ++ no.exits⟩ := by
  cases alternate <;> rw [flow_def] <;>
    simp only [isIf, Option.toList_none, Option.toList_some, flowLast, Emitted.append_nil]

theorem flowCases_cons (case : Syntree) (rest : List Syntree) (exit : Nat) (frames : List Frame)
    (head : Nat) (preds : Exits) :
    (∃ isDefault, case.label.kind = .switchCase isDefault ∧
      flowCases exit frames head (case :: rest) preds =
        let body := flowAll exit frames (case.children.drop (!isDefault).toNat)
          [(case.label.id, .fallthrough)]
        let others := flowCases exit frames head rest body.exits
        ⟨{ vertices := [case.label.id], edges := ⟨head, case.label.id, .whenTrue⟩ ::
            connectAs .fallthrough preds case.label.id } ++ body.emitted ++ others.emitted,
          others.exits⟩) ∨
    (∀ isDefault, case.label.kind = .switchCase isDefault →
      case.children.length < (!isDefault).toNat) ∧
      flowCases exit frames head (case :: rest) preds = flowCases exit frames head rest preds := by
  obtain ⟨node, parts⟩ := case
  rw [flowCases.eq_def _ _ _ (_ :: _)]
  dsimp only
  split
  case h_1 isCase => exact .inl ⟨true, isCase, rfl⟩
  case h_2 isCase => exact .inl ⟨false, isCase, rfl⟩
  case h_3 noDefault noCase =>
    refine .inr ⟨fun isDefault isCase => ?_, rfl⟩
    cases isDefault with
    | true => exact absurd isCase noDefault
    | false =>
      refine Nat.lt_of_not_le fun some => ?_
      obtain ⟨test, stmts, same⟩ := exists_cons_of_length_pos some
      exact noCase test stmts isCase same

section

variable (exit : Nat) (frames : List Frame) (id : Nat) (block : Syntree)

def guardedFlow (handler : Option Syntree) (finalizer : Option Nat) : Piece :=
  let frame (handling : Bool) : Frame :=
    ⟨.guarded (handler.map (·.label.id)) finalizer handling, []⟩
  let inner := flow exit (frame false :: frames) [] block [(id, .fallthrough)]
  match handler with
  | none => inner
  | some handler =>
    let caught := flowHandler exit (frame true :: frames) handler
    ⟨inner.emitted ++ .ofEdges (raising (id :: inner.emitted.vertices) handler.label.id) ++
      .vertex handler.label.id ++ caught.emitted, inner.exits ++ caught.exits⟩

def uncaught (handler : Option Syntree) (finalizer : Nat) : List Nat :=
  match handler with
  | none =>
    id :: (flow exit (⟨.guarded none (some finalizer) false, []⟩ :: frames) [] block
      [(id, .fallthrough)]).emitted.vertices
  | some handler =>
    (flowHandler exit (⟨.guarded (some handler.label.id) (some finalizer) true, []⟩ :: frames)
      handler).emitted.vertices

variable {node : Node} (handler : Option Syntree) (labels : List String) (preds : Exits)

theorem flow_guarded (isTry : node.kind = .tryStmt handler.isSome false) :
    flow exit frames labels (.node node (block :: handler.toList)) preds =
      let guarded := guardedFlow exit frames node.id block handler none
      ⟨{ vertices := [node.id], edges := connect preds node.id } ++ guarded.emitted,
        guarded.exits⟩ := by
  cases handler <;> simp only [flow, isTry, Option.toList, Option.isSome, guardedFlow,
    Option.map, Emitted.append_assoc]

theorem flow_finalized (finalizer : Node) (stmts : List Syntree)
    (isTry : node.kind = .tryStmt handler.isSome true) :
    flow exit frames labels (.node node (block :: (handler.toList ++ [.node finalizer stmts])))
        preds =
      let guarded := guardedFlow exit frames node.id block handler (some finalizer.id)
      let final := flowAll exit frames stmts [(finalizer.id, .fallthrough)]
      ⟨{ vertices := [node.id], edges := connect preds node.id } ++ .vertex finalizer.id ++
        guarded.emitted ++
        .ofEdges (raising (uncaught exit frames node.id block handler finalizer.id) finalizer.id) ++
        .ofEdges (connect guarded.exits finalizer.id) ++ final.emitted ++
        (if guarded.emitted.departs.contains frames.length then departAll frames exit final.exits
          else {}) ++
        resumeAll frames final.exits (guarded.emitted.resumesAt frames.length),
        final.exits⟩ := by
  cases handler <;> simp only [flow, isTry, Option.toList, Option.isSome, guardedFlow, uncaught,
    Option.map, nil_append, cons_append, Emitted.append_assoc]
  -- Going to the handler is no jump that has to be resumed.
  all_goals rfl

end

mutual

def firstVertex? : Syntree → Option Nat
  | .node node children =>
    match node.kind, children with
    | .block, stmts => firstVertexAny? stmts
    | .forStmt true _ _, init :: _ => some init.label.id
    | .doWhile, body :: _ => (firstVertex? body).or (some node.id)
    | .labeled _, body :: _ => firstVertex? body
    | _, _ => some node.id

def firstVertexAny? : List Syntree → Option Nat
  | [] => none
  | stmt :: rest => (firstVertex? stmt).or (firstVertexAny? rest)

end

def Kind.startsInside : Kind → Bool
  | .block | .forStmt true _ _ | .doWhile | .labeled _ => true
  | _ => false

theorem firstVertex?_own (plain : node.kind.startsInside = false)
    (children : List Syntree) : firstVertex? (.node node children) = some node.id := by
  unfold firstVertex?
  split <;> simp_all [Kind.startsInside]

def Rose.Linked (tree : Syntree) : Prop :=
  ∀ part ∈ tree.subtrees, part.label.children = part.children.map (·.label.id)

theorem Rose.Linked.child {tree child : Syntree} (linked : tree.Linked)
    (below : child ∈ tree.children) : child.Linked := fun part inside =>
  linked part (Rose.subtrees_trans inside (Rose.child_mem_subtrees below))

def Enters (piece : Exits → Piece) : Option Nat → Prop
  | some first => first ∈ (piece []).emitted.vertices ∧ ∀ preds,
      piece preds = ⟨.ofEdges (connect preds first) ++ (piece []).emitted, (piece []).exits⟩
  | none => ∀ preds, piece preds = ⟨{}, preds⟩

namespace Enters

variable {piece piece' : Exits → Piece} {first : Option Nat}

theorem head {id : Nat} (rest : Emitted) (exits : Exits) (whole : ∀ preds, piece preds =
      ⟨{ vertices := [id], edges := connect preds id } ++ rest, exits⟩) :
    Enters piece (some id) := by
  refine ⟨?_, fun preds => ?_⟩
  · rw [whole]
    exact mem_cons_self
  · rw [whole, whole []]
    rfl

theorem seq {next whole : Exits → Piece} {second : Option Nat} (here : Enters piece first)
    (there : Enters next second)
    (joined : ∀ preds, whole preds = ⟨(piece preds).emitted ++ (next (piece preds).exits).emitted,
      (next (piece preds).exits).exits⟩) : Enters whole (first.or second) := by
  cases first with
  | some id =>
    refine ⟨?_, fun preds => ?_⟩
    · rw [joined]
      exact mem_append_left _ here.1
    · rw [joined preds, joined [], here.2 preds, Emitted.append_assoc]
  | none =>
    cases second with
    | some id =>
      refine ⟨?_, fun preds => ?_⟩
      · rw [joined, here]
        exact there.1
      · rw [joined preds, joined [], here preds, here []]
        exact there.2 preds
    | none =>
      intro preds
      rw [joined, here]
      exact there preds

end Enters

section

variable {exit : Nat} {frames : List Frame}

theorem enters_flowAll {trees : List Syntree}
    (each : ∀ tree ∈ trees, Enters (flow exit frames [] tree) (firstVertex? tree)) :
    Enters (flowAll exit frames trees) (firstVertexAny? trees) := by
  induction trees with
  | nil => exact fun preds => by rw [flowAll]
  | cons tree rest ih =>
    obtain ⟨here, there⟩ := forall_mem_cons.mp each
    exact here.seq (ih there) fun preds => by rw [flowAll]

theorem enters_own {labels : List String} (plain : node.kind.startsInside = false) (rest : Emitted)
    (exits : Exits) (whole : ∀ preds, flow exit frames labels (.node node children) preds =
      ⟨{ vertices := [node.id], edges := connect preds node.id } ++ rest, exits⟩) :
    Enters (flow exit frames labels (.node node children)) (firstVertex? (.node node children)) := by
  rw [firstVertex?_own plain]
  exact .head rest exits whole

theorem enters_flow {tree : Syntree} (linked : tree.Linked) (exit : Nat) (frames : List Frame)
    (labels : List String) : Enters (flow exit frames labels tree) (firstVertex? tree) := by
  induction tree using Rose.byChildren generalizing frames labels with
  | node node children ih =>
    have below : ∀ child ∈ children, child.Linked := fun child member =>
      linked.child member
    cases form node children with
    | block isBlock =>
      have whole : flow exit frames labels (.node node children) = flowAll exit frames children := by
        funext preds
        simp only [flow, isBlock]
      unfold firstVertex?
      simp only [whole, isBlock]
      exact enters_flowAll fun child member => ih child member (below child member) frames []
    | choose isIf =>
      exact enters_own (by rw [isIf]; rfl) _ _ fun preds => by
        simp only [flow_choose isIf, Emitted.append_assoc]
        rfl
    | loop isLoop =>
      have plain : node.kind.startsInside = false := by
        rcases isLoop with isLoop | isLoop | isLoop <;> rw [isLoop] <;> rfl
      exact enters_own plain _ _ fun preds => by
        rcases isLoop with isLoop | isLoop | isLoop <;>
          simp only [flow, isLoop, closeLoop, Emitted.append_assoc] <;> rfl
    | @doWhile stmt rest isLoop =>
      have turn := ih stmt mem_cons_self (below stmt mem_cons_self)
        (⟨.loop node.id, labels⟩ :: frames) []
      unfold firstVertex?
      simp only [isLoop]
      cases first : firstVertex? stmt with
      | some id =>
        rw [first] at turn
        refine ⟨?_, fun preds => ?_⟩
        · simp only [flow, isLoop]
          exact mem_append_left _ turn.1
        · simp only [flow, isLoop, turn.2 preds, Emitted.append_assoc]
          rfl
      | none =>
        rw [first] at turn
        exact .head (.ofEdges [⟨node.id, (entryVertex? stmt).getD node.id, .loopBack⟩])
          [(node.id, .whenFalse)] fun preds => by
            simp only [flow, isLoop, turn preds]
            rfl
    | @forLoop hasInit hasTest hasUpdate _ isFor =>
      have named : node.children = children.map (·.label.id) :=
        linked (.node node children) (Rose.self_mem_subtrees _)
      unfold firstVertex?
      cases hasInit with
      | false =>
        simp only [isFor]
        exact .head _ _ fun preds => by
          rw [flow_def]
          simp only [isFor, closeLoop, Emitted.append_assoc]
          rfl
      | true =>
        cases children with
        | nil =>
          simp only [isFor]
          exact .head _ _ fun preds => by
            rw [flow_def]
            simp only [isFor, named, closeLoop, Emitted.append_assoc]
            rfl
        | cons start rest =>
          simp only [isFor]
          exact .head _ _ fun preds => by
            rw [flow_def]
            simp only [isFor, named, map_cons, Piece.simple, closeLoop, Emitted.append_assoc]
            rfl
    | @labelled label body rest isLabel =>
      have inner := ih body mem_cons_self (below body mem_cons_self)
      unfold firstVertex?
      simp only [isLabel]
      by_cases takes : body.label.kind.takesLabel
      · have whole : flow exit frames labels (.node node (body :: rest)) =
            flow exit frames (labels ++ [label]) body := by
          funext preds
          rw [flow_def]
          simp only [isLabel, takes, if_true]
        rw [whole]
        exact inner frames (labels ++ [label])
      · have whole (preds : Exits) := flow_def exit frames labels (.node node (body :: rest)) preds
        simp only [isLabel, takes] at whole
        have enters := inner (⟨.labelled, labels ++ [label]⟩ :: frames) []
        cases first : firstVertex? body with
        | some id =>
          rw [first] at enters
          refine ⟨?_, fun preds => ?_⟩
          · rw [whole]
            exact enters.1
          · rw [whole, whole [], enters.2 preds]
            rfl
        | none =>
          rw [first] at enters
          intro preds
          rw [whole, enters preds]
          exact congrArg (Piece.mk {}) (List.append_nil preds)
    | @breaks label _ isBreak =>
      cases aims : breakAim? label frames <;>
        exact enters_own (by rw [isBreak]; rfl) _ _ fun preds => by
          rw [flow_def]
          simp only [isBreak, aims]
          rfl
    | @continues label _ isContinue =>
      cases aims : continueAim? label frames <;>
        exact enters_own (by rw [isContinue]; rfl) _ _ fun preds => by
          rw [flow_def]
          simp only [isContinue, aims]
          rfl
    | returns isKind | throws isKind | switch isKind | with_ isKind =>
      exact enters_own (by rw [isKind]; rfl) _ _ fun preds => by
        rw [flow_def]
        simp only [isKind]
        rfl
    | guarded isTry =>
      exact enters_own (by rw [isTry]; rfl) _ _ fun preds => flow_guarded _ _ _ _ _ preds isTry
    | finalized isTry =>
      exact enters_own (by rw [isTry]; rfl) _ _ fun preds => by
        rw [flow_finalized _ _ _ _ _ preds _ _ isTry]
        simp only [Emitted.append_assoc]
        rfl
    | simple plain =>
      have own : firstVertex? (.node node children) = some node.id := by
        unfold firstVertex?
        split <;> simp_all [steers]
      rw [own]
      exact .head {} [(node.id, .fallthrough)] fun preds => by
        rw [flow_simple plain, Emitted.append_nil]
        rfl

end

end Seepage

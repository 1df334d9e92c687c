import Seepage.Flow.Piece

set_option autoImplicit false

namespace Seepage

namespace Kind

def takesLabel : Kind → Bool
  | .whileStmt | .doWhile | .forStmt .. | .forIn | .forOf | .labeled _ => true
  | _ => false

end Kind

mutual

-- The first vertex that control reaches when a statement is entered. An empty block has none.
def entryVertex? : Syntree → Option Nat
  | .node node children =>
    match node.kind, children with
    | .block, stmts => entryVertexAny? stmts
    | .forStmt true _ _, init :: _ => some init.label.id
    | .doWhile, body :: _ => (entryVertex? body).or (some node.id)
    | .labeled _, body :: _ => (entryVertex? body).or (some node.id)
    | _, _ => some node.id

def entryVertexAny? : List Syntree → Option Nat
  | [] => none
  | stmt :: rest => (entryVertex? stmt).or (entryVertexAny? rest)

end

def closeLoop (before : Emitted) (body : Piece) (back : List ControlEdge) (depth : Nat)
    (done : Exits) : Piece :=
  ⟨before ++ body.emitted ++ .ofEdges back, body.emitted.breaksAt depth ++ done⟩

def raising (vertices : List Nat) (target : Nat) : List ControlEdge :=
  vertices.map fun vertex => ⟨vertex, target, .exception⟩

def resumeAll (frames : List Frame) (exits : Exits) (aims : List Aim) : Emitted :=
  .concat (aims.map fun aim => .concat (exits.map fun (source, _) => jump frames source aim))

def departAll (frames : List Frame) (exit : Nat) (exits : Exits) : Emitted :=
  let (target, departs) := departure frames exit
  { edges := connectAs .jump exits target, departs }

mutual

def flow (exit : Nat) (frames : List Frame) (labels : List String) : Syntree → Exits → Piece
  | .node node children, preds =>
    let id := node.id
    let depth := frames.length
    let head : Emitted := { vertices := [id], edges := connect preds id }
    match node.kind, children with
    | .block, stmts => flowAll exit frames stmts preds
    | .ifStmt _, [_, consequent] =>
      let yes := flow exit frames [] consequent [(id, .whenTrue)]
      ⟨head ++ yes.emitted, yes.exits ++ [(id, .whenFalse)]⟩
    | .ifStmt _, [_, consequent, alternate] =>
      let yes := flow exit frames [] consequent [(id, .whenTrue)]
      let no := flow exit frames [] alternate [(id, .whenFalse)]
      ⟨head ++ yes.emitted ++ no.emitted, yes.exits ++ no.exits⟩
    | .whileStmt, parts | .forIn, parts | .forOf, parts =>
      let body := flowLast exit (⟨.loop id, labels⟩ :: frames) parts [(id, .whenTrue)]
      closeLoop head body (connectAs .loopBack body.exits id) depth [(id, .whenFalse)]
    | .doWhile, stmt :: _ =>
      let body := flow exit (⟨.loop id, labels⟩ :: frames) [] stmt preds
      let back : ControlEdge := ⟨id, (entryVertex? stmt).getD id, .loopBack⟩
      let close : Emitted := { vertices := [id], edges := connect body.exits id ++ [back] }
      ⟨body.emitted ++ close, body.emitted.breaksAt depth ++ [(id, .whenFalse)]⟩
    | .forStmt hasInit hasTest hasUpdate, parts =>
      let init : Piece := match hasInit, node.children with
        | true, first :: _ => .simple first preds
        | _, _ => ⟨{}, preds⟩
      let update := if hasUpdate then node.children[hasInit.toNat + hasTest.toNat]? else none
      let enter : Emitted := { vertices := [id], edges := connect init.exits id }
      let turn : Emitted := match update with
        | some update => { vertices := [update], edges := [⟨update, id, .loopBack⟩] }
        | none => {}
      let frame : Frame := ⟨.loop (update.getD id), labels⟩
      let body := flowLast exit (frame :: frames) parts [(id, .whenTrue)]
      let back := match update with
        | some update => connect body.exits update
        | none => connectAs .loopBack body.exits id
      closeLoop (init.emitted ++ enter ++ turn) body back depth
        (if hasTest then [(id, .whenFalse)] else [])
    | .labeled label, body :: _ =>
      if body.label.kind.takesLabel then flow exit frames (labels ++ [label]) body preds
      else
        let inner := flow exit (⟨.labelled, labels ++ [label]⟩ :: frames) [] body preds
        ⟨inner.emitted, inner.exits ++ inner.emitted.breaksAt depth⟩
    | .breakStmt label, _ =>
      match breakAim? label frames with
      | some aim => ⟨head ++ jump frames id aim, []⟩
      | none => ⟨head ++ depart frames exit id, []⟩
    | .continueStmt label, _ =>
      match continueAim? label frames with
      | some aim => ⟨head ++ jump frames id aim, []⟩
      | none => ⟨head ++ depart frames exit id, []⟩
    | .returnStmt _, _ => ⟨head ++ depart frames exit id, []⟩
    | .throwStmt, _ => ⟨head ++ raise exit id frames, []⟩
    | .switchStmt, _ :: cases =>
      let body := flowCases exit (⟨.choice, labels⟩ :: frames) id cases []
      let skip := if cases.any fun case => case.label.kind == .switchCase true then []
        else [(id, .whenFalse)]
      ⟨head ++ body.emitted, body.emitted.breaksAt depth ++ body.exits ++ skip⟩
    | .withStmt, parts =>
      let body := flowLast exit frames parts [(id, .fallthrough)]
      ⟨head ++ body.emitted, body.exits⟩
    | .tryStmt true false, [block, handler] =>
      let handlerId := handler.label.id
      let frame (handling : Bool) : Frame := ⟨.guarded (some handlerId) none handling, []⟩
      let inner := flow exit (frame false :: frames) [] block [(id, .fallthrough)]
      let caught := flowHandler exit (frame true :: frames) handler
      let raised := raising (id :: inner.emitted.vertices) handlerId
      ⟨head ++ inner.emitted ++ .ofEdges raised ++ .vertex handlerId ++ caught.emitted,
        inner.exits ++ caught.exits⟩
    | .tryStmt false true, [block, .node finalizer stmts] =>
      let frame : Frame := ⟨.guarded none (some finalizer.id) false, []⟩
      let inner := flow exit (frame :: frames) [] block [(id, .fallthrough)]
      let raised := raising (id :: inner.emitted.vertices) finalizer.id
      let final := flowAll exit frames stmts [(finalizer.id, .fallthrough)]
      let guarded := inner.emitted
      ⟨head ++ .vertex finalizer.id ++ guarded ++ .ofEdges raised ++
          .ofEdges (connect inner.exits finalizer.id) ++ final.emitted ++
          (if guarded.departs.contains depth then departAll frames exit final.exits else {}) ++
          resumeAll frames final.exits (guarded.resumesAt depth),
        final.exits⟩
    | .tryStmt true true, [block, handler, .node finalizer stmts] =>
      let handlerId := handler.label.id
      let frame (handling : Bool) : Frame :=
        ⟨.guarded (some handlerId) (some finalizer.id) handling, []⟩
      let inner := flow exit (frame false :: frames) [] block [(id, .fallthrough)]
      let caught := flowHandler exit (frame true :: frames) handler
      let raised := raising (id :: inner.emitted.vertices) handlerId
      let rethrown := raising caught.emitted.vertices finalizer.id
      let final := flowAll exit frames stmts [(finalizer.id, .fallthrough)]
      let guarded := inner.emitted ++ caught.emitted
      ⟨head ++ .vertex finalizer.id ++ inner.emitted ++ .ofEdges raised ++ .vertex handlerId ++
          caught.emitted ++ .ofEdges rethrown ++
          .ofEdges (connect (inner.exits ++ caught.exits) finalizer.id) ++ final.emitted ++
          (if guarded.departs.contains depth then departAll frames exit final.exits else {}) ++
          resumeAll frames final.exits (guarded.resumesAt depth),
        final.exits⟩
    | .tryStmt false false, [block] =>
      let frame : Frame := ⟨.guarded none none false, []⟩
      let inner := flow exit (frame :: frames) [] block [(id, .fallthrough)]
      ⟨head ++ inner.emitted, inner.exits⟩
    | _, _ => .simple id preds

def flowAll (exit : Nat) (frames : List Frame) : List Syntree → Exits → Piece
  | [], preds => ⟨{}, preds⟩
  | stmt :: rest, preds =>
    let first := flow exit frames [] stmt preds
    let others := flowAll exit frames rest first.exits
    ⟨first.emitted ++ others.emitted, others.exits⟩

def flowLast (exit : Nat) (frames : List Frame) : List Syntree → Exits → Piece
  | [], preds => ⟨{}, preds⟩
  | [body], preds => flow exit frames [] body preds
  | _ :: rest, preds => flowLast exit frames rest preds

def flowHandler (exit : Nat) (frames : List Frame) : Syntree → Piece
  | .node node parts => flowLast exit frames parts [(node.id, .fallthrough)]

def flowCases (exit : Nat) (frames : List Frame) (head : Nat) : List Syntree → Exits → Piece
  | [], preds => ⟨{}, preds⟩
  | .node node parts :: rest, preds =>
    let id := node.id
    let enter : Emitted :=
      { vertices := [id]
        edges := ⟨head, id, .whenTrue⟩ :: connectAs .fallthrough preds id }
    match node.kind, parts with
    | .switchCase true, stmts =>
      let body := flowAll exit frames stmts [(id, .fallthrough)]
      let others := flowCases exit frames head rest body.exits
      ⟨enter ++ body.emitted ++ others.emitted, others.exits⟩
    | .switchCase false, _ :: stmts =>
      let body := flowAll exit frames stmts [(id, .fallthrough)]
      let others := flowCases exit frames head rest body.exits
      ⟨enter ++ body.emitted ++ others.emitted, others.exits⟩
    | _, _ => flowCases exit frames head rest preds

end

end Seepage

import Seepage.Tree.Arena

set_option autoImplicit false

namespace Seepage

inductive ControlLabel where
  | fallthrough
  | whenTrue
  | whenFalse
  | exception
  | loopBack
  | jump
deriving DecidableEq, Repr, Inhabited

structure ControlEdge where
  source : Nat
  target : Nat
  label : ControlLabel
deriving DecidableEq, Repr, Inhabited

abbrev Exits := List (Nat × ControlLabel)

def connect (exits : Exits) (target : Nat) : List ControlEdge :=
  exits.map fun (source, label) => ⟨source, target, label⟩

def connectAs (label : ControlLabel) (exits : Exits) (target : Nat) : List ControlEdge :=
  exits.map fun (source, _) => ⟨source, target, label⟩

inductive FrameKind where
  | loop (continueTo : Nat)
  | choice
  | labelled
  -- A statement with handler, finalizer or both; `handling` while its handler is built.
  | guarded (handler finalizer : Option Nat) (handling : Bool)
deriving DecidableEq, Repr, Inhabited

-- A construct around the statement at hand that jumps can aim at or have to pass. Those around a
-- statement are listed from the innermost on, and the depth of one is the number of those around
-- it.
structure Frame where
  kind : FrameKind
  labels : List String
deriving DecidableEq, Repr, Inhabited

namespace Frame

def finalizer? (frame : Frame) : Option Nat :=
  match frame.kind with
  | .guarded _ finalizer _ => finalizer
  | _ => none

def takesBreak (frame : Frame) : Option String → Bool
  | some label => frame.labels.contains label
  | none =>
    match frame.kind with
    | .loop _ | .choice => true
    | _ => false

def continueTo? (frame : Frame) (label : Option String) : Option Nat :=
  match frame.kind with
  | .loop continueTo => if label.all frame.labels.contains then some continueTo else none
  | _ => none

end Frame

inductive Aim where
  | leave (depth : Nat)
  | again (depth target : Nat)
deriving DecidableEq, Repr, Inhabited

def Aim.depth : Aim → Nat
  | .leave depth => depth
  | .again depth _ => depth

-- Vertices and edges in the order of construction, and the jumps that are still open, each with the
-- depth of the construct that has to close it.
structure Emitted where
  vertices : List Nat := []
  edges : List ControlEdge := []
  breaks : List (Nat × Nat) := []
  -- Jumps to be resumed behind a finalizer.
  resumes : List (Nat × Aim) := []
  -- Finalizers behind which the owner is left.
  departs : List Nat := []
deriving DecidableEq, Repr, Inhabited

namespace Emitted

def append (first second : Emitted) : Emitted where
  vertices := first.vertices ++ second.vertices
  edges := first.edges ++ second.edges
  breaks := first.breaks ++ second.breaks
  resumes := first.resumes ++ second.resumes
  departs := first.departs ++ second.departs

instance : Append Emitted := ⟨append⟩

def vertex (id : Nat) : Emitted :=
  { vertices := [id] }

def ofEdges (edges : List ControlEdge) : Emitted :=
  { edges }

def concat (parts : List Emitted) : Emitted :=
  parts.foldr (· ++ ·) {}

def breaksAt (emitted : Emitted) (depth : Nat) : Exits :=
  (emitted.breaks.filter fun (aim, _) => aim == depth).map fun (_, source) => (source, .jump)

def resumesAt (emitted : Emitted) (depth : Nat) : List Aim :=
  ((emitted.resumes.filter fun (at_, _) => at_ == depth).map (·.2)).eraseDups

end Emitted

structure Piece where
  emitted : Emitted := {}
  exits : Exits
deriving DecidableEq, Repr, Inhabited

def Piece.simple (id : Nat) (preds : Exits) : Piece :=
  ⟨{ vertices := [id], edges := connect preds id }, [(id, .fallthrough)]⟩

def finalizerFrom? (least : Nat) : List Frame → Option (Nat × Nat)
  | [] => none
  | frame :: outer =>
    if outer.length < least then none
    else
      match frame.finalizer? with
      | some finalizer => some (outer.length, finalizer)
      | none => finalizerFrom? least outer

def jump (frames : List Frame) (source : Nat) (aim : Aim) : Emitted :=
  match finalizerFrom? (aim.depth + 1) frames with
  | some (depth, finalizer) =>
    { edges := [⟨source, finalizer, .jump⟩], resumes := [(depth, aim)] }
  | none =>
    match aim with
    | .leave depth => { breaks := [(depth, source)] }
    | .again _ target => { edges := [⟨source, target, .jump⟩] }

def departure (frames : List Frame) (exit : Nat) : Nat × List Nat :=
  match finalizerFrom? 0 frames with
  | some (depth, finalizer) => (finalizer, [depth])
  | none => (exit, [])

def depart (frames : List Frame) (exit source : Nat) : Emitted :=
  let (target, departs) := departure frames exit
  { edges := [⟨source, target, .jump⟩], departs }

def raise (exit source : Nat) : List Frame → Emitted
  | [] => { edges := [⟨source, exit, .exception⟩] }
  | frame :: outer =>
    match frame.kind with
    | .guarded (some handler) _ false => { edges := [⟨source, handler, .exception⟩] }
    | .guarded _ (some finalizer) _ =>
      { edges := [⟨source, finalizer, .exception⟩], departs := [outer.length] }
    | _ => raise exit source outer

def breakAim? (label : Option String) : List Frame → Option Aim
  | [] => none
  | frame :: outer =>
    if frame.takesBreak label then some (.leave outer.length) else breakAim? label outer

def continueAim? (label : Option String) : List Frame → Option Aim
  | [] => none
  | frame :: outer =>
    match frame.continueTo? label with
    | some target => some (.again outer.length target)
    | none => continueAim? label outer

end Seepage

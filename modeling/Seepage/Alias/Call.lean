import Seepage.Alias.Solution

set_option autoImplicit false

namespace Seepage.Alias

def incoming (arena : Arena) (args : List Nat) (position param : Nat) : List Nat :=
  match arena.kind param with
  | .rest => args.drop position
  | _ => args[position]?.toList

def argumentEdges (arena : Arena) (args params : List Nat) : List Edge :=
  (params.zipIdx.flatMap fun (param, position) =>
    (incoming arena args position param).map fun arg => .data arg param .callArg) ++
  match args.zipIdx.find? fun (arg, _) => arena.kind arg = .spread with
  | some (arg, position) => (params.drop position).map fun param => .data arg param .callArg
  | none => []

namespace Solution

def callbacks (solution : Solution) (arg : Nat) : NatSet :=
  let arena := solution.problem.arena
  let inProperties :=
    if arena.kind arg = .object then
      ((arena.children arg).filterMap arena.propertyValue?).flatMap solution.functionsOf
    else []
  NatSet.ofList (solution.functionsOf arg ++ inProperties)

def enteredEdges (solution : Solution) (call function : Nat) : List Edge :=
  let arena := solution.problem.arena
  match arena.functionParts? function with
  | none => []
  | some parts =>
    argumentEdges arena (arena.callArgs call) parts.params ++
      ((solution.problem.returns.getD function []).map fun statement =>
        .data statement call .callReturn) ++
      match arena.kind function, parts.body with
      | .function _ _ _ true, some body => [.data body call .callReturn]
      | _, _ => []

def hostEdges (solution : Solution) (call : Nat) : List Edge :=
  let arena := solution.problem.arena
  let args := arena.callArgs call
  let receiver := (arena.callee? call).bind fun callee =>
    match arena.kind callee with
    | .member _ => arena.child? callee 0
    | _ => none
  let params := (args.flatMap solution.callbacks).flatMap fun callback =>
    ((arena.functionParts? callback).map (·.params)).getD []
  (args ++ receiver.toList).map (fun input => .data input call .callArg) ++
    params.map fun param => .data call param .callArg

def callEdgesOf (solution : Solution) (call : Nat) : List Edge :=
  match solution.callTargets call with
  | [] => solution.hostEdges call
  | targets => targets.flatMap (solution.enteredEdges call)

def callEdges (solution : Solution) : List Edge :=
  let arena := solution.problem.arena
  sortEdges ((arena.ids.filter fun id => (arena.kind id).isCallLike).flatMap solution.callEdgesOf)

end Solution

end Seepage.Alias

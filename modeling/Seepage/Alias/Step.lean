import Seepage.Alias.State

set_option autoImplicit false

namespace Seepage.Alias

def handlerGroups : List String := ["methods", "lifetimes", "pageLifetimes"]

def receiversFrom (arena : Arena) (state : State) (holder : Nat) : List Nat → NatSet
  | property :: outer :: above =>
    let own := state.locationOf[holder]?.toList
    let isGroup := ((arena.propertyKey? property).bind PropKey.name?).any handlerGroups.contains
    if isGroup && arena.kind outer = .object then
      NatSet.union own (receiversFrom arena state outer above)
    else own
  | _ => state.locationOf[holder]?.toList

def receivers (arena : Arena) (state : State) (holder : Nat) : NatSet :=
  match arena.kind holder with
  | .classDef .. =>
    match state.locationOf[holder]? with
    | some own =>
      NatSet.insert own
        ((state.prototypes.toList.filter fun (_, parents) => parents.contains own).map (·.1))
    | none => []
  | .object => receiversFrom arena state holder (arena.ancestors holder)
  | _ => state.locationOf[holder]?.toList

def constructorOf? (arena : Arena) (classNode : Nat) : Option Nat :=
  let named := (arena.children classNode).filter fun member =>
    (arena.propertyKey? member).bind PropKey.name? == some "constructor"
  (named.findSome? arena.propertyValue?).filter fun value => (arena.kind value).isFunction

def targetOf? (arena : Arena) (location : Location) : Option Nat :=
  match location.kind with
  | .function => some location.node
  | .classDef => constructorOf? arena location.node
  | _ => none

def Location.isCallable (location : Location) : Bool :=
  location.kind = .function || location.kind = .classDef

def results (problem : Problem) (state : State) (function : Nat) : NatSet :=
  let returned := state.nodes.imageAll (problem.returns.getD function [])
  match problem.arena.kind function, problem.arena.functionParts? function with
  | .function _ _ _ true, some ⟨_, _, _, some body⟩ =>
    NatSet.union returned (state.pointsTo body)
  | _, _ => returned

structure CallSite where
  call : Nat
  args : List Nat
  isNew : Bool
  inst : Option Nat
  receiver : Option Nat

def enter (problem : Problem) (site : CallSite) (state : State) (function : Nat) : State :=
  let state := state.addTarget site.call function
  match problem.arena.functionParts? function with
  | none => state
  | some parts =>
    let state := (parts.params.zip site.args).foldl
      (fun state (param, arg) => state.addNode param (state.pointsTo arg)) state
    let state := if site.isNew then state
      else state.addNode site.call (results problem state function)
    match site.inst, site.receiver with
    | some inst, _ => state.addReceiver function [inst]
    | none, some receiver => state.addReceiver function (state.pointsTo receiver)
    | none, none => state

def storeArg (receiver : Nat) (key : String) (state : State) (arg : Nat) : State :=
  (state.pointsTo receiver).foldl
    (fun state owner => state.addStore owner key (state.pointsTo arg) arg) state

def storeArgs (site : CallSite) (method : PropKey) (state : State) : State :=
  match site.receiver, method with
  | some receiver, .named "setData" => (site.args.take 1).foldl (storeArg receiver "data") state
  | some receiver, .named "push" | some receiver, .named "unshift" =>
    site.args.foldl (storeArg receiver anyKey) state
  | _, _ => state

def applyCall (problem : Problem) (call callee : Nat) (isNew : Bool) (state : State) : State :=
  let arena := problem.arena
  let site : CallSite :=
    { call
      args := arena.callArgs call
      isNew
      inst := if isNew then state.locationOf[call]? else none
      receiver := match arena.kind callee with
        | .member _ => arena.child? callee 0
        | _ => none }
  let callees := state.pointsTo callee
  let targets := NatSet.ofList (callees.filterMap fun id => targetOf? arena (state.location id))
  let state := match site.inst with
    | some inst => (callees.filter fun id => (state.location id).isCallable).foldl
        (·.addPrototype inst ·) state
    | none => state
  let state :=
    if targets.isEmpty && !isNew then
      let (state, location) := state.external call
      state.addNode call [location]
    else state
  let state := targets.foldl (enter problem site) state
  match arena.kind callee with
  | .member method => storeArgs site method state
  | _ => state

def applyRead (options : Options) (object : Nat) (key : Option String) (target : Nat)
    (state : State) : State :=
  let owners := (state.readOwners options object key).resolved
  state.addNode target
    (owners.foldl (fun found owner => NatSet.union found (state.stored owner key)) [])

def applyWrite (member object : Nat) (key : Option String) (value : Nat) (state : State) : State :=
  let (state, owners) :=
    match state.pointsTo object with
    | [] =>
      let (state, owner) := state.unknownOwner member
      (state, [owner])
    | owners => (state, owners)
  let values := state.pointsTo value
  owners.foldl (fun state owner => state.addStore owner (key.getD anyKey) values member) state

def applyMember (arena : Arena) (holder property : Nat) (key : Option String) (value : Nat)
    (state : State) : State :=
  match state.locationOf[holder]? with
  | none => state
  | some owner =>
    let state := state.addStore owner (key.getD anyKey) (state.pointsTo value) property
    match arena.kind value with
    | .function _ form _ _ =>
      if form = .arrow then state else state.addReceiver value (receivers arena state holder)
    | _ => state

def Rule.apply (problem : Problem) (rule : Rule) (state : State) : State :=
  match rule with
  | .copy source target => state.addNode target (state.pointsTo source)
  | .identRead node symbol => state.addNode node (state.symbols.image symbol)
  | .identWrite node symbol => state.addSymbol symbol (state.pointsTo node)
  | .declaration node symbol => state.addSymbol symbol state.locationOf[node]?.toList
  | .this node owner => state.addNode node (state.receivers.image owner)
  | .read object key target => applyRead problem.options object key target state
  | .write left object key value => applyWrite left object key value state
  | .member holder property key (some value) =>
    applyMember problem.arena holder property key value state
  | .member _ _ _ none => state
  | .call site callee isNew => applyCall problem site callee isNew state

end Seepage.Alias

import Seepage.Alias.Rule
import Seepage.Relation

set_option autoImplicit false

namespace Seepage.Alias

inductive LocationKind where
  | object
  | array
  | function
  | classDef
  | new
  | external
  | global
  -- The owner of a property that is written to an object without known location.
  | unknownOwner
deriving DecidableEq, Repr, Inhabited

def LocationKind.isAllocation : LocationKind → Bool
  | .global | .unknownOwner => false
  | _ => true

structure Location where
  kind : LocationKind
  node : Nat
deriving DecidableEq, Repr, Inhabited

structure State where
  locations : Array Location := #[]
  locationOf : Std.TreeMap Nat Nat := ∅
  unknownOwners : Std.TreeMap Nat Nat := ∅
  nodes : Relation := ∅
  symbols : Relation := ∅
  stores : Store := ∅
  writes : Store := ∅
  receivers : Relation := ∅
  prototypes : Relation := ∅
  targets : Relation := ∅
  facts : Nat := 0

namespace State

def location (state : State) (id : Nat) : Location :=
  state.locations.getD id ⟨.global, Arena.root⟩

def pointsTo (state : State) (node : Nat) : NatSet :=
  state.nodes.image node

def addNode (state : State) (node : Nat) (locations : NatSet) : State :=
  let (nodes, gained) := state.nodes.extend node locations
  { state with nodes, facts := state.facts + gained }

def addSymbol (state : State) (symbol : Nat) (locations : NatSet) : State :=
  let (symbols, gained) := state.symbols.extend symbol locations
  { state with symbols, facts := state.facts + gained }

def addReceiver (state : State) (function : Nat) (locations : NatSet) : State :=
  let (receivers, gained) := state.receivers.extend function locations
  { state with receivers, facts := state.facts + gained }

def addPrototype (state : State) (inst : Nat) (location : Nat) : State :=
  let (prototypes, gained) := state.prototypes.extend inst [location]
  { state with prototypes, facts := state.facts + gained }

def addTarget (state : State) (call function : Nat) : State :=
  let (targets, gained) := state.targets.extend call [function]
  { state with targets, facts := state.facts + gained }

def addStore (state : State) (owner : Nat) (key : String) (locations : NatSet) (writer : Nat) :
    State :=
  let (stores, gained) := state.stores.extend owner key locations
  { state with
    stores
    writes := (state.writes.extend owner key [writer]).1
    facts := state.facts + gained }

def addLocation (state : State) (kind : LocationKind) (node : Nat) : State :=
  { state with locations := state.locations.push ⟨kind, node⟩ }

def unknownOwner (state : State) (member : Nat) : State × Nat :=
  match state.unknownOwners[member]? with
  | some location => (state, location)
  | none =>
    let location := state.locations.size
    ({ state.addLocation .unknownOwner member with
        unknownOwners := state.unknownOwners.insert member location }, location)

def external (state : State) (call : Nat) : State × Nat :=
  match state.locationOf[call]? with
  | some location => (state, location)
  | none =>
    let location := state.locations.size
    ({ state.addLocation .external call with
        locationOf := state.locationOf.insert call location }, location)

def withPrototypes (state : State) (locations : NatSet) : NatSet :=
  NatSet.union locations (state.prototypes.imageAll locations)

def stored (state : State) (owner : Nat) : Option String → NatSet
  | some key => NatSet.union (state.stores.get owner key) (state.stores.get owner anyKey)
  | none => state.stores.getAny owner

def writers (state : State) (owner : Nat) : Option String → NatSet
  | some key => NatSet.union (state.writes.get owner key) (state.writes.get owner anyKey)
  | none => state.writes.getAny owner

def ownersWriting (state : State) (key : Option String) : NatSet :=
  (state.writes.toList.filter fun (_, keys) => key.all keys.contains).map (·.1)

end State

inductive ReadOwners where
  | exact (owners : NatSet)
  | fallback (owners : NatSet)
  | givenUp
deriving DecidableEq, Repr

def ReadOwners.resolved : ReadOwners → NatSet
  | .exact owners => owners
  | .fallback owners => owners
  | .givenUp => []

def State.readOwners (state : State) (options : Options) (object : Nat) (key : Option String) :
    ReadOwners :=
  let owners := state.pointsTo object
  if !owners.isEmpty then .exact (state.withPrototypes owners)
  else if !options.prototypeFallback then .exact []
  else
    let found := state.ownersWriting key
    if options.maxFallbackOwners.any (found.length > ·) then .givenUp else .fallback found

def LocationKind.ofNode? : Kind → Option LocationKind
  | .object => some .object
  | .array => some .array
  | .function .. => some .function
  | .classDef .. => some .classDef
  | .new => some .new
  | _ => none

def State.allocate (state : State) (node : Node) : State :=
  match LocationKind.ofNode? node.kind with
  | some kind =>
    let location := state.locations.size
    { state.addLocation kind node.id with
      locationOf := state.locationOf.insert node.id location
      nodes := state.nodes.insert node.id [location] }
  | none => state

-- The program's `this` is the global object.
def State.initial (arena : Arena) : State :=
  let start : State :=
    { locations := #[⟨.global, Arena.root⟩]
      receivers := (∅ : Relation).insert Arena.root [0] }
  arena.nodes.foldl State.allocate start

end Seepage.Alias

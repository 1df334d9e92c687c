import Seepage.Alias.Solution
import Seepage.Proofs.Relation
import Seepage.Proofs.Tree.Arena

set_option autoImplicit false

namespace Seepage

open List Seepage.Relation

variable {α : Type} {id : Nat} {known known' : Prop}

def Arena.isAssignedMember (arena : Arena) (id : Nat) : Bool :=
  match arena.kind id, arena.parent? id with
  | .member _, some parent =>
    match arena.kind parent with
    | .assign _ => arena.child? parent 0 = some id
    | _ => false
  | _, _ => false

namespace Alias

open NatSet (Below)

variable {rule : Rule} {first second third : State}

def Rule.key? : Rule → Option String
  | .write _ _ key _ | .member _ _ key _ => some (key.getD anyKey)
  | _ => none

def Rule.symbol? : Rule → Option Nat
  | .identWrite _ symbol | .declaration _ symbol => some symbol
  | _ => none

def written? (arena : Arena) (writer : Nat) : Option Nat :=
  match arena.parent? writer with
  | some parent =>
    match arena.kind parent, arena.children parent with
    | .assign _, target :: value :: _ => some (if target = writer then value else writer)
    | .object, _ | .classDef .., _ => arena.propertyValue? writer
    | _, _ => some writer
  | none => some writer

def Rule.Within (arena : Arena) : Rule → Prop
  | .copy _ target | .identRead target _ | .this target _ | .read _ _ target => target < arena.size
  | .write left _ _ value => arena.isAssignedMember left ∧
    (∃ key, arena.kind left = .member key) ∧ written? arena left = some value
  | .member holder property _ value =>
    arena.kind holder ≠ .array ∧ property < arena.size ∧ written? arena property = value
  | .call site callee isNew =>
    arena.kind site = (if isNew then .new else .call) ∧ arena.callee? site = some callee
  | _ => True

namespace Problem

def keys (problem : Problem) : Finset String :=
  (problem.rules.filterMap Rule.key? ++ ["data", anyKey]).toFinset

def symbols (problem : Problem) : Finset Nat :=
  (problem.rules.filterMap Rule.symbol?).toFinset

theorem mem_keys (problem : Problem) (member : rule ∈ problem.rules) {key : String}
    (stores : rule.key? = some key) : key ∈ problem.keys :=
  mem_toFinset.mpr (mem_append_left _ (mem_filterMap.mpr ⟨rule, member, stores⟩))

theorem mem_symbols (problem : Problem) (member : rule ∈ problem.rules)
    {symbol : Nat} (writes : rule.symbol? = some symbol) : symbol ∈ problem.symbols :=
  mem_toFinset.mpr (mem_filterMap.mpr ⟨rule, member, writes⟩)

structure Coherent (problem : Problem) : Prop where
  numbered : problem.arena.WellNumbered
  within : ∀ rule ∈ problem.rules, rule.Within problem.arena

end Problem

namespace State

def Located (state : State) (items : NatSet) : Prop :=
  Below state.locations.size items

end State

def Calls (problem : Problem) (state : State) (call function : Nat) : Prop :=
  ∃ callee isNew, .call call callee isNew ∈ problem.rules ∧
    ∃ id ∈ state.pointsTo callee, targetOf? problem.arena (state.location id) = some function

def Backs (arena : Arena) (state : State) (writer location : Nat) : Prop :=
  ∃ value, written? arena writer = some value ∧ location ∈ state.pointsTo value

inductive Step (problem : Problem) (state : State) : State → Prop
  | node {node : Nat} {items : NatSet} : node < problem.arena.size → state.Located items →
    Step problem state (state.addNode node items)
  | symbol {symbol : Nat} {items : NatSet} : symbol ∈ problem.symbols → state.Located items →
    Step problem state (state.addSymbol symbol items)
  | receiver {function : Nat} {items : NatSet} : function < problem.arena.size →
    state.Located items → Step problem state (state.addReceiver function items)
  | prototype {inst location : Nat} : inst < state.locations.size →
    location < state.locations.size → Step problem state (state.addPrototype inst location)
  | target {call function : Nat} : call < problem.arena.size → function < problem.arena.size →
    Calls problem state call function → Step problem state (state.addTarget call function)
  | store {owner : Nat} {key : String} {items : NatSet} {writer : Nat} :
    owner < state.locations.size → key ∈ problem.keys → state.Located items →
    writer < problem.arena.size → (∀ location ∈ items, Backs problem.arena state writer location) →
    Step problem state (state.addStore owner key items writer)
  | unknownOwner {left : Nat} : (∃ key, problem.arena.kind left = .member key) →
    Step problem state (state.unknownOwner left).1
  | external {call : Nat} : problem.arena.kind call = .call →
    Step problem state ((state.external call).1.addNode call [(state.external call).2])

abbrev Steps (problem : Problem) : State → State → Prop :=
  Relation.ReflTransGen (Step problem)

structure Assigned (arena : Arena) (locations : Array Location)
    (locationOf unknownOwners : Std.TreeMap Nat Nat) : Prop where
  first : locations[0]? = some ⟨.global, Arena.root⟩
  allocated : ∀ (node : Nat) id, locationOf[node]? = some id →
    (∃ kind, locations[id]? = some ⟨kind, node⟩) ∧ node < arena.size ∧
      ∀ key, arena.kind node ≠ .member key
  unknown : ∀ left id, unknownOwners[left]? = some id →
    (∃ kind, locations[id]? = some ⟨kind, left⟩) ∧ ∃ key, arena.kind left = .member key
  owned : ∀ id location, 0 < id → locations[id]? = some location →
    locationOf[location.node]? = some id ∨ unknownOwners[location.node]? = some id

-- What holds of the heap all the time: everything refers to locations there are.
structure Valid (arena : Arena) (state : State) : Prop where
  nodes : ∀ node, state.Located (state.nodes.image node)
  symbols : ∀ symbol, state.Located (state.symbols.image symbol)
  receivers : ∀ function, state.Located (state.receivers.image function)
  prototypes : ∀ inst, state.Located (state.prototypes.image inst)
  stores : ∀ owner key, state.Located (state.stores.get owner key)
  targets : ∀ call, Below arena.size (state.targets.image call)
  writes : ∀ owner key, Below arena.size (state.writes.get owner key)
  instances : ∀ inst ∈ state.prototypes, inst < state.locations.size
  written : ∀ owner ∈ state.writes, owner < state.locations.size
  assigned : Assigned arena state.locations state.locationOf state.unknownOwners

theorem getElem?_push_of_some {items : Array α} {index : Nat} {item last : α}
    (found : items[index]? = some item) : (items.push last)[index]? = some item := by
  have known := (Array.getElem?_eq_some_iff.mp found).1
  rw [Array.getElem?_push, if_neg (by omega)]
  exact found

namespace Assigned

variable {arena : Arena} {locations : Array Location} {locationOf unknownOwners : Std.TreeMap Nat Nat}
  (assigned : Assigned arena locations locationOf unknownOwners)

include assigned

theorem allocate {node : Nat} (missing : locationOf[node]? = none) (inside : node < arena.size)
    (other : ∀ key, arena.kind node ≠ .member key) (kind : LocationKind) :
    Assigned arena (locations.push ⟨kind, node⟩) (locationOf.insert node locations.size)
      unknownOwners where
  first := getElem?_push_of_some assigned.first
  allocated := by
    intro found id present
    obtain ⟨rfl, rfl⟩ | old := eq_or_of_getElem?_insert present
    · exact ⟨⟨kind, by simp⟩, inside, other⟩
    · exact (assigned.allocated found id old).imp_left (·.imp fun _ => getElem?_push_of_some)
  unknown := by
    intro left id present
    exact (assigned.unknown left id present).imp_left (·.imp fun _ => getElem?_push_of_some)
  owned := by
    intro id location positive present
    rw [Array.getElem?_push] at present
    split at present
    case isTrue last =>
      obtain rfl := Option.some.inj present
      simp [last]
    case isFalse =>
      exact (assigned.owned id location positive present).imp_left (getElem?_insert_of_some missing)

theorem addUnknown {left : Nat} (missing : unknownOwners[left]? = none)
    (isMember : ∃ key, arena.kind left = .member key) (kind : LocationKind) :
    Assigned arena (locations.push ⟨kind, left⟩) locationOf
      (unknownOwners.insert left locations.size) where
  first := getElem?_push_of_some assigned.first
  allocated := by
    intro node id present
    exact (assigned.allocated node id present).imp_left (·.imp fun _ => getElem?_push_of_some)
  unknown := by
    intro found id present
    obtain ⟨rfl, rfl⟩ | old := eq_or_of_getElem?_insert present
    · exact ⟨⟨kind, by simp⟩, isMember⟩
    · exact (assigned.unknown found id old).imp_left (·.imp fun _ => getElem?_push_of_some)
  owned := by
    intro id location positive present
    rw [Array.getElem?_push] at present
    split at present
    case isTrue last =>
      obtain rfl := Option.some.inj present
      simp [last]
    case isFalse =>
      exact (assigned.owned id location positive present).imp_right (getElem?_insert_of_some missing)

theorem node_lt {location : Location} (positive : 0 < id)
    (found : locations[id]? = some location) : location.node < arena.size := by
  rcases assigned.owned id location positive found with known | known
  · exact (assigned.allocated _ _ known).2.1
  · obtain ⟨-, key, isMember⟩ := assigned.unknown _ _ known
    exact Arena.lt_size_of_kind (by simp [isMember])

end Assigned

structure Grows (before after : State) : Prop where
  nodes : ∀ node, ∀ location ∈ before.nodes.image node, location ∈ after.nodes.image node
  symbols : ∀ symbol, ∀ location ∈ before.symbols.image symbol,
    location ∈ after.symbols.image symbol
  receivers : ∀ function, ∀ location ∈ before.receivers.image function,
    location ∈ after.receivers.image function
  prototypes : ∀ inst, ∀ location ∈ before.prototypes.image inst,
    location ∈ after.prototypes.image inst
  stores : ∀ owner key, ∀ location ∈ before.stores.get owner key,
    location ∈ after.stores.get owner key
  targets : ∀ call, ∀ function ∈ before.targets.image call, function ∈ after.targets.image call
  writes : ∀ owner key, ∀ writer ∈ before.writes.get owner key, writer ∈ after.writes.get owner key
  locations : ∀ (id : Nat) location, before.locations[id]? = some location →
    after.locations[id]? = some location
  locationOf : ∀ (node : Nat) id, before.locationOf[node]? = some id → after.locationOf[node]? = some id
  unknownOwners : ∀ (left : Nat) id, before.unknownOwners[left]? = some id →
    after.unknownOwners[left]? = some id
  facts : before.facts ≤ after.facts

structure Same (before after : State) : Prop where
  nodes : after.nodes = before.nodes
  symbols : after.symbols = before.symbols
  receivers : after.receivers = before.receivers
  prototypes : after.prototypes = before.prototypes
  stores : after.stores = before.stores
  targets : after.targets = before.targets
  locationOf : after.locationOf = before.locationOf
  locations : ∀ (id : Nat) location, before.locations[id]? = some location →
    after.locations[id]? = some location

namespace Grows

theorem refl (state : State) : Grows state state :=
  ⟨fun _ _ h => h, fun _ _ h => h, fun _ _ h => h, fun _ _ h => h, fun _ _ _ h => h,
    fun _ _ h => h, fun _ _ _ h => h, fun _ _ h => h, fun _ _ h => h, fun _ _ h => h, Nat.le_refl _⟩

theorem trans (early : Grows first second) (late : Grows second third) : Grows first third where
  nodes _ _ member := late.nodes _ _ (early.nodes _ _ member)
  symbols _ _ member := late.symbols _ _ (early.symbols _ _ member)
  receivers _ _ member := late.receivers _ _ (early.receivers _ _ member)
  prototypes _ _ member := late.prototypes _ _ (early.prototypes _ _ member)
  stores _ _ _ member := late.stores _ _ _ (early.stores _ _ _ member)
  targets _ _ member := late.targets _ _ (early.targets _ _ member)
  writes _ _ _ member := late.writes _ _ _ (early.writes _ _ _ member)
  locations _ _ found := late.locations _ _ (early.locations _ _ found)
  locationOf _ _ found := late.locationOf _ _ (early.locationOf _ _ found)
  unknownOwners _ _ found := late.unknownOwners _ _ (early.unknownOwners _ _ found)
  facts := Nat.le_trans early.facts late.facts

variable {before after : State} (grows : Grows before after)

include grows

theorem size_le : before.locations.size ≤ after.locations.size := by
  by_contra fewer
  have known : after.locations.size < before.locations.size := by omega
  have found := grows.locations _ _ (Array.getElem?_eq_getElem known)
  simp at found

theorem location (known : id < before.locations.size) : after.location id = before.location id := by
  have found := grows.locations id _ (Array.getElem?_eq_getElem known)
  simp [State.location, Array.getD_eq_getD_getElem?, found, known]

end Grows

theorem Calls.grows {problem : Problem} {state next : State} {call function : Nat}
    (calls : Calls problem state call function) (valid : Valid problem.arena state)
    (grows : Grows state next) : Calls problem next call function := by
  obtain ⟨callee, isNew, listed, id, member, target⟩ := calls
  refine ⟨callee, isNew, listed, id, grows.nodes callee id member, ?_⟩
  rw [grows.location ((valid.nodes callee).2 id member)]
  exact target

theorem Backs.grows {arena : Arena} {state next : State} {writer location : Nat}
    (backs : Backs arena state writer location) (grows : Grows state next) :
    Backs arena next writer location := by
  obtain ⟨value, written, member⟩ := backs
  exact ⟨value, written, grows.nodes value location member⟩

namespace Same

theorem refl (state : State) : Same state state :=
  ⟨rfl, rfl, rfl, rfl, rfl, rfl, rfl, fun _ _ h => h⟩

theorem trans (early : Same first second) (late : Same second third) : Same first third where
  nodes := late.nodes.trans early.nodes
  symbols := late.symbols.trans early.symbols
  receivers := late.receivers.trans early.receivers
  prototypes := late.prototypes.trans early.prototypes
  stores := late.stores.trans early.stores
  targets := late.targets.trans early.targets
  locationOf := late.locationOf.trans early.locationOf
  locations _ _ found := late.locations _ _ (early.locations _ _ found)

end Same

section

variable {β : Type} (part : State → β)

theorem keeps_foldl {act : State → α → State}
    (keeps : ∀ state item, part (act state item) = part state) (items : List α) (state : State) :
    part (items.foldl act state) = part state := by
  induction items generalizing state with
  | nil => rfl
  | cons item rest ih => rw [foldl_cons, ih, keeps]

theorem keeps_initial (keeps : ∀ state node, part (State.allocate state node) = part state)
    (arena : Arena) : part (.initial arena) = part
      { locations := #[⟨.global, Arena.root⟩]
        receivers := (∅ : Relation).insert Arena.root [0] } :=
  keeps_foldl part keeps arena.nodes _

end

theorem stores_initial (arena : Arena) : (State.initial arena).stores = ∅ :=
  keeps_initial (·.stores) (fun _ _ => by unfold State.allocate; split <;> rfl) arena

theorem writes_initial (arena : Arena) : (State.initial arena).writes = ∅ :=
  keeps_initial (·.writes) (fun _ _ => by unfold State.allocate; split <;> rfl) arena

theorem targets_initial (arena : Arena) : (State.initial arena).targets = ∅ :=
  keeps_initial (·.targets) (fun _ _ => by unfold State.allocate; split <;> rfl) arena

section

variable {problem : Problem} {state next : State}

section

variable (valid : Valid problem.arena state) {node : Nat} {items : NatSet}
  (located : state.Located items)

include valid located

theorem Grows.addNode : Grows state (state.addNode node items) :=
  { Grows.refl state with
    nodes := fun _ _ member =>
      (mem_image_extend (valid.nodes _).1 located.1).mpr (.inl member)
    facts := Nat.le_add_right _ _ }

theorem Valid.addNode : Valid problem.arena (state.addNode node items) :=
  { valid with nodes := below_extend valid.nodes located }

end

theorem Valid.relocate {arena : Arena} (valid : Valid arena state) {locations : Array Location}
    {locationOf unknownOwners : Std.TreeMap Nat Nat} (grown : state.locations.size ≤ locations.size)
    (assigned : Assigned arena locations locationOf unknownOwners) :
    Valid arena { state with locations, locationOf, unknownOwners } where
  nodes node := (valid.nodes node).mono grown
  symbols symbol := (valid.symbols symbol).mono grown
  receivers function := (valid.receivers function).mono grown
  prototypes inst := (valid.prototypes inst).mono grown
  stores owner key := (valid.stores owner key).mono grown
  targets := valid.targets
  writes := valid.writes
  instances inst held := Nat.lt_of_lt_of_le (valid.instances inst held) grown
  written owner held := Nat.lt_of_lt_of_le (valid.written owner held) grown
  assigned := assigned

theorem Valid.external (valid : Valid problem.arena state) {call : Nat}
    (isCall : problem.arena.kind call = .call) :
    Grows state (state.external call).1 ∧ Valid problem.arena (state.external call).1 ∧
      (state.external call).1.Located [(state.external call).2] := by
  unfold State.external
  split
  case h_1 location found =>
    obtain ⟨⟨kind, known⟩, -⟩ := valid.assigned.allocated call location found
    exact ⟨.refl state, valid, NatSet.below_singleton (Array.getElem?_eq_some_iff.mp known).1⟩
  case h_2 missing =>
    have inside : call < problem.arena.size := Arena.lt_size_of_kind (by simp [isCall])
    refine ⟨?_, ?_, NatSet.below_singleton (by simp [State.addLocation])⟩
    · exact { Grows.refl state with
        locations := fun _ _ found => getElem?_push_of_some found
        locationOf := fun _ _ found => getElem?_insert_of_some missing found }
    · exact valid.relocate (by simp [State.addLocation])
        (valid.assigned.allocate missing inside (by simp [isCall]) .external)

theorem Step.grows (valid : Valid problem.arena state) (step : Step problem state next) :
    Grows state next := by
  have same := Grows.refl state
  cases step with
  | node inside located => exact .addNode valid located
  | symbol known located =>
    exact { same with
      symbols := fun _ _ member =>
        (mem_image_extend (valid.symbols _).1 located.1).mpr (.inl member)
      facts := Nat.le_add_right _ _ }
  | receiver inside located =>
    exact { same with
      receivers := fun _ _ member =>
        (mem_image_extend (valid.receivers _).1 located.1).mpr (.inl member)
      facts := Nat.le_add_right _ _ }
  | prototype known located =>
    exact { same with
      prototypes := fun _ _ member =>
        (mem_image_extend (valid.prototypes _).1 (.singleton _)).mpr (.inl member)
      facts := Nat.le_add_right _ _ }
  | target inside located =>
    exact { same with
      targets := fun _ _ member =>
        (mem_image_extend (valid.targets _).1 (.singleton _)).mpr (.inl member)
      facts := Nat.le_add_right _ _ }
  | store known listed located writes =>
    exact { same with
      stores := fun _ _ _ member =>
        (Store.mem_get_extend (valid.stores _ _).1 located.1).mpr (.inl member)
      writes := fun _ _ _ member =>
        (Store.mem_get_extend (valid.writes _ _).1 (.singleton _)).mpr (.inl member)
      facts := Nat.le_add_right _ _ }
  | @unknownOwner left isMember =>
    unfold State.unknownOwner
    split
    case h_1 => exact same
    case h_2 missing =>
      exact { same with
        locations := fun _ _ found => getElem?_push_of_some found
        unknownOwners := fun _ _ found => getElem?_insert_of_some missing found }
  | external isCall =>
    obtain ⟨grows, later, located⟩ := valid.external isCall
    exact grows.trans (.addNode later located)

theorem Step.valid (step : Step problem state next) (valid : Valid problem.arena state) :
    Valid problem.arena next := by
  cases step with
  | node inside located => exact valid.addNode located
  | symbol known located =>
    exact { valid with symbols := below_extend valid.symbols located }
  | receiver inside located =>
    exact { valid with receivers := below_extend valid.receivers located }
  | prototype known located =>
    exact { valid with
      prototypes := below_extend valid.prototypes (NatSet.below_singleton located)
      instances := fun inst held => by
        rcases mem_extend held with old | rfl
        · exact valid.instances inst old
        · exact known }
  | target inside located =>
    exact { valid with
      targets := below_extend valid.targets (NatSet.below_singleton located) }
  | store known listed located writes =>
    exact { valid with
      stores := Store.below_extend valid.stores located
      writes := Store.below_extend valid.writes (NatSet.below_singleton writes)
      written := fun owner held => by
        rcases Store.mem_extend held with old | rfl
        · exact valid.written owner old
        · exact known }
  | unknownOwner isMember =>
    unfold State.unknownOwner
    split
    case h_1 => exact valid
    case h_2 missing =>
      exact valid.relocate (by simp [State.addLocation])
        (valid.assigned.addUnknown missing isMember .unknownOwner)
  | external isCall =>
    obtain ⟨-, later, located⟩ := valid.external isCall
    exact later.addNode located

theorem Step.same (valid : Valid problem.arena state) (step : Step problem state next)
    (quiet : next.facts = state.facts) : Same state next := by
  have same := Same.refl state
  cases step with
  | node inside located =>
    have none : (state.nodes.extend _ _).2 = 0 := Nat.add_eq_left.mp quiet
    exact { same with nodes := (extend_quiet (valid.nodes _).1 located.1 none).1 }
  | symbol known located =>
    have none : (state.symbols.extend _ _).2 = 0 := Nat.add_eq_left.mp quiet
    exact { same with symbols := (extend_quiet (valid.symbols _).1 located.1 none).1 }
  | receiver inside located =>
    have none : (state.receivers.extend _ _).2 = 0 := Nat.add_eq_left.mp quiet
    exact { same with receivers := (extend_quiet (valid.receivers _).1 located.1 none).1 }
  | prototype known located =>
    have none : (state.prototypes.extend _ _).2 = 0 := Nat.add_eq_left.mp quiet
    exact { same with
      prototypes := (extend_quiet (valid.prototypes _).1 (.singleton _) none).1 }
  | target inside located =>
    have none : (state.targets.extend _ _).2 = 0 := Nat.add_eq_left.mp quiet
    exact { same with targets := (extend_quiet (valid.targets _).1 (.singleton _) none).1 }
  | store known listed located writes =>
    have none : (state.stores.extend _ _ _).2 = 0 := Nat.add_eq_left.mp quiet
    exact { same with stores := (Store.extend_quiet (valid.stores _ _).1 located.1 none).1 }
  | unknownOwner isMember =>
    unfold State.unknownOwner
    split
    · exact same
    · exact { same with locations := fun _ _ found => getElem?_push_of_some found }
  | external isCall =>
    rename_i call
    obtain ⟨grows, later, located⟩ := valid.external isCall
    have none : ((state.external call).1.nodes.extend call [(state.external call).2]).2 = 0 := by
      have more := grows.facts
      simp only [State.addNode] at quiet
      omega
    obtain ⟨kept, present⟩ := extend_quiet (later.nodes call).1 located.1 none
    have known := present _ mem_cons_self
    revert kept known
    unfold State.external
    split
    · exact fun kept _ => { same with nodes := kept }
    · -- a new location cannot have been there before
      intro _ known
      exact absurd ((valid.nodes call).2 _ known) (Nat.lt_irrefl _)

section

variable (steps : Steps problem state next) (sound : Valid problem.arena state)

include steps sound

theorem Steps.both : Grows state next ∧ Valid problem.arena next := by
  induction steps with
  | refl => exact ⟨.refl state, sound⟩
  | tail _ step ih => exact ⟨ih.1.trans (step.grows ih.2), step.valid ih.2⟩

theorem Steps.grows : Grows state next :=
  (steps.both sound).1

theorem Steps.valid : Valid problem.arena next :=
  (steps.both sound).2

theorem Steps.same (quiet : next.facts = state.facts) : Same state next := by
  induction steps with
  | refl => exact .refl state
  | tail earlier step ih =>
    have first := (Steps.grows earlier sound).facts
    have last := (step.grows (Steps.valid earlier sound)).facts
    exact (ih (by omega)).trans (step.same (Steps.valid earlier sound) (by omega))

end

def Adds (problem : Problem) (state next : State) (known : Prop) : Prop :=
  Steps problem state next ∧ (next.facts = state.facts → known)

theorem Adds.imp (adds : Adds problem state next known)
    (weaker : known → known') : Adds problem state next known' :=
  ⟨adds.1, fun quiet => weaker (adds.2 quiet)⟩

theorem adds_nothing (problem : Problem) (state : State) : Adds problem state state True :=
  ⟨.refl, fun _ => trivial⟩

theorem Adds.seq {middle : State} (first : Adds problem state middle known)
    (second : Adds problem middle next known') (valid : Valid problem.arena state) :
    Adds problem state next (known ∧ Same state middle ∧ known') := by
  refine ⟨first.1.trans second.1, fun quiet => ?_⟩
  obtain ⟨grows, later⟩ := Steps.both first.1 valid
  have early := grows.facts
  have late := (Steps.grows second.1 later).facts
  exact ⟨first.2 (by omega), Steps.same first.1 valid (by omega), second.2 (by omega)⟩

theorem adds_foldl {act : State → α → State} {items : List α}
    {known : State → α → Prop} (valid : Valid problem.arena state)
    (each : ∀ middle, Valid problem.arena middle → Grows state middle →
      ∀ item ∈ items, Adds problem middle (act middle item) (known middle item)) :
    Adds problem state (items.foldl act state)
      (∀ item ∈ items, ∃ middle, Same state middle ∧ known middle item) := by
  induction items generalizing state with
  | nil => exact (adds_nothing problem state).imp (by simp)
  | cons first rest ih =>
    have start := each state valid (.refl state) first mem_cons_self
    obtain ⟨grows, later⟩ := Steps.both start.1 valid
    have finish := ih later fun middle held more item member =>
      each middle held (grows.trans more) item (mem_cons_of_mem _ member)
    refine (start.seq finish valid).imp ?_
    rintro ⟨here, same, there⟩ item member
    rcases mem_cons.mp member with rfl | member
    · exact ⟨state, .refl state, here⟩
    · obtain ⟨middle, kept, holds⟩ := there item member
      exact ⟨middle, same.trans kept, holds⟩

theorem adds_each {act : State → α → State} {items : List α} (valid : Valid problem.arena state)
    (each : ∀ middle, Valid problem.arena middle → Grows state middle →
      ∀ item ∈ items, Adds problem middle (act middle item) True) :
    Adds problem state (items.foldl act state) True :=
  (adds_foldl valid each).imp fun _ => trivial

end

end Alias

end Seepage

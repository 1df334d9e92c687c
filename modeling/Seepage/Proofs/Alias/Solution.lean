import Seepage.Flow.Data
import Seepage.Proofs.Alias.Bound
import Seepage.Proofs.Flow.Value

set_option autoImplicit false

namespace Seepage.Alias

open List NatSet

def Created (state : State) (kind : LocationKind) (node : Nat) : Prop :=
  ∃ location : Nat, state.locationOf[node]? = some location ∧
    state.locations[location]? = some ⟨kind, node⟩ ∧ location ∈ state.pointsTo node

theorem Created.grows {before after : State} {kind : LocationKind} {node : Nat}
    (created : Created before kind node) (grows : Grows before after) :
    Created after kind node := by
  obtain ⟨location, found, isLocation, member⟩ := created
  exact ⟨location, grows.locationOf _ _ found, grows.locations _ _ isLocation,
    grows.nodes _ _ member⟩

section

variable {arena : Arena} {state : State}

def Fresh (state : State) (node : Nat) : Prop :=
  state.locationOf[node]? = none ∧ state.nodes.image node = []

theorem allocate_spec {node : Node} (valid : Valid arena state) (fresh : Fresh state node.id)
    (inside : node.id < arena.size) (isKind : arena.kind node.id = node.kind) :
    Valid arena (state.allocate node) ∧ Grows state (state.allocate node) ∧
      (state.allocate node).facts = state.facts ∧
      (∀ kind, LocationKind.ofNode? node.kind = some kind →
        Created (state.allocate node) kind node.id) ∧
      ∀ other, other ≠ node.id → Fresh state other → Fresh (state.allocate node) other := by
  unfold State.allocate
  split
  case h_1 kind creates =>
    have other : ∀ key, arena.kind node.id ≠ .member key := by
      intro key isMember
      rw [← isKind, isMember] at creates
      cases creates
    have assigned := valid.assigned.allocate fresh.1 inside other kind
    have moved := valid.relocate (by simp) assigned
    refine ⟨?_, ?_, rfl, ?_, ?_⟩
    · refine { moved with nodes := fun place => ?_ }
      rw [Relation.image_insert]
      split
      · exact below_singleton (by simp [State.addLocation])
      · exact moved.nodes place
    · exact { Grows.refl state with
        nodes := fun place location member => by
          rw [Relation.image_insert]
          split
          case isTrue same =>
            rw [← same, fresh.2] at member
            cases member
          case isFalse => exact member
        locations := fun _ _ found => getElem?_push_of_some found
        locationOf := fun _ _ found => getElem?_insert_of_some fresh.1 found }
    · intro known same
      obtain rfl : kind = known := Option.some.inj (creates.symm.trans same)
      exact ⟨state.locations.size, by simp, by simp [State.addLocation],
        by simp [State.pointsTo, Relation.image_insert]⟩
    · intro place differ old
      refine ⟨?_, ?_⟩
      · simpa [Std.TreeMap.getElem?_insert, Ne.symm differ] using old.1
      · simpa [Relation.image_insert, Ne.symm differ] using old.2
  case h_2 nothing => exact ⟨valid, .refl state, rfl, by simp [nothing], fun _ _ same => same⟩

theorem allocate_all {nodes : List Node} (valid : Valid arena state)
    (distinct : (nodes.map (·.id)).Nodup) (fresh : ∀ node ∈ nodes, Fresh state node.id)
    (inside : ∀ node ∈ nodes, node.id < arena.size ∧ arena.kind node.id = node.kind) :
    Valid arena (nodes.foldl State.allocate state) ∧
      Grows state (nodes.foldl State.allocate state) ∧
      (nodes.foldl State.allocate state).facts = state.facts ∧
      ∀ node ∈ nodes, ∀ kind, LocationKind.ofNode? node.kind = some kind →
        Created (nodes.foldl State.allocate state) kind node.id := by
  induction nodes generalizing state with
  | nil => exact ⟨valid, .refl state, rfl, by simp⟩
  | cons node rest ih =>
    obtain ⟨here, there⟩ := nodup_cons.mp distinct
    obtain ⟨known, isKind⟩ := inside node mem_cons_self
    obtain ⟨valid', grows, facts, created, others⟩ :=
      allocate_spec valid (fresh node mem_cons_self) known isKind
    have stillFresh : ∀ other ∈ rest, Fresh (state.allocate node) other.id := by
      intro other member
      refine others other.id ?_ (fresh other (mem_cons_of_mem _ member))
      intro same
      exact here (mem_map.mpr ⟨other, member, same⟩)
    obtain ⟨valid'', grows', facts', created'⟩ := ih valid' there stillFresh fun other member =>
      inside other (mem_cons_of_mem _ member)
    refine ⟨valid'', grows.trans grows', facts'.trans facts, fun other member kind isCreated => ?_⟩
    rcases mem_cons.mp member with rfl | later
    · exact (created kind isCreated).grows grows'
    · exact created' other later kind isCreated

theorem mem_nodes (well : arena.WellNumbered) {node : Node} :
    node ∈ arena.nodes ↔ ∃ tree ∈ arena.tree.subtrees, tree.label = node := by
  simp [Arena.nodes, well.stored]

theorem initial_spec (well : arena.WellNumbered) :
    Valid arena (.initial arena) ∧ (State.initial arena).facts = 0 ∧
      ∀ node ∈ arena.nodes, ∀ kind, LocationKind.ofNode? node.kind = some kind →
        Created (.initial arena) kind node.id := by
  let start : State :=
    { locations := #[⟨.global, Arena.root⟩]
      receivers := (∅ : Relation).insert Arena.root [0] }
  have valid : Valid arena start :=
    { nodes := fun _ => below_nil _
      symbols := fun _ => below_nil _
      receivers := fun function => by
        rw [Relation.image_insert]
        split
        · exact below_singleton (by simp [start])
        · exact below_nil _
      prototypes := fun _ => below_nil _
      stores := fun _ _ => below_nil _
      targets := fun _ => below_nil _
      writes := fun _ _ => below_nil _
      instances := by simp [start]
      written := by simp [start]
      assigned :=
        { first := rfl
          allocated := by simp [start]
          unknown := by simp [start]
          owned := fun id location positive found => by
            have known : id < 1 := (Array.getElem?_eq_some_iff.mp found).1
            omega } }
  have distinct : (arena.nodes.map (·.id)).Nodup := by
    have ids := Syntree.ids_subtrees well.numbered
    have same : arena.nodes.map (·.id) = arena.tree.subtrees.map (·.label.id) := by
      simp [Arena.nodes, well.stored]
    rw [same, ids]
    exact nodup_range'
  have inside : ∀ node ∈ arena.nodes, node.id < arena.size ∧ arena.kind node.id = node.kind := by
    intro node member
    obtain ⟨tree, held, rfl⟩ := (mem_nodes well).mp member
    exact ⟨well.id_lt held, well.kind_eq held⟩
  obtain ⟨valid', -, facts, created⟩ :=
    allocate_all valid distinct (fun _ _ => ⟨rfl, rfl⟩) inside
  exact ⟨valid', facts, created⟩

theorem within_ofNode (well : arena.WellNumbered) (resolution : Resolution) {tree : Syntree}
    (inside : tree ∈ arena.tree.subtrees) :
    ∀ rule ∈ Rule.ofNode arena resolution tree.label, rule.Within arena := by
  intro rule member
  have kind := well.kind_eq inside
  have known := well.id_lt inside
  unfold Rule.ofNode at member
  simp only at member
  split at member
  case h_1 =>
    obtain ⟨symbol, -, uses⟩ := mem_flatMap.mp member
    rcases mem_append.mp uses with reads | writes
    · split at reads
      · obtain rfl := mem_singleton.mp reads
        exact known
      · cases reads
    · split at writes
      · obtain rfl := mem_singleton.mp writes
        trivial
      · cases writes
  case h_2 | h_3 =>
    obtain ⟨symbol, -, rfl⟩ := mem_map.mp member
    trivial
  case h_4 =>
    obtain rfl := mem_singleton.mp member
    exact known
  case h_5 key isMember =>
    obtain ⟨object, -, uses⟩ := mem_flatMap.mp member
    rcases mem_append.mp uses with writes | reads
    · unfold Rule.ofTarget at writes
      split at writes
      case h_1 parent isParent =>
        split at writes
        case h_1 op target value rest isAssign below =>
          split at writes
          case isTrue isTarget =>
            obtain rfl := mem_singleton.mp writes
            refine ⟨?_, ⟨key, kind.trans isMember⟩, ?_⟩
            · simp [Arena.isAssignedMember, Arena.child?, kind, isMember, isParent, isAssign, below,
                isTarget]
            · simp [written?, isParent, isAssign, below, isTarget]
          case isFalse => cases writes
        case h_2 => cases writes
      case h_2 => cases writes
    · split at reads
      · cases reads
      · obtain rfl := mem_singleton.mp reads
        exact known
  case h_6 =>
    unfold Rule.ofProperty at member
    split at member
    case h_1 holder isHolder =>
      split at member
      case h_1 isObject | h_2 isClass =>
        obtain rfl := mem_singleton.mp member
        exact ⟨by simp [*], known, by simp [written?, *]⟩
      case h_3 =>
        obtain ⟨value, found, rfl⟩ := mem_map.mp member
        exact well.lt_of_propertyValue? (Option.mem_toList.mp found)
      case h_4 => cases member
    case h_2 => cases member
  case h_7 isCall | h_8 isCall =>
    obtain ⟨callee, found, rfl⟩ := mem_map.mp member
    simp [Rule.Within, kind, isCall, Option.mem_toList.mp found]
  case h_9 => cases member

def copiesOf (arena : Arena) : List (Nat × Nat) :=
  ((valueFlows arena).filter (·.isCopy)).map fun flow => (flow.source, flow.target)

abbrev Solution.onPage (arena : Arena) (options : Options) : Solution :=
  .ofArena arena (Resolution.ofArena arena)
    (DataFlow.ofArena arena (Resolution.ofArena arena) (ControlFlow.ofArena arena)).copies options

theorem coherent_ofArena (well : arena.WellNumbered) (resolution : Resolution)
    (options : Options) : (Problem.ofArena arena resolution (copiesOf arena) options).Coherent where
  numbered := well
  within rule member := by
    rcases mem_append.mp member with copies | nodes
    · obtain ⟨pair, isPair, rfl⟩ := mem_map.mp copies
      obtain ⟨flow, isFlow, rfl⟩ := mem_map.mp isPair
      exact (inside_valueFlows well flow (mem_filter.mp isFlow).1).2
    · obtain ⟨node, isNode, held⟩ := mem_flatMap.mp nodes
      obtain ⟨tree, inside, rfl⟩ := (mem_nodes well).mp isNode
      exact within_ofNode well resolution inside rule held

theorem satisfied_solution (well : arena.WellNumbered) (resolution : Resolution)
    (options : Options) :
    let solution := Solution.ofArena arena resolution (copiesOf arena) options
    ∀ rule ∈ solution.problem.rules, Satisfied solution.problem solution.state rule := by
  let problem := Problem.ofArena arena resolution (copiesOf arena) options
  obtain ⟨valid, facts, -⟩ := initial_spec well
  have closed := @iterate_closed problem _ (coherent_ofArena well resolution options)
    (problem.factBound + 1) 0 valid (by simp [facts]) (by omega)
  exact closed

end

end Seepage.Alias

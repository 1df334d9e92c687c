import Seepage.Proofs.Alias.Range

set_option autoImplicit false

namespace Seepage

open List

variable {items : NatSet} {node : Nat} {arena : Arena}

theorem Relation.exists_new {relation : Relation} {key : Nat}
    (old : NatSet.Sorted (relation.image key)) (new : NatSet.Sorted items)
    (gained : 0 < (relation.extend key items).2) :
    ∃ item ∈ (relation.extend key items).1.image key, item ∉ relation.image key := by
  by_contra known
  push Not at known
  have distinct : ((relation.extend key items).1.image key).Nodup := by
    rw [image_extend old new, if_pos rfl]
    exact (old.union new).nodup
  have few := List.Nodup.length_le_of_subset distinct known
  rw [length_image_extend old new, if_pos rfl] at few
  omega

theorem Store.exists_new {store : Store} {owner : Nat} {key : String}
    (old : NatSet.Sorted (store.get owner key)) (new : NatSet.Sorted items)
    (gained : 0 < (store.extend owner key items).2) :
    ∃ item ∈ (store.extend owner key items).1.get owner key, item ∉ store.get owner key := by
  by_contra known
  push Not at known
  have distinct : ((store.extend owner key items).1.get owner key).Nodup := by
    rw [get_extend old new, if_pos ⟨rfl, rfl⟩]
    exact (old.union new).nodup
  have few := List.Nodup.length_le_of_subset distinct known
  rw [length_get_extend old new, if_pos ⟨rfl, rfl⟩] at few
  omega

namespace Alias

variable {before after : State}

inductive Fact where
  | node (node location : Nat)
  | symbol (symbol location : Nat)
  | stored (owner : Nat) (key : String) (location : Nat)
  | receiver (function location : Nat)
  | prototype (inst location : Nat)
  | target (call function : Nat)

def State.Knows (state : State) : Fact → Prop
  | .node node location => location ∈ state.nodes.image node
  | .symbol symbol location => location ∈ state.symbols.image symbol
  | .stored owner key location => location ∈ state.stores.get owner key
  | .receiver function location => location ∈ state.receivers.image function
  | .prototype inst location => location ∈ state.prototypes.image inst
  | .target call function => function ∈ state.targets.image call

theorem Grows.knows (grows : Grows before after) {fact : Fact}
    (known : before.Knows fact) : after.Knows fact := by
  cases fact with
  | node node location => exact grows.nodes node location known
  | symbol symbol location => exact grows.symbols symbol location known
  | stored owner key location => exact grows.stores owner key location known
  | receiver function location => exact grows.receivers function location known
  | prototype inst location => exact grows.prototypes inst location known
  | target call function => exact grows.targets call function known

theorem Same.knows_iff (same : Same before after) (fact : Fact) :
    after.Knows fact ↔ before.Knows fact := by
  cases fact <;> simp only [State.Knows, same.nodes, same.symbols, same.stores, same.receivers,
    same.prototypes, same.targets]

variable {problem : Problem} {state next : State}

theorem exists_new_addNode (valid : Valid problem.arena state)
    (located : state.Located items) (more : state.facts < (state.addNode node items).facts) :
    ∃ fact, (state.addNode node items).Knows fact ∧ ¬state.Knows fact := by
  obtain ⟨location, new, old⟩ := Relation.exists_new (valid.nodes node).1 located.1
    (Nat.lt_add_right_iff_pos.mp more)
  exact ⟨.node node location, new, old⟩

theorem Step.exists_new (step : Step problem state next) (valid : Valid problem.arena state)
    (more : state.facts < next.facts) : ∃ fact, next.Knows fact ∧ ¬state.Knows fact := by
  cases step with
  | node _ located => exact exists_new_addNode valid located more
  | @symbol symbol items _ located =>
    obtain ⟨location, new, old⟩ := Relation.exists_new (valid.symbols symbol).1 located.1
      (Nat.lt_add_right_iff_pos.mp more)
    exact ⟨.symbol symbol location, new, old⟩
  | @receiver function items _ located =>
    obtain ⟨location, new, old⟩ := Relation.exists_new (valid.receivers function).1 located.1
      (Nat.lt_add_right_iff_pos.mp more)
    exact ⟨.receiver function location, new, old⟩
  | @prototype inst location =>
    obtain ⟨location, new, old⟩ := Relation.exists_new (valid.prototypes inst).1
      (.singleton location) (Nat.lt_add_right_iff_pos.mp more)
    exact ⟨.prototype inst location, new, old⟩
  | @target call function =>
    obtain ⟨function, new, old⟩ := Relation.exists_new (valid.targets call).1
      (.singleton function) (Nat.lt_add_right_iff_pos.mp more)
    exact ⟨.target call function, new, old⟩
  | @store owner key items writer _ _ located =>
    obtain ⟨location, new, old⟩ := Store.exists_new (valid.stores owner key).1 located.1
      (Nat.lt_add_right_iff_pos.mp more)
    exact ⟨.stored owner key location, new, old⟩
  | unknownOwner =>
    unfold State.unknownOwner at more
    split at more <;> exact absurd more (Nat.lt_irrefl _)
  | @external call isCall =>
    obtain ⟨grows, later, located⟩ := valid.external isCall
    have same : (state.external call).1.facts = state.facts := by
      unfold State.external
      split <;> rfl
    obtain ⟨fact, new, old⟩ := exists_new_addNode later located (same ▸ more)
    exact ⟨fact, new, fun known => old (grows.knows known)⟩

theorem Steps.exists_new (steps : Steps problem state next) (valid : Valid problem.arena state)
    (more : state.facts < next.facts) : ∃ fact, next.Knows fact ∧ ¬state.Knows fact := by
  induction steps with
  | refl => exact absurd more (Nat.lt_irrefl _)
  | @tail middle next earlier step ih =>
    obtain ⟨grows, held⟩ := Steps.both earlier valid
    rcases Nat.lt_or_ge state.facts middle.facts with here | later
    · obtain ⟨fact, new, old⟩ := ih here
      exact ⟨fact, (Steps.both (.single step) held).1.knows new, old⟩
    · obtain ⟨fact, new, old⟩ := step.exists_new held (Nat.lt_of_le_of_lt later more)
      exact ⟨fact, new, fun known => old (grows.knows known)⟩

end Alias

namespace Arena

def ownsLocation (arena : Arena) (id : Nat) : Bool :=
  (Alias.LocationKind.ofNode? (arena.kind id)).isSome || arena.kind id = .call ||
    arena.isAssignedMember id

def locationBound (arena : Arena) : Nat :=
  1 + arena.ids.countP (fun id => (Alias.LocationKind.ofNode? (arena.kind id)).isSome) +
    arena.ids.countP (arena.kind · = .call) + arena.ids.countP arena.isAssignedMember

theorem card_ownsLocation (arena : Arena) :
    (arena.ids.filter arena.ownsLocation).toFinset.card + 1 ≤ arena.locationBound := by
  have split : (arena.ids.filter arena.ownsLocation).toFinset ⊆
      (arena.ids.filter fun id => (Alias.LocationKind.ofNode? (arena.kind id)).isSome).toFinset ∪
        (arena.ids.filter (arena.kind · = .call)).toFinset ∪
        (arena.ids.filter arena.isAssignedMember).toFinset := by
    intro id
    simp only [ownsLocation, mem_toFinset, mem_filter, Finset.mem_union, Bool.or_eq_true]
    tauto
  have few : ∀ test : Nat → Bool, (arena.ids.filter test).toFinset.card ≤ arena.ids.countP test :=
    fun test => countP_eq_length_filter ▸ toFinset_card_le _
  unfold locationBound
  calc
    _ ≤ _ + 1 := Nat.add_le_add_right (Finset.card_le_card split) 1
    _ ≤ _ + _ + _ + 1 := by
      gcongr
      exact Nat.le_trans (Finset.card_union_le _ _)
        (Nat.add_le_add_right (Finset.card_union_le _ _) _)
    _ ≤ arena.ids.countP (fun id => (Alias.LocationKind.ofNode? (arena.kind id)).isSome) +
        arena.ids.countP (arena.kind · = .call) + arena.ids.countP arena.isAssignedMember + 1 := by
      gcongr <;> exact few _
    _ = _ := by omega

end Arena

namespace Alias

variable {problem : Problem} {state : State}

def Placed (arena : Arena) (locations : Array Location) : Prop :=
  ∀ id location, 0 < id → locations[id]? = some location → arena.ownsLocation location.node

theorem Placed.push {locations : Array Location} (placed : Placed arena locations)
    (owns : arena.ownsLocation node) (kind : LocationKind) :
    Placed arena (locations.push ⟨kind, node⟩) := by
  intro id location positive found
  rw [Array.getElem?_push] at found
  split at found
  · obtain rfl := Option.some.inj found
    exact owns
  · exact placed id location positive found

theorem placed_initial (well : arena.WellNumbered) :
    Placed arena (State.initial arena).locations := by
  have each : ∀ (nodes : List Node) (state : State), (∀ node ∈ nodes, node ∈ arena.nodes) →
      Placed arena state.locations → Placed arena (nodes.foldl State.allocate state).locations := by
    intro nodes
    induction nodes with
    | nil => exact fun _ _ placed => placed
    | cons node rest ih =>
      intro state listed placed
      obtain ⟨here, there⟩ := forall_mem_cons.mp listed
      refine ih _ there ?_
      unfold State.allocate
      split
      case h_1 kind creates =>
        refine placed.push ?_ kind
        obtain ⟨tree, inside, rfl⟩ := (mem_nodes well).mp here
        simp [Arena.ownsLocation, well.kind_eq inside, creates]
      case h_2 => exact placed
  refine each arena.nodes _ (fun _ listed => listed) ?_
  intro id location positive found
  simp [show id ≠ 0 by omega] at found

section

variable {β : Type} (part : State → β)

theorem keeps_enter (node : ∀ state node items, part (State.addNode state node items) = part state)
    (target : ∀ state call function, part (State.addTarget state call function) = part state)
    (receiver : ∀ state function items, part (State.addReceiver state function items) = part state)
    (site : CallSite) (state : State) (function : Nat) :
    part (enter problem site state function) = part state := by
  cases found : problem.arena.functionParts? function with
  | none => simp [enter, found, target]
  | some parts =>
    have passed : part (site.pass parts.params (state.addTarget site.call function)) = part state :=
      (keeps_foldl part (fun _ _ => node ..) _ _).trans (target ..)
    rw [enter_eq found]
    unfold CallSite.bindThis CallSite.giveBack
    split <;> split <;> simp only [receiver, node, passed]

theorem keeps_inherit
    (prototype : ∀ state inst location, part (State.addPrototype state inst location) = part state)
    (prepared : Prepared) (state : State) : part (prepared.inherit state) = part state := by
  unfold Prepared.inherit
  split
  · exact keeps_foldl part (fun _ _ => prototype ..) _ _
  · rfl

end

section

theorem locations_deposit (deposit : Deposit) (state : State) :
    (deposit.store state).locations = state.locations :=
  keeps_foldl (·.locations) (fun _ _ => keeps_foldl (·.locations) (fun _ _ => by rfl) _ _) _ _

theorem placed_call {call callee : Nat} {isNew : Bool}
    (isCall : problem.arena.kind call = if isNew then .new else .call)
    (placed : Placed problem.arena state.locations) :
    Placed problem.arena (applyCall problem call callee isNew state).locations := by
  let prepared := Prepared.of problem call callee isNew state
  have inherited : (prepared.inherit state).locations = state.locations :=
    keeps_inherit (·.locations) (fun _ _ _ => rfl) prepared state
  have entered : ∀ state, (prepared.enterAll problem state).locations = state.locations := fun _ =>
    keeps_foldl (·.locations) (keeps_enter (·.locations) (fun _ _ _ => rfl) (fun _ _ _ => rfl)
      (fun _ _ _ => rfl) _) _ _
  have stored : ∀ state : State, (((Deposit.of? problem.arena call callee).map (·.store state)).getD
      state).locations = state.locations := by
    intro state
    cases Deposit.of? problem.arena call callee with
    | none => rfl
    | some deposit => exact locations_deposit deposit state
  rw [applyCall_eq, Prepared.store_eq, stored, entered]
  unfold Prepared.answer
  split
  case isTrue host =>
    obtain rfl : isNew = false := Prepared.notNew_of_answers host
    have owns : problem.arena.ownsLocation call := by simp [Arena.ownsLocation, isCall]
    unfold State.external
    split
    · exact inherited ▸ placed
    · exact (inherited ▸ placed : Placed problem.arena (prepared.inherit state).locations).push owns _
  case isFalse => exact inherited ▸ placed

theorem placed_write {left object value : Nat} {key : Option String}
    (owns : problem.arena.ownsLocation left) (placed : Placed problem.arena state.locations) :
    Placed problem.arena (applyWrite left object key value state).locations := by
  have stores : ∀ (state : State) (owners values : NatSet), (owners.foldl (fun state owner =>
      state.addStore owner (key.getD anyKey) values left) state).locations = state.locations :=
    fun state owners values => keeps_foldl (·.locations) (fun _ _ => by rfl) owners state
  unfold applyWrite
  simp only
  rw [stores]
  split
  · unfold State.unknownOwner
    split
    · exact placed
    · exact placed.push owns _
  · exact placed

end

theorem placed_member (holder property value : Nat) (key : Option String)
    (placed : Placed problem.arena state.locations) :
    Placed problem.arena
      (applyMember problem.arena holder property key value state).locations := by
  unfold applyMember
  split
  · exact placed
  · split
    · split <;> exact placed
    · exact placed

theorem Reached.placed (reached : Reached problem state) (coherent : problem.Coherent) :
    Placed problem.arena state.locations := by
  induction reached with
  | start => exact placed_initial coherent.numbered
  | @apply state rule _ member ih =>
    cases rule with
    | write left object key value =>
      have owns : problem.arena.ownsLocation left := by
        simp [Arena.ownsLocation, (coherent.within _ member).1]
      exact placed_write owns ih
    | member holder property key value =>
      cases value with
      | none => exact ih
      | some value => exact placed_member holder property value key ih
    | call call callee isNew => exact placed_call (coherent.within _ member).1 ih
    | _ => exact ih

theorem Valid.size_le_bound (valid : Valid problem.arena state)
    (placed : Placed problem.arena state.locations) :
    state.locations.size ≤ problem.arena.locationBound := by
  refine Nat.le_trans (valid.assigned.size_le_card fun id location positive found => ?_)
    problem.arena.card_ownsLocation
  have owns := placed id location positive found
  have inside := valid.assigned.node_lt positive found
  simpa [Arena.ids, owns] using inside

theorem passes_end {file : Script.File} {arena : Arena} (read : Arena.ofFile file = .ok arena)
    (options : Options) :
    let heap := Solution.onPage arena options
    let after (count : Nat) : State := (pass heap.problem)^[count] (.initial arena)
    (∃ last, heap.passes = last + 1 ∧ heap.state = after (last + 1) ∧
      (after (last + 1)).facts = (after last).facts ∧
      (∀ fact, (after (last + 1)).Knows fact ↔ (after last).Knows fact) ∧
      ∀ count < last, (after count).facts < (after (count + 1)).facts ∧
        ∃ fact, (after (count + 1)).Knows fact ∧ ¬(after count).Knows fact) ∧
    (∀ count, Reached heap.problem (after count)) ∧
    ∀ state, Reached heap.problem state → state.locations.size ≤ arena.locationBound ∧
      ∀ rule ∈ heap.problem.rules, ∀ fact, state.Knows fact →
        (rule.apply heap.problem state).Knows fact := by
  intro heap after
  have well := Arena.wellNumbered_ofFile read
  have coherent : heap.problem.Coherent := coherent_ofArena well (Resolution.ofArena arena) options
  obtain ⟨valid, facts, -⟩ := initial_spec well
  have step : ∀ count, after (count + 1) = pass heap.problem (after count) :=
    fun count => Function.iterate_succ_apply' ..
  have reached : ∀ count, Reached heap.problem (after count) := by
    intro count
    induction count with
    | zero => exact .start
    | succ count ih =>
      rw [step]
      exact ih.pass
  have valids : ∀ count, Valid arena (after count) := fun count => (reached count).valid coherent
  have steps : ∀ count, Steps heap.problem (after count) (after (count + 1)) := by
    intro count
    rw [step]
    exact (adds_pass coherent (valids count)).1
  refine ⟨?_, reached, fun state known => ⟨?_, fun rule member fact knows => ?_⟩⟩
  · obtain ⟨last, -, ends, quiet, loud⟩ := @iterate_passes heap.problem _ coherent
      (heap.problem.factBound + 1) 0 valid (by simp [facts]) (by omega)
    have still : (after (last + 1)).facts = (after last).facts := by rw [step]; exact quiet
    have same := Steps.same (steps last) (valids last) still
    have solved : (heap.state, heap.passes) = (after (last + 1), 0 + last + 1) := by
      rw [step]
      exact ends
    obtain ⟨final, counted⟩ := Prod.mk.inj solved
    refine ⟨last, by omega, final, still, same.knows_iff, fun count small => ⟨loud count small, ?_⟩⟩
    exact Steps.exists_new (steps count) (valids count) (loud count small)
  · exact (known.valid coherent).size_le_bound (known.placed coherent)
  · have adds := adds_apply coherent (known.valid coherent) member
    exact (Steps.both adds.1 (known.valid coherent)).1.knows knows

-- `var a = {}; a.x = a; f(a.x);`
def selfContained : Script.File := .sample [
  .vars .varBinding [.mk (.ident "a") (some (.object [] {})) {}] {},
  .expr (.assign "=" (.member (.ident "a") (.named "x") false {}) (.ident "a") {}) {},
  .expr (.call (.ident "f") [.member (.ident "a") (.named "x") false {}] false {}) {}]

theorem passes_end_selfContained : ∃ arena, Arena.ofFile selfContained = .ok arena ∧
      let heap := Solution.onPage arena {}
      let after (count : Nat) : State := (pass heap.problem)^[count] (.initial arena)
      heap.passes = 5 ∧ heap.state.locations.size = 4 ∧ arena.locationBound = 4 ∧
        (after 4).locations.size ≤ 4 ∧ (∀ fact, heap.state.Knows fact ↔ (after 4).Knows fact) ∧
        ∀ count < 4, ∃ fact, (after (count + 1)).Knows fact ∧ ¬(after count).Knows fact := by
  obtain ⟨arena, read⟩ : ∃ arena, Arena.ofFile selfContained = .ok arena := ⟨_, rfl⟩
  refine ⟨arena, read, ?_⟩
  intro heap after
  obtain ⟨passes, size, bound⟩ :
      heap.passes = 5 ∧ heap.state.locations.size = 4 ∧ arena.locationBound = 4 := by
    cases read
    decide +kernel
  obtain ⟨⟨last, counted, final, -, same, loud⟩, reached, kept⟩ := passes_end read {}
  obtain rfl : last = 4 := Nat.succ.inj (counted.symm.trans passes)
  refine ⟨passes, size, bound, bound ▸ (kept _ (reached 4)).1, ?_, fun count small =>
    (loud count small).2⟩
  rw [final]
  exact same

end Alias

end Seepage

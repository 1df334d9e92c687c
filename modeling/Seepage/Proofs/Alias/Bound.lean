import Mathlib.Algebra.Order.BigOperators.Group.Finset
import Mathlib.Order.Interval.Finset.Nat
import Mathlib.Tactic.Ring
import Seepage.Proofs.Alias.Closure

set_option autoImplicit false

namespace Seepage.Alias

open List

variable {problem : Problem} {state next : State}

section

variable {arena : Arena} {locations : Array Location} {locationOf unknownOwners : Std.TreeMap Nat Nat}
  (assigned : Assigned arena locations locationOf unknownOwners)

include assigned

theorem Assigned.owned_of_mem {id : Nat} (member : id ∈ Finset.Ico 1 locations.size) :
    let node := (locations.getD id ⟨.global, Arena.root⟩).node
    locationOf[node]? = some id ∨ unknownOwners[node]? = some id := by
  obtain ⟨positive, known⟩ := Finset.mem_Ico.mp member
  have found := assigned.owned id _ positive (Array.getElem?_eq_getElem known)
  simpa [known] using found

theorem Assigned.injOn : Set.InjOn (fun id => (locations.getD id ⟨.global, Arena.root⟩).node)
    (Finset.Ico 1 locations.size) := by
  intro first isFirst second isSecond same
  have atFirst := assigned.owned_of_mem isFirst
  have atSecond := assigned.owned_of_mem isSecond
  simp only at same atFirst atSecond
  rw [same] at atFirst
  -- a node with both kinds of location would be a member access and none
  have apart : ∀ node id id' : Nat, locationOf[node]? = some id →
      unknownOwners[node]? = some id' → False := by
    intro node id id' created unknown
    obtain ⟨-, key, isMember⟩ := assigned.unknown _ _ unknown
    exact (assigned.allocated _ _ created).2.2 key isMember
  rcases atFirst with created | unknown <;> rcases atSecond with created' | unknown'
  · exact Option.some.inj (created.symm.trans created')
  · exact (apart _ _ _ created unknown').elim
  · exact (apart _ _ _ created' unknown).elim
  · exact Option.some.inj (unknown.symm.trans unknown')

theorem Assigned.size_le_card {places : Finset Nat} (inside : ∀ id location, 0 < id →
    locations[id]? = some location → location.node ∈ places) :
    locations.size ≤ places.card + 1 := by
  have few : (Finset.Ico 1 locations.size).card ≤ places.card := by
    refine Finset.card_le_card_of_injOn _ (fun id member => ?_) assigned.injOn
    obtain ⟨positive, known⟩ := Finset.mem_Ico.mp member
    simpa [known] using inside id _ positive (Array.getElem?_eq_getElem known)
  simpa [Nat.card_Ico] using few

theorem Assigned.size_le : locations.size ≤ arena.size + 1 := by
  have few := @Assigned.size_le_card _ _ _ _ assigned (Finset.range arena.size) ?_
  · simpa using few
  · intro id location positive known
    exact Finset.mem_range.mpr (assigned.node_lt positive known)

end

def count (problem : Problem) (state : State) : Nat :=
  let nodes := Finset.range problem.arena.size
  let locations := Finset.range (problem.arena.size + 1)
  ∑ node ∈ nodes, (state.nodes.image node).length +
  ∑ function ∈ nodes, (state.receivers.image function).length +
  ∑ symbol ∈ problem.symbols, (state.symbols.image symbol).length +
  ∑ inst ∈ locations, (state.prototypes.image inst).length +
  ∑ owner ∈ locations, ∑ key ∈ problem.keys, (state.stores.get owner key).length +
  ∑ call ∈ nodes, (state.targets.image call).length

theorem sum_le_mul {ι : Type} {places : Finset ι} {size : ι → Nat} {limit most : Nat}
    (few : places.card ≤ limit) (small : ∀ place ∈ places, size place ≤ most) :
    ∑ place ∈ places, size place ≤ limit * most := by
  have total := Finset.sum_le_card_nsmul places size most small
  exact Nat.le_trans total (Nat.mul_le_mul_right most few)

theorem count_le (valid : Valid problem.arena state) : count problem state ≤ problem.factBound := by
  have few : ∀ items, state.Located items → items.length ≤ problem.arena.size + 1 :=
    fun items located => Nat.le_trans (located.1.length_le located.2) valid.assigned.size_le
  have symbols : problem.symbols.card ≤ problem.rules.length :=
    Nat.le_trans (toFinset_card_le _) (length_filterMap_le _ _)
  have keys : problem.keys.card ≤ problem.rules.length + 2 := by
    refine Nat.le_trans (toFinset_card_le _) ?_
    rw [length_append]
    exact Nat.add_le_add_right (length_filterMap_le _ _) 2
  let nodes := problem.arena.size
  let rules := problem.rules.length
  unfold count Problem.factBound
  calc
    _ ≤ nodes * (nodes + 1) + nodes * (nodes + 1) + rules * (nodes + 1) +
          (nodes + 1) * (nodes + 1) + (nodes + 1) * ((rules + 2) * (nodes + 1)) +
          nodes * nodes := by
      gcongr ?_ + ?_ + ?_ + ?_ + ?_ + ?_
      · exact sum_le_mul (by simp [nodes]) fun node _ => few _ (valid.nodes node)
      · exact sum_le_mul (by simp [nodes]) fun function _ => few _ (valid.receivers function)
      · exact sum_le_mul symbols fun symbol _ => few _ (valid.symbols symbol)
      · exact sum_le_mul (by simp [nodes]) fun inst _ => few _ (valid.prototypes inst)
      · refine sum_le_mul (by simp [nodes]) fun owner _ => ?_
        exact sum_le_mul keys fun key _ => few _ (valid.stores owner key)
      · refine sum_le_mul (by simp [nodes]) fun call _ => ?_
        exact (valid.targets call).1.length_le (valid.targets call).2
    _ = _ := by ring

theorem counted_addNode (valid : Valid problem.arena state) {node : Nat} {items : NatSet}
    (inside : node < problem.arena.size) (located : state.Located items)
    (counted : state.facts ≤ count problem state) :
    (state.addNode node items).facts ≤ count problem (state.addNode node items) := by
  have more := Relation.sum_extend (valid.nodes node).1 located.1 (Finset.mem_range.mpr inside)
  simp only [count, State.addNode] at counted ⊢
  omega

theorem Step.counted (step : Step problem state next) (valid : Valid problem.arena state)
    (counted : state.facts ≤ count problem state) : next.facts ≤ count problem next := by
  have isLocation : ∀ id < state.locations.size, id ∈ Finset.range (problem.arena.size + 1) :=
    fun id known => Finset.mem_range.mpr (Nat.lt_of_lt_of_le known valid.assigned.size_le)
  cases step with
  | node inside located => exact counted_addNode valid inside located counted
  | symbol known located =>
    have more := Relation.sum_extend (valid.symbols _).1 located.1 known
    simp only [count, State.addSymbol] at counted ⊢
    omega
  | receiver inside located =>
    have more := Relation.sum_extend (valid.receivers _).1 located.1 (Finset.mem_range.mpr inside)
    simp only [count, State.addReceiver] at counted ⊢
    omega
  | @prototype inst location known located =>
    have more := Relation.sum_extend (valid.prototypes inst).1 (.singleton location)
      (isLocation inst known)
    simp only [count, State.addPrototype] at counted ⊢
    omega
  | @target call function inside located =>
    have more := Relation.sum_extend (valid.targets call).1 (.singleton function)
      (Finset.mem_range.mpr inside)
    simp only [count, State.addTarget] at counted ⊢
    omega
  | store known listed located writes =>
    have more := Store.sum_extend (valid.stores _ _).1 located.1 (isLocation _ known) listed
    simp only [count, State.addStore] at counted ⊢
    omega
  | unknownOwner isMember =>
    unfold State.unknownOwner
    split <;> exact counted
  | @external call isCall =>
    obtain ⟨-, later, located⟩ := valid.external isCall
    have inside : call < problem.arena.size := Arena.lt_size_of_kind (by simp [isCall])
    refine counted_addNode later inside located ?_
    unfold State.external
    split <;> exact counted

theorem Steps.counted (steps : Steps problem state next) (valid : Valid problem.arena state)
    (counted : state.facts ≤ count problem state) : next.facts ≤ count problem next := by
  induction steps with
  | refl => exact counted
  | tail earlier step ih => exact step.counted (Steps.valid earlier valid) ih

theorem adds_pass (coherent : problem.Coherent) (valid : Valid problem.arena state) :
    Adds problem state (pass problem state) (∀ rule ∈ problem.rules, Satisfied problem state rule) := by
  rw [pass, foldr_eq_foldl_reverse]
  refine (adds_foldl valid fun middle held _ rule member =>
    adds_apply coherent held (mem_reverse.mp member)).imp fun all rule member => ?_
  obtain ⟨middle, same, satisfied⟩ := all rule (mem_reverse.mpr member)
  exact (same.satisfied_iff valid rule).mp satisfied

section

variable (coherent : problem.Coherent) (fuel passes : Nat) (valid : Valid problem.arena state)
  (counted : state.facts ≤ count problem state) (enough : problem.factBound < fuel + state.facts)

include coherent fuel passes valid counted enough

theorem iterate_passes : ∃ earlier, Steps problem state ((pass problem)^[earlier] state) ∧
      iterate problem fuel passes state =
        (pass problem ((pass problem)^[earlier] state), passes + earlier + 1) ∧
      (pass problem ((pass problem)^[earlier] state)).facts =
        ((pass problem)^[earlier] state).facts ∧
      ∀ count < earlier,
        ((pass problem)^[count] state).facts < ((pass problem)^[count + 1] state).facts := by
  induction fuel generalizing passes state with
  | zero =>
    have few := count_le valid
    omega
  | succ fuel ih =>
    have adds := adds_pass coherent valid
    obtain ⟨grows, later⟩ := Steps.both adds.1 valid
    rw [iterate]
    split
    case isTrue quiet => exact ⟨0, .refl, rfl, quiet, fun count small => by omega⟩
    case isFalse loud =>
      have more : state.facts < (pass problem state).facts :=
        Nat.lt_of_le_of_ne grows.facts (Ne.symm loud)
      obtain ⟨earlier, steps, last, quiet, loudly⟩ :=
        ih (passes + 1) later (Steps.counted adds.1 valid counted) (by omega)
      refine ⟨earlier + 1, adds.1.trans steps, ?_, quiet, fun count small => ?_⟩
      · rw [last]
        congr 1
        omega
      · cases count with
        | zero => exact more
        | succ count => exact loudly count (by omega)

theorem iterate_last : ∃ before, Steps problem state before ∧
      (iterate problem fuel passes state).1 = pass problem before ∧
      (pass problem before).facts = before.facts := by
  obtain ⟨earlier, steps, last, quiet, -⟩ :=
    iterate_passes coherent fuel passes valid counted enough
  exact ⟨_, steps, congrArg Prod.fst last, quiet⟩

theorem iterate_closed : ∀ rule ∈ problem.rules,
    Satisfied problem (iterate problem fuel passes state).1 rule := by
  obtain ⟨before, steps, last, quiet⟩ := iterate_last coherent fuel passes valid counted enough
  have held := Steps.valid steps valid
  have adds := adds_pass coherent held
  have same := Steps.same adds.1 held quiet
  rw [last]
  exact fun rule member => (same.satisfied_iff held rule).mpr (adds.2 quiet rule member)

end

end Seepage.Alias

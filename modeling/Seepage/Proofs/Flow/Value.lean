import Mathlib.Data.List.Basic
import Seepage.Flow.Value
import Seepage.Proofs.Tree.Arena

set_option autoImplicit false

namespace Seepage

open List ValueFlow

def Edge.Inside (arena : Arena) (edge : Edge) : Prop :=
  edge.source < arena.size ∧ edge.target < arena.size

def ValueFlow.Inside (arena : Arena) (flow : ValueFlow) : Prop :=
  flow.source < arena.size ∧ flow.target < arena.size

section

variable {arena : Arena} {value target : Nat} (first : value < arena.size)
  (last : target < arena.size) (kind : DataKind)

include first last kind

theorem ValueFlow.inside_part : (part value target kind).Inside arena :=
  ⟨first, last⟩

theorem ValueFlow.inside_copy : (copy value target kind).Inside arena :=
  ⟨first, last⟩

theorem ValueFlow.inside_bind : (bind arena value target kind).Inside arena := by
  unfold bind
  split
  · exact inside_part first last _
  · exact inside_copy first last _

end

section

variable {arena : Arena} (well : arena.WellNumbered)

include well

theorem lt_of_mem_iterationTargets {head target : Nat} (known : head < arena.size)
    (member : target ∈ arena.iterationTargets head) : target < arena.size := by
  unfold Arena.iterationTargets at member
  split at member
  · obtain ⟨declarator, -, found⟩ := mem_filterMap.mp member
    exact well.lt_of_child? found
  · exact mem_singleton.mp member ▸ known

theorem lt_of_memberTarget? {part target : Nat} (known : part < arena.size)
    (found : arena.memberTarget? part = some target) : target < arena.size := by
  unfold Arena.memberTarget? at found
  split at found
  · exact well.lt_of_propertyValue? found
  · exact Option.some.inj found ▸ known

theorem inside_valueFlowsOf {node : Node} (own : node.id < arena.size)
    (below : ∀ child ∈ node.children, child < arena.size) :
    ∀ flow ∈ valueFlowsOf arena node, flow.Inside arena := by
  obtain ⟨id, kind, place, ancestors, children⟩ := node
  intro flow member
  unfold valueFlowsOf at member
  simp only at member own below
  have parts {first : Nat} (held : first ∈ children) : first < arena.size := below first held
  split at member
  case h_1 =>
    obtain rfl := mem_singleton.mp member
    exact inside_bind (parts (by simp)) (parts (by simp)) _
  case h_2 =>
    rcases mem_append.mp member with binds | reads
    · rcases mem_pair.mp binds with rfl | rfl
      · exact inside_bind (parts (by simp)) (parts (by simp)) _
      · exact inside_copy (parts (by simp)) own _
    · split at reads
      · cases reads
      · obtain rfl := mem_singleton.mp reads
        exact inside_part (parts (by simp)) own _
  case h_3 | h_4 =>
    obtain ⟨target, listed, rfl⟩ := mem_map.mp member
    exact inside_part (parts (by simp))
      (lt_of_mem_iterationTargets well (parts (by simp)) listed) _
  case h_14 =>
    split at member
    · obtain ⟨value, found, rfl⟩ := mem_map.mp member
      exact ⟨well.lt_of_propertyValue? (Option.mem_toList.mp found), own⟩
    · cases member
  case h_15 =>
    rcases mem_pair.mp member with rfl | rfl
    · exact inside_copy (parts (by simp)) own _
    · exact inside_copy (parts (by simp)) own _
  case h_16 =>
    obtain ⟨last, found, rfl⟩ := mem_map.mp member
    exact ⟨parts (mem_of_getLast? (Option.mem_toList.mp found)), own⟩
  case h_17 | h_18 =>
    obtain rfl := mem_singleton.mp member
    exact inside_copy (parts (by simp)) own _
  case h_19 =>
    split at member
    · cases member
    · obtain rfl := mem_singleton.mp member
      exact inside_part (parts (by simp)) own _
  case h_20 =>
    obtain ⟨target, listed, rfl⟩ := mem_map.mp member
    obtain ⟨part, held, found⟩ := mem_filterMap.mp listed
    exact ⟨own, lt_of_memberTarget? well (parts held) found⟩
  case h_21 =>
    obtain ⟨element, held, rfl⟩ := mem_map.mp member
    exact ⟨own, parts held⟩
  case h_22 =>
    rcases mem_pair.mp member with rfl | rfl
    · exact inside_copy (parts (by simp)) own _
    · exact inside_bind own (parts (by simp)) _
  case h_23 =>
    obtain rfl := mem_singleton.mp member
    exact inside_copy own (parts (by simp)) _
  case h_24 => cases member
  all_goals
    obtain ⟨part, held, rfl⟩ := mem_map.mp member
    exact ⟨parts held, own⟩

theorem inside_valueFlows : ∀ flow ∈ valueFlows arena, flow.Inside arena := by
  intro flow listed
  obtain ⟨node, isNode, held⟩ := mem_flatMap.mp listed
  obtain ⟨tree, inside, rfl⟩ := mem_map.mp isNode
  have inside : tree ∈ arena.tree.subtrees := by simpa [well.stored] using inside
  have own := well.id_lt inside
  refine inside_valueFlowsOf well own (fun child below => ?_) flow held
  apply well.lt_of_mem_children
  rw [Arena.children, well.node_eq inside]
  exact below

end

end Seepage

import Seepage.Proofs.Taint.Search
import Seepage.Proofs.Taint.Seeds
import Seepage.Proofs.Taint.Sink

set_option autoImplicit false

namespace Seepage.Taint

open List

variable {hit : Hit} {node : GlobalNode} {hop : Option GlobalNode} {way : List GlobalNode}

section

variable {program : Program} (consistent : program.Consistent) {sinks : ApiFilter} {label : Label}
  {order : List GlobalNode}

include consistent

theorem filter_found {call : GlobalNode} {name : String} (sink : IsSink program sinks call name)
    (foreign : label.apiName? ≠ some name) :
    ((order.filterMap fun node => (sinkAt? program sinks node).bind fun (call, api) =>
        if label.apiName? = some api then none else some (call, api, node)).filter
      (·.1 = call)).map (·.2) =
      (order.filter fun node => decide (IsHit program call node)).map fun node => (name, node) := by
  induction order with
  | nil => rfl
  | cons node rest ih =>
    by_cases hit : IsHit program call node
    · have here := (sinkAt_eq_some consistent).mpr ⟨sink, hit⟩
      simp [here, hit, foreign, ih]
    · cases other : sinkAt? program sinks node with
      | none => simp [other, hit, ih]
      | some found =>
        obtain ⟨call', name'⟩ := found
        have differ : call' ≠ call := by
          rintro rfl
          exact hit ((sinkAt_eq_some consistent).mp other).2
        by_cases own : label.apiName? = some name'
        · rw [filterMap_cons_none (by simp [other, own]), ih]
          simp [hit]
        · simp [other, own, hit, differ, ih]

theorem mem_hits :
    hit ∈ hits program sinks label order ↔
      IsSink program sinks hit.call hit.api ∧ label.apiName? ≠ some hit.api ∧ hit.nodes ≠ [] ∧
        hit.nodes = order.filter fun node => decide (IsHit program hit.call node) := by
  simp only [hits, mem_filterMap, Prod.exists, Option.map_eq_some_iff,
    Adjacency.mem_toList_ofList]
  constructor
  · rintro ⟨call, reached, ⟨-, listed⟩, api, first, atHead, rfl⟩
    have member : (api, first) ∈ reached := mem_of_head? atHead
    have found := listed ▸ member
    simp only [mem_map, mem_filter, mem_filterMap, Option.bind_eq_some_iff,
      decide_eq_true_eq, Prod.exists] at found
    obtain ⟨_, _, _, ⟨⟨node, -, call', api', here, shape⟩, rfl⟩, same⟩ := found
    split at shape
    case isTrue => cases shape
    case isFalse foreign =>
      obtain ⟨rfl, rfl, rfl⟩ := shape
      obtain ⟨rfl, rfl⟩ := Prod.mk.inj same
      have sink := ((sinkAt_eq_some consistent).mp here).1
      rw [filter_found consistent sink foreign] at listed
      refine ⟨sink, foreign, ?_, ?_⟩
      · intro empty
        rw [map_eq_nil_iff.mp empty] at member
        cases member
      · simp [listed, Function.comp_def]
  · rintro ⟨sink, foreign, some, nodes⟩
    obtain ⟨call, name, through⟩ := hit
    obtain ⟨first, rest, rfl⟩ := exists_cons_of_ne_nil some
    refine ⟨call, (first :: rest).map fun node => (name, node), ⟨by simp, ?_⟩, name, first, rfl, ?_⟩
    · rw [filter_found consistent sink foreign, ← nodes]
    · simp [Function.comp_def]

omit consistent in
variable (program sinks label order) in
theorem nodup_hits : ((hits program sinks label order).map Hit.call).Nodup := by
  rw [nodup_iff_pairwise_ne, pairwise_map]
  refine List.Pairwise.filterMap _ ?_ (pairwise_map.mp (Adjacency.nodup_keys _))
  rintro ⟨call, reached⟩ ⟨call', reached'⟩ differ hit found hit' found'
  simp only [Option.map_eq_some_iff] at found found'
  obtain ⟨-, -, rfl⟩ := found
  obtain ⟨-, -, rfl⟩ := found'
  exact differ

end

def lastHop? (way : List GlobalNode) : Option GlobalNode :=
  way.dropLast.getLast?

def IsHop (program : Program) (seen : GlobalNode → Prop) (node : GlobalNode) :
    Option GlobalNode → Prop
  | some before => (∃ kind, (before, kind) ∈ program.predecessors node) ∧ seen before
  | none => ∀ before, (∃ kind, (before, kind) ∈ program.predecessors node) → ¬seen before

theorem mem_lastHops {program : Program} {trace : Trace} :
    hop ∈ (lastHops program trace node).map (·.1) ↔
      IsHop program (· ∈ trace.ways) node hop := by
  have listed : ∀ before, before ∈ sortDistinct GlobalNode.le
      (((program.predecessors node).map (·.1)).filter trace.ways.contains) ↔
      (∃ kind, (before, kind) ∈ program.predecessors node) ∧ before ∈ trace.ways := by
    simp [mem_sortDistinct]
  unfold lastHops
  simp only
  split
  case h_1 empty =>
    simp only [empty, not_mem_nil, false_iff, not_and] at listed
    cases hop with
    | none => simpa [IsHop] using listed
    | some before => simpa [IsHop] using listed before
  case h_2 some =>
    cases hop with
    | none =>
      obtain ⟨before, member⟩ := exists_mem_of_ne_nil _ some
      have := (listed before).mp member
      simp only [map_map, Function.comp_def, mem_map, reduceCtorEq, and_false,
        exists_false, IsHop, false_iff]
      intro none
      exact none before this.1 this.2
    | some before =>
      simp [IsHop, ← listed, Function.comp_def]

theorem of_mem_lastHops {program : Program} {trace : Trace}
    (member : (hop, way) ∈ lastHops program trace node) :
    IsHop program (· ∈ trace.ways) node hop ∧
      (hop = none ∧ way = trace.wayTo node ∨
        ∃ before, hop = some before ∧ way = trace.wayTo before ++ [node]) := by
  refine ⟨mem_lastHops.mp (mem_map_of_mem (f := (·.1)) member), ?_⟩
  unfold lastHops at member
  simp only at member
  split at member
  case h_1 => exact .inl (Prod.mk.inj (mem_singleton.mp member))
  case h_2 =>
    obtain ⟨before, -, shape⟩ := mem_map.mp member
    cases shape
    exact .inr ⟨before, rfl, rfl⟩

theorem lastHop_of_mem {program : Program} (linked : program.Linked) {trace : Trace}
    {seeds : List GlobalNode} (valid : trace.Valid program seeds) (reached : node ∈ trace.ways)
    (member : (hop, way) ∈ lastHops program trace node) : lastHop? way = hop := by
  obtain ⟨isHop, ⟨rfl, rfl⟩ | ⟨before, rfl, rfl⟩⟩ := of_mem_lastHops member
  · obtain ⟨way, known⟩ := Trace.mem_ways_iff.mp reached
    obtain ⟨rest, rfl, ⟨rfl, -⟩ | ⟨before, earlier, flows⟩⟩ := valid.way node way known
    · simp [Trace.wayTo, Std.TreeMap.getD_eq_getD_getElem?, known, lastHop?]
    · obtain ⟨kind, flow⟩ := linked.flows_iff.mp flows
      refine absurd (Trace.mem_ways_iff.mpr ⟨_, earlier⟩) (isHop before ?_)
      exact ⟨kind, linked.mem_predecessors.mpr flow⟩
  · obtain ⟨way, known⟩ := Trace.mem_ways_iff.mp isHop.2
    obtain ⟨rest, rfl, -⟩ := valid.way before way known
    simp [Trace.wayTo, Std.TreeMap.getD_eq_getD_getElem?, known, lastHop?]

theorem mem_waysByHop {program : Program} {trace : Trace} :
    (hop, way) ∈ (waysByHop program trace hit).toList ↔
      ((hit.nodes.flatMap (lastHops program trace)).find? (·.1 = hop)).map (·.2) = some way := by
  rw [Std.TreeMap.mem_toList_iff_getElem?_eq_some, waysByHop, Adjacency.getElem?_foldl_insertIfNew]
  simp

theorem mem_lastHops_of_mem_waysByHop {program : Program} {trace : Trace}
    (kept : (hop, way) ∈ (waysByHop program trace hit).toList) :
    ∃ node ∈ hit.nodes, (hop, way) ∈ lastHops program trace node := by
  obtain ⟨⟨_, _⟩, found, rfl⟩ := Option.map_eq_some_iff.mp (mem_waysByHop.mp kept)
  obtain rfl : _ = hop := by simpa using find?_some found
  exact mem_flatMap.mp (mem_of_find?_eq_some found)

theorem head_pathsOf {program : Program} {mode : PathMode} {trace : Trace} {seeds : List GlobalNode}
    (valid : trace.Valid program seeds) (reached : ∀ node ∈ hit.nodes, node ∈ trace.ways)
    (shown : way ∈ pathsOf program mode trace hit) : ∃ seed ∈ seeds, way.head? = some seed := by
  cases mode with
  | deduplicated =>
    obtain ⟨node, first, rfl⟩ := mem_map.mp shown
    rw [Option.mem_toList] at first
    exact valid.head_wayTo (reached node (mem_of_head? first))
  | detailed =>
    obtain ⟨⟨hop, _⟩, kept, rfl⟩ := mem_map.mp shown
    obtain ⟨node, inside, last⟩ := mem_lastHops_of_mem_waysByHop kept
    obtain ⟨isHop, ⟨rfl, rfl⟩ | ⟨before, rfl, rfl⟩⟩ := of_mem_lastHops last
    · exact valid.head_wayTo (reached node inside)
    · obtain ⟨seed, member, head⟩ := valid.head_wayTo isHop.2
      exact ⟨seed, member, by simp [head]⟩

theorem pathsOf_detailed {program : Program} (linked : program.Linked) {trace : Trace}
    {seeds : List GlobalNode} (valid : trace.Valid program seeds)
    (reached : ∀ node ∈ hit.nodes, node ∈ trace.ways) :
    ((pathsOf program .detailed trace hit).map lastHop?).Nodup ∧
      ∀ hop, hop ∈ (pathsOf program .detailed trace hit).map lastHop? ↔
        ∃ node ∈ hit.nodes, IsHop program (· ∈ trace.ways) node hop := by
  have hops : (pathsOf program .detailed trace hit).map lastHop? =
      (waysByHop program trace hit).toList.map (·.1) := by
    rw [pathsOf, map_map]
    refine map_congr_left ?_
    rintro ⟨hop, way⟩ kept
    obtain ⟨node, inside, last⟩ := mem_lastHops_of_mem_waysByHop kept
    exact lastHop_of_mem linked valid (reached node inside) last
  rw [hops]
  refine ⟨Adjacency.nodup_keys _, fun hop => ?_⟩
  simp only [← mem_lastHops, mem_map, Prod.exists, exists_and_right, exists_eq_right]
  constructor
  · rintro ⟨way, kept⟩
    obtain ⟨node, inside, last⟩ := mem_lastHops_of_mem_waysByHop kept
    exact ⟨node, inside, way, last⟩
  · rintro ⟨node, inside, way, last⟩
    have known : ((hit.nodes.flatMap (lastHops program trace)).find? (·.1 = hop)).isSome := by
      rw [find?_isSome]
      exact ⟨_, mem_flatMap.mpr ⟨node, inside, last⟩, by simp⟩
    obtain ⟨entry, found⟩ := Option.isSome_iff_exists.mp known
    exact ⟨entry.2, mem_waysByHop.mpr (by simp [found])⟩

theorem mem_findings {program : Program} {settings : Settings} {finding : Finding} :
    finding ∈ (analyze program settings).findings ↔
      ∃ label nodes hit way, (label, nodes) ∈ seeds program settings.sources ∧
        hit ∈ hits program settings.sinks label (trace program nodes).order ∧
        way ∈ pathsOf program settings.mode (trace program nodes) hit ∧
        findingOf program label hit way = finding := by
  simp only [analyze, conclude, mem_mergeSort, flatMap_map, mem_flatMap, findingsOf,
    mem_map, Prod.exists, exists_and_left]

end Seepage.Taint

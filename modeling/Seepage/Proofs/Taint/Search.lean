import Mathlib.Tactic.Tauto
import Seepage.Proofs.Program.Flow
import Seepage.Taint.Trace

set_option autoImplicit false

namespace Seepage

open List

variable {node next : GlobalNode} {way rest : List GlobalNode} {program : Program}

namespace Taint

namespace Trace

structure Valid (program : Program) (seeds : List GlobalNode) (trace : Trace) : Prop where
  reached : ∀ node, node ∈ trace.ways ↔ node ∈ trace.visited ∨ node ∈ trace.queue
  distinct : (trace.visited ++ trace.queue).Nodup
  started : ∀ seed ∈ seeds, seed ∈ trace.ways
  way : ∀ node way, trace.ways[node]? = some way → ∃ rest, way = node :: rest ∧
    (rest = [] ∧ node ∈ seeds ∨
      ∃ before, trace.ways[before]? = some rest ∧ program.Flows before node)

theorem mem_ways_iff {trace : Trace} : node ∈ trace.ways ↔ ∃ way, trace.ways[node]? = some way :=
  Std.TreeMap.mem_iff_isSome_getElem?.trans Option.isSome_iff_exists

def Closed (program : Program) (trace : Trace) : Prop :=
  ∀ node ∈ trace.visited, ∀ next, program.Flows node next → next ∈ trace.ways

theorem ways_start (seeds : List GlobalNode) (ways : Std.TreeMap GlobalNode (List GlobalNode))
    (node : GlobalNode) : (seeds.foldl (fun ways seed => ways.insert seed [seed]) ways)[node]? =
      if node ∈ seeds then some [node] else ways[node]? := by
  induction seeds generalizing ways with
  | nil => simp
  | cons seed rest ih =>
    rw [foldl_cons, ih, Std.TreeMap.getElem?_insert]
    by_cases later : node ∈ rest
    · simp [later]
    · by_cases same : node = seed
      · simp [same]
      · have differ : compare seed node ≠ .eq := fun equal =>
          same (Std.LawfulEqOrd.eq_of_compare equal).symm
        simp [later, same, differ]

theorem getElem?_start (seeds : List GlobalNode) (node : GlobalNode) :
    (start seeds).ways[node]? = if node ∈ seeds then some [node] else none := by
  have from_nothing := ways_start seeds ∅ node
  simpa [start] using from_nothing

theorem mem_start (seeds : List GlobalNode) (node : GlobalNode) :
    node ∈ (start seeds).ways ↔ node ∈ seeds := by
  rw [Std.TreeMap.mem_iff_isSome_getElem?, getElem?_start]
  by_cases member : node ∈ seeds <;> simp [member]

theorem valid_start (program : Program) {seeds : List GlobalNode} (distinct : seeds.Nodup) :
    (start seeds).Valid program seeds where
  reached node := by
    rw [mem_start]
    simp [start]
  distinct := by simpa [start] using distinct
  started seed member := (mem_start seeds seed).mpr member
  way node way found := by
    rw [getElem?_start] at found
    by_cases member : node ∈ seeds
    · simp only [member, if_true, Option.some.injEq] at found
      exact ⟨[], found.symm, .inl ⟨rfl, member⟩⟩
    · simp [member] at found

section

variable {trace : Trace} {way : List GlobalNode} {next node : GlobalNode}

theorem getElem?_reach (known : node ∈ trace.ways) :
    (trace.reach way next).ways[node]? = trace.ways[node]? := by
  unfold reach
  split
  · rfl
  · have differ : compare next node ≠ .eq := by
      intro equal
      simp_all
    simp [Std.TreeMap.getElem?_insert, differ]

theorem mem_reach : node ∈ (trace.reach way next).ways ↔ node = next ∨ node ∈ trace.ways := by
  unfold reach
  split
  case isTrue known =>
    have present := Std.TreeMap.mem_iff_contains.mpr known
    constructor
    · exact .inr
    · rintro (rfl | old)
      · exact present
      · exact old
  case isFalse fresh =>
    rw [Std.TreeMap.mem_insert, Std.LawfulEqOrd.compare_eq_iff_eq]
    simp [eq_comm]

end

theorem visited_reach (trace : Trace) (way : List GlobalNode) (next : GlobalNode) :
    (trace.reach way next).visited = trace.visited := by
  unfold reach
  split <;> rfl

section

variable {program : Program} {seeds : List GlobalNode} {trace : Trace}
  (valid : trace.Valid program seeds) {node : GlobalNode}

include valid

theorem Valid.reach (known : trace.ways[node]? = some way) (flows : program.Flows node next) :
    (trace.reach way next).Valid program seeds := by
  by_cases old : trace.ways.contains next
  · have same : trace.reach way next = trace := by simp [Trace.reach, old]
    rw [same]
    exact valid
  have fresh : next ∉ trace.ways := fun member => old (Std.TreeMap.mem_iff_contains.mp member)
  have queued : (trace.reach way next).queue = trace.queue ++ [next] := by
    simp [Trace.reach, old]
  have found (other : GlobalNode) : (trace.reach way next).ways[other]? =
      if other = next then some (next :: way) else trace.ways[other]? := by
    simp only [Trace.reach, old, Bool.false_eq_true, if_false, Std.TreeMap.getElem?_insert,
      Std.LawfulEqOrd.compare_eq_iff_eq]
    by_cases same : next = other
    · simp [same]
    · simp [same, Ne.symm same]
  constructor
  · intro other
    rw [mem_reach, visited_reach, queued, valid.reached, mem_append, mem_singleton]
    tauto
  · rw [visited_reach, queued, ← append_assoc, nodup_append]
    refine ⟨valid.distinct, by simp, ?_⟩
    intro other member last own same
    rw [mem_singleton.mp own] at same
    exact fresh ((valid.reached next).mpr (mem_append.mp (same ▸ member)))
  · intro seed member
    exact mem_reach.mpr (.inr (valid.started seed member))
  · intro other taken here
    rw [found] at here
    split at here
    case isTrue same =>
      obtain rfl := Option.some.inj here
      refine ⟨way, by rw [same], .inr ⟨node, ?_, same ▸ flows⟩⟩
      rw [getElem?_reach (by simp [Std.TreeMap.mem_iff_isSome_getElem?, known]), known]
    case isFalse _ =>
      obtain ⟨rest, shape, origin⟩ := valid.way other taken here
      refine ⟨rest, shape, origin.imp id ?_⟩
      rintro ⟨before, earlier, step⟩
      refine ⟨before, ?_, step⟩
      rw [getElem?_reach (by simp [Std.TreeMap.mem_iff_isSome_getElem?, earlier]), earlier]

theorem Valid.reachAll (known : trace.ways[node]? = some way)
    {nexts : List GlobalNode} (flows : ∀ next ∈ nexts, program.Flows node next) :
    (nexts.foldl (Trace.reach way) trace).Valid program seeds ∧
      (nexts.foldl (Trace.reach way) trace).visited = trace.visited ∧
      ∀ other, other ∈ (nexts.foldl (Trace.reach way) trace).ways ↔
        other ∈ nexts ∨ other ∈ trace.ways := by
  induction nexts generalizing trace with
  | nil => exact ⟨valid, rfl, by simp⟩
  | cons next rest ih =>
    have present : node ∈ trace.ways := by simp [Std.TreeMap.mem_iff_isSome_getElem?, known]
    have later := ih (valid.reach known (flows next (by simp)))
      ((getElem?_reach present).trans known) (fun other member => flows other (by simp [member]))
    refine ⟨later.1, later.2.1.trans (visited_reach _ _ _), ?_⟩
    intro other
    rw [foldl_cons, later.2.2, mem_reach, mem_cons]
    tauto

theorem Valid.take (queue : trace.queue = node :: rest) :
    Valid program seeds { trace with queue := rest, visited := node :: trace.visited } := by
  refine ⟨?_, ?_, valid.started, valid.way⟩
  · intro other
    rw [valid.reached, queue, mem_cons, mem_cons]
    tauto
  · have distinct := valid.distinct
    rw [queue] at distinct
    exact (perm_middle.nodup_iff).mp distinct

end

theorem visit_eq {trace : Trace} (known : trace.ways[node]? = some way) (rest : List GlobalNode) :
    trace.visit program node rest = ((program.successors node).map (·.1)).foldl (Trace.reach way)
      { trace with queue := rest, visited := node :: trace.visited } := by
  rw [visit, Std.TreeMap.getD_eq_getD_getElem?, known]
  rfl

theorem mem_successors_map :
    next ∈ (program.successors node).map (·.1) ↔ program.Flows node next := by
  simp [Program.Flows]

section

variable {program : Program} {seeds : List GlobalNode} {trace : Trace}
  (valid : trace.Valid program seeds)

include valid

theorem Valid.visit (closed : trace.Closed program)
    (queue : trace.queue = node :: rest) : (trace.visit program node rest).Valid program seeds ∧
      (trace.visit program node rest).Closed program ∧
      (trace.visit program node rest).visited = node :: trace.visited := by
  have present : node ∈ trace.ways := (valid.reached node).mpr (.inr (by simp [queue]))
  obtain ⟨way, known⟩ := mem_ways_iff.mp present
  obtain ⟨after, visited, members⟩ := (valid.take queue).reachAll known fun next member =>
    mem_successors_map.mp member
  rw [visit_eq known]
  refine ⟨after, ?_, visited⟩
  intro other seen next flows
  rw [members, mem_successors_map]
  rw [visited] at seen
  rcases mem_cons.mp seen with rfl | earlier
  · exact .inl flows
  · exact .inr (closed other earlier next flows)

theorem Valid.run (closed : trace.Closed program) (fuel : Nat) :
    (trace.run program fuel).Valid program seeds ∧ (trace.run program fuel).Closed program ∧
      (trace.run program fuel).visited.length ≤ trace.visited.length + fuel ∧
      ((trace.run program fuel).queue ≠ [] →
        (trace.run program fuel).visited.length = trace.visited.length + fuel) := by
  induction fuel generalizing trace with
  | zero => exact ⟨valid, closed, Nat.le_refl _, fun _ => rfl⟩
  | succ fuel ih =>
    unfold Trace.run
    split
    case h_1 done => exact ⟨valid, closed, by omega, fun left => absurd done left⟩
    case h_2 node rest queue =>
      obtain ⟨valid', closed', visited⟩ := valid.visit closed queue
      obtain ⟨valid', closed', most, least⟩ := ih valid' closed'
      rw [visited, length_cons] at most least
      refine ⟨valid', closed', by omega, fun left => ?_⟩
      have := least left
      omega

theorem Valid.queue_eq_nil (space : List GlobalNode) (inSpace : ∀ seed ∈ seeds, seed ∈ space)
    (spaceClosed : ∀ node next, program.Flows node next → next ∈ space)
    (enough : space.length ≤ trace.visited.length) : trace.queue = [] := by
  have inside : ∀ node ∈ trace.visited ++ trace.queue, node ∈ space := by
    intro node member
    have present := (valid.reached node).mpr (mem_append.mp member)
    obtain ⟨way, known⟩ := mem_ways_iff.mp present
    obtain ⟨_, -, ⟨-, seed⟩ | ⟨before, -, flows⟩⟩ := valid.way node way known
    · exact inSpace node seed
    · exact spaceClosed before node flows
  have bound := List.Nodup.length_le_of_subset valid.distinct inside
  rw [length_append] at bound
  exact eq_nil_of_length_eq_zero (by omega)

theorem Valid.byWay {motive : GlobalNode → List GlobalNode → Prop}
    (known : trace.ways[node]? = some way) (first : ∀ seed ∈ seeds, motive seed [seed])
    (next : ∀ {before node way}, trace.ways[node]? = some (node :: way) →
      trace.ways[before]? = some way → program.Flows before node → motive before way →
      motive node (node :: way)) : motive node way := by
  induction way generalizing node with
  | nil =>
    obtain ⟨rest, shape, -⟩ := valid.way node [] known
    cases shape
  | cons own way ih =>
    obtain ⟨rest, shape, origin⟩ := valid.way node _ known
    obtain ⟨rfl, rfl⟩ := List.cons.inj shape
    rcases origin with ⟨rfl, seed⟩ | ⟨before, earlier, flows⟩
    · exact first own seed
    · exact next known earlier flows (ih earlier)

theorem Valid.reaches (present : node ∈ trace.ways) :
    ∃ seed ∈ seeds, program.Reaches seed node := by
  obtain ⟨way, known⟩ := mem_ways_iff.mp present
  refine valid.byWay (motive := fun node _ => ∃ seed ∈ seeds, program.Reaches seed node) known
    (fun seed member => ⟨seed, member, .refl⟩) ?_
  rintro before node way - - flows ⟨seed, member, path⟩
  exact ⟨seed, member, path.tail flows⟩

theorem Valid.mem_visited (closed : trace.Closed program) (done : trace.queue = []) :
    node ∈ trace.visited ↔ ∃ seed ∈ seeds, program.Reaches seed node := by
  have ways : ∀ other, other ∈ trace.ways ↔ other ∈ trace.visited := by
    simp [valid.reached, done]
  constructor
  · intro visited
    exact valid.reaches ((ways node).mpr visited)
  · rintro ⟨seed, member, path⟩
    induction path with
    | refl => exact (ways seed).mp (valid.started seed member)
    | tail _ flows ih => exact (ways _).mp (closed _ ih _ flows)

theorem Valid.head_wayTo (present : node ∈ trace.ways) :
    ∃ seed ∈ seeds, (trace.wayTo node).head? = some seed := by
  obtain ⟨way, known⟩ := mem_ways_iff.mp present
  rw [wayTo, Std.TreeMap.getD_eq_getD_getElem?, known]
  refine valid.byWay (motive := fun _ way => ∃ seed ∈ seeds, way.reverse.head? = some seed) known
    (fun seed member => ⟨seed, member, rfl⟩) ?_
  rintro before node way - - - ⟨seed, member, head⟩
  exact ⟨seed, member, by simp [head]⟩

end

end Trace

variable {program : Program} (linked : program.Linked) {seeds : List GlobalNode}
  (distinct : seeds.Nodup)

include linked distinct

theorem trace_complete :
    (trace program seeds).Valid program seeds ∧ (trace program seeds).Closed program ∧
      (trace program seeds).queue = [] := by
  obtain ⟨valid, closed, -, least⟩ := (Trace.valid_start program distinct).run
    (by simp [Trace.Closed, Trace.start]) (visitBound program seeds)
  refine ⟨valid, closed, ?_⟩
  by_contra left
  refine left (valid.queue_eq_nil (program.targets ++ seeds)
    (fun seed member => by simp [member]) ?_ ?_)
  · intro node next flows
    exact mem_append_left _ (linked.mem_targets flows)
  · rw [least left, length_append, Program.length_targets]
    simp [Trace.start, visitBound]

theorem mem_ways :
    node ∈ (trace program seeds).ways ↔ ∃ seed ∈ seeds, program.Reaches seed node := by
  obtain ⟨valid, closed, done⟩ := trace_complete linked distinct
  rw [valid.reached, ← valid.mem_visited closed done, done]
  simp

theorem mem_order :
    node ∈ (trace program seeds).order ↔ ∃ seed ∈ seeds, program.Reaches seed node := by
  obtain ⟨valid, closed, done⟩ := trace_complete linked distinct
  rw [← valid.mem_visited closed done, Trace.order, mem_reverse]

end Taint

end Seepage

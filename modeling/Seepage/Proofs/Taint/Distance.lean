import Mathlib.Data.List.Chain
import Seepage.Proofs.Program.Range
import Seepage.Proofs.Taint.Search

set_option autoImplicit false

namespace Seepage.Taint

open List

variable {node next : GlobalNode} {way : List GlobalNode}

structure IsWalk (program : Program) (start goal : GlobalNode → Prop) (walk : List GlobalNode) :
    Prop where
  first : ∃ node, walk.head? = some node ∧ start node
  last : ∃ node, walk.getLast? = some node ∧ goal node
  joined : walk.IsChain fun node next => ∃ kind, program.HasFlow node next kind

section

variable {program : Program} {start goal : GlobalNode → Prop} {walk : List GlobalNode}

theorem IsWalk.mono {start' goal' : GlobalNode → Prop} (isWalk : IsWalk program start goal walk)
    (starts : ∀ node, start node → start' node) (goals : ∀ node, goal node → goal' node) :
    IsWalk program start' goal' walk := by
  obtain ⟨⟨first, isFirst, started⟩, ⟨last, isLast, reached⟩, joined⟩ := isWalk
  exact ⟨⟨first, isFirst, starts first started⟩, ⟨last, isLast, goals last reached⟩, joined⟩

theorem IsWalk.concat (isWalk : IsWalk program start (· = node) walk)
    (flow : ∃ kind, program.HasFlow node next kind) (reached : goal next) :
    IsWalk program start goal (walk ++ [next]) := by
  obtain ⟨⟨first, isFirst, started⟩, ⟨_, isLast, rfl⟩, joined⟩ := isWalk
  refine ⟨⟨first, by simp [isFirst], started⟩, ⟨next, by simp, reached⟩, ?_⟩
  refine joined.append (.singleton next) ?_
  intro last isLast' other isNext
  obtain rfl := Option.some.inj (isLast.symm.trans isLast')
  obtain rfl : next = other := by simpa using isNext
  exact flow

theorem IsWalk.contained (linked : program.Linked) (isWalk : IsWalk program start goal walk)
    (known : ∀ node, start node → program.contains node) :
    ∀ node ∈ walk, program.contains node := by
  obtain ⟨⟨first, isFirst, started⟩, -, joined⟩ := isWalk
  refine joined.induction (fun node => program.contains node) walk ?_ ?_
  · rintro node next ⟨kind, flow⟩ -
    exact (linked.contains_of_hasFlow flow).2
  · intro nonempty
    have same : walk.head nonempty = first :=
      Option.some.inj ((head?_eq_some_head nonempty).symm.trans isFirst)
    exact same ▸ known first started

end

structure IsShortestWalk (program : Program) (start goal : GlobalNode → Prop)
    (walk : List GlobalNode) : Prop extends IsWalk program start goal walk where
  shortest : ∀ other, IsWalk program start goal other → walk.length ≤ other.length

namespace Trace

def distance (trace : Trace) (node : GlobalNode) : Nat :=
  (trace.ways.getD node []).length

variable {trace : Trace} {node : GlobalNode}

theorem distance_eq (known : trace.ways[node]? = some way) : trace.distance node = way.length := by
  rw [distance, Std.TreeMap.getD_eq_getD_getElem?, known, Option.getD_some]

theorem distance_reach (known : node ∈ trace.ways) :
    (trace.reach way next).distance node = trace.distance node := by
  rw [distance, distance, Std.TreeMap.getD_eq_getD_getElem?, Std.TreeMap.getD_eq_getD_getElem?,
    getElem?_reach known]

def reached (trace : Trace) : List GlobalNode :=
  trace.order ++ trace.queue

theorem Valid.mem_reached {program : Program} {seeds : List GlobalNode}
    (valid : trace.Valid program seeds) : node ∈ trace.reached ↔ node ∈ trace.ways := by
  rw [valid.reached, Trace.reached, mem_append, order, mem_reverse]

structure Leveled (trace : Trace) (horizon : Nat) : Prop where
  sorted : trace.reached.Pairwise fun earlier later =>
    trace.distance earlier ≤ trace.distance later
  near : ∀ node ∈ trace.ways, trace.distance node ≤ horizon + 1

section

variable {program : Program} {seeds : List GlobalNode} {trace : Trace}
  (valid : trace.Valid program seeds)

include valid

theorem Leveled.reach (leveled : trace.Leveled way.length)
    (next : GlobalNode) : (trace.reach way next).Leveled way.length := by
  by_cases old : trace.ways.contains next
  · have same : trace.reach way next = trace := by simp [Trace.reach, old]
    rw [same]
    exact leveled
  have listed : (trace.reach way next).reached = trace.reached ++ [next] := by
    simp [Trace.reached, Trace.order, Trace.reach, old]
  have found : (trace.reach way next).ways[next]? = some (next :: way) := by
    simp [Trace.reach, old]
  have own : (trace.reach way next).distance next = way.length + 1 := distance_eq found
  have kept {node : GlobalNode} (member : node ∈ trace.reached) :
      (trace.reach way next).distance node = trace.distance node :=
    distance_reach (valid.mem_reached.mp member)
  constructor
  · rw [listed, pairwise_append]
    refine ⟨?_, pairwise_singleton _ _, ?_⟩
    · refine leveled.sorted.imp_of_mem fun earlier later ordered => ?_
      rwa [kept earlier, kept later]
    · intro node member last isNext
      rw [mem_singleton.mp isNext, own, kept member]
      exact leveled.near node (valid.mem_reached.mp member)
  · intro node member
    rcases mem_reach.mp member with rfl | known
    · exact own.le
    · rw [distance_reach known]
      exact leveled.near node known

theorem Leveled.reachAll (known : trace.ways[node]? = some way) (leveled : trace.Leveled way.length)
    {nexts : List GlobalNode} (flows : ∀ next ∈ nexts, program.Flows node next) :
    (nexts.foldl (Trace.reach way) trace).Leveled way.length ∧
      ∀ other ∈ trace.ways,
        (nexts.foldl (Trace.reach way) trace).distance other = trace.distance other := by
  induction nexts generalizing trace with
  | nil => exact ⟨leveled, fun _ _ => rfl⟩
  | cons next rest ih =>
    obtain ⟨here, there⟩ := forall_mem_cons.mp flows
    have present : node ∈ trace.ways := by simp [Std.TreeMap.mem_iff_isSome_getElem?, known]
    obtain ⟨later, kept⟩ := ih (valid.reach known here) ((getElem?_reach present).trans known)
      (leveled.reach valid next) there
    refine ⟨later, fun other member => ?_⟩
    rw [foldl_cons, kept other (mem_reach.mpr (.inr member)), distance_reach member]

end

structure Ordered (program : Program) (seeds : List GlobalNode) (trace : Trace) : Prop where
  started : ∀ seed ∈ seeds, trace.distance seed = 1
  sorted : trace.reached.Pairwise fun earlier later =>
    trace.distance earlier ≤ trace.distance later
  near : ∀ first ∈ trace.queue.head?, ∀ node ∈ trace.ways,
    trace.distance node ≤ trace.distance first + 1
  steps : ∀ node ∈ trace.visited, ∀ next, program.Flows node next →
    trace.distance next ≤ trace.distance node + 1

theorem ordered_start (program : Program) (seeds : List GlobalNode) :
    (start seeds).Ordered program seeds := by
  have one : ∀ seed ∈ seeds, (start seeds).distance seed = 1 := by
    intro seed member
    have found : (start seeds).ways[seed]? = some [seed] := by rw [getElem?_start, if_pos member]
    exact distance_eq found
  refine ⟨one, ?_, ?_, by simp [start]⟩
  · refine pairwise_of_forall_mem_list (l := seeds) fun earlier member later member' => ?_
    rw [one earlier member, one later member']
  · intro first isFirst node member
    rw [one node ((mem_start seeds node).mp member)]
    exact Nat.le_add_left 1 _

section

variable {program : Program} {seeds : List GlobalNode} {trace : Trace}
  (valid : trace.Valid program seeds) (closed : trace.Closed program)
  (ordered : trace.Ordered program seeds)

include valid closed ordered

theorem Ordered.visit {node : GlobalNode} {rest : List GlobalNode}
    (queue : trace.queue = node :: rest) :
    (trace.visit program node rest).Ordered program seeds := by
  have present : node ∈ trace.ways := (valid.reached node).mpr (.inr (by simp [queue]))
  obtain ⟨way, known⟩ := mem_ways_iff.mp present
  have far : trace.distance node = way.length := distance_eq known
  have leveled :
      Leveled { trace with queue := rest, visited := node :: trace.visited } way.length := by
    refine ⟨?_, fun other member => far ▸ ordered.near node (by simp [queue]) other member⟩
    have same : trace.reached =
        Trace.reached { trace with queue := rest, visited := node :: trace.visited } := by
      simp [Trace.reached, order, queue]
    exact same ▸ ordered.sorted
  obtain ⟨later, kept⟩ := leveled.reachAll (valid.take queue) known fun next member =>
    mem_successors_map.mp member
  obtain ⟨-, closed', visited⟩ := valid.visit closed queue
  rw [← visit_eq known] at later kept
  have own : (trace.visit program node rest).distance node = way.length :=
    (kept node present).trans far
  refine ⟨?_, later.sorted, ?_, ?_⟩
  · intro seed member
    rw [kept seed (valid.started seed member)]
    exact ordered.started seed member
  · intro first isFirst other member
    -- what is left to visit is no nearer than the node just visited
    have behind : (trace.visit program node rest).distance node ≤
        (trace.visit program node rest).distance first := by
      refine (pairwise_append.mp later.sorted).2.2 node ?_ first (mem_of_head? isFirst)
      rw [order, visited]
      simp
    have bound := later.near other member
    omega
  · intro other seen next flows
    have inside := closed' other seen next flows
    rw [visited] at seen
    rcases mem_cons.mp seen with rfl | earlier
    · rw [own]
      exact later.near next inside
    · have old := (valid.reached other).mpr (.inl earlier)
      have old' := closed other earlier next flows
      rw [kept other old, kept next old']
      exact ordered.steps other earlier next flows

theorem Ordered.run (fuel : Nat) : (trace.run program fuel).Ordered program seeds := by
  induction fuel generalizing trace with
  | zero => exact ordered
  | succ fuel ih =>
    unfold Trace.run
    split
    case h_1 => exact ordered
    case h_2 node rest queue =>
      obtain ⟨valid', closed', -⟩ := valid.visit closed queue
      exact ih valid' closed' (ordered.visit valid closed queue)

theorem Ordered.distance_le (done : trace.queue = []) {walk : List GlobalNode}
    (joined : walk.IsChain program.Flows) {first last : GlobalNode}
    (isFirst : walk.head? = some first) (isLast : walk.getLast? = some last)
    (present : first ∈ trace.ways) :
    last ∈ trace.ways ∧ trace.distance last + 1 ≤ trace.distance first + walk.length := by
  induction walk generalizing first with
  | nil => cases isFirst
  | cons node rest ih =>
    obtain rfl : node = first := by simpa using isFirst
    cases rest with
    | nil =>
      obtain rfl : node = last := by simpa using isLast
      exact ⟨present, le_rfl⟩
    | cons next rest =>
      have flows := (isChain_cons_cons.mp joined).1
      have visited : node ∈ trace.visited := by simpa [valid.reached, done] using present
      have step := ordered.steps node visited next flows
      obtain ⟨reached, later⟩ := ih (isChain_cons_cons.mp joined).2 rfl
        (by simpa using isLast) (closed node visited next flows)
      refine ⟨reached, ?_⟩
      rw [length_cons]
      omega

end

section

variable {program : Program} {seeds : List GlobalNode} {trace : Trace}
  (valid : trace.Valid program seeds) {node : GlobalNode}

include valid

theorem Valid.exists_way (present : node ∈ trace.ways) :
    ∃ before, trace.ways[node]? = some (node :: before) ∧
      trace.wayTo node = before.reverse ++ [node] := by
  obtain ⟨way, known⟩ := mem_ways_iff.mp present
  obtain ⟨before, rfl, -⟩ := valid.way node way known
  refine ⟨before, known, ?_⟩
  rw [wayTo, Std.TreeMap.getD_eq_getD_getElem?, known, Option.getD_some, reverse_cons]

theorem Valid.isChain_way (known : trace.ways[node]? = some way) :
    way.IsChain fun next before => program.Flows before next ∧ before ∈ trace.ways ∧
      trace.distance before < trace.distance next := by
  refine valid.byWay (motive := fun _ way => way.IsChain _) known (fun _ _ => .singleton _) ?_
  intro before node way known earlier flows chain
  obtain ⟨rest, rfl, -⟩ := valid.way before _ earlier
  refine isChain_cons_cons.mpr ⟨⟨flows, mem_ways_iff.mpr ⟨_, earlier⟩, ?_⟩, chain⟩
  rw [distance_eq known, distance_eq earlier]
  exact Nat.lt_succ_self _

theorem Valid.pairwise_way (known : trace.ways[node]? = some way) :
    way.Pairwise fun next before => before ∈ trace.ways ∧
      trace.distance before < trace.distance next := by
  have transitive : IsTrans GlobalNode fun next before => before ∈ trace.ways ∧
      trace.distance before < trace.distance next :=
    ⟨fun _ _ _ first second => ⟨second.1, second.2.trans first.2⟩⟩
  exact ((valid.isChain_way known).imp fun _ _ step => step.2).pairwise

end

end Trace

section

variable {program : Program} (linked : program.Linked) {seeds : List GlobalNode}
  (distinct : seeds.Nodup)

include linked distinct

theorem isWalk_wayTo {node : GlobalNode} (present : node ∈ (trace program seeds).ways)
    {goal : GlobalNode → Prop} (reached : goal node) :
    IsWalk program (· ∈ seeds) goal ((trace program seeds).wayTo node) ∧
      ((trace program seeds).wayTo node).Nodup := by
  obtain ⟨valid, -⟩ := trace_complete linked distinct
  obtain ⟨before, known, shape⟩ := valid.exists_way present
  obtain ⟨seed, started, head⟩ := valid.head_wayTo present
  refine ⟨⟨⟨seed, head, started⟩, ⟨node, by simp [shape], reached⟩, ?_⟩, ?_⟩
  · rw [shape, ← reverse_cons, isChain_reverse]
    exact (valid.isChain_way known).imp fun _ _ step => linked.flows_iff.mp step.1
  · rw [shape, ← reverse_cons, nodup_reverse]
    refine (valid.pairwise_way known).imp ?_
    rintro next _ ⟨-, nearer⟩ rfl
    exact absurd nearer (Nat.lt_irrefl _)

theorem isShortestWalk_wayTo {goal : GlobalNode → Prop} [DecidablePred goal]
    (first : ((trace program seeds).order.filter fun other => decide (goal other)).head? =
      some node) : IsShortestWalk program (· ∈ seeds) goal ((trace program seeds).wayTo node) ∧
      ∃ before, (trace program seeds).wayTo node = before ++ [node] ∧
        ∀ other ∈ before, ¬goal other := by
  obtain ⟨valid, closed, done⟩ := trace_complete linked distinct
  have ordered : (trace program seeds).Ordered program seeds :=
    (Trace.ordered_start program seeds).run (Trace.valid_start program distinct)
      (by simp [Trace.Closed, Trace.start]) _
  have listed : ∀ other, other ∈ (trace program seeds).order ↔
      other ∈ (trace program seeds).ways := by
    intro other
    rw [← valid.mem_reached, Trace.reached, done, append_nil]
  have sorted := ordered.sorted
  rw [Trace.reached, done, append_nil] at sorted
  obtain ⟨rest, shape⟩ := head?_eq_some_iff.mp first
  have isGoal : node ∈ (trace program seeds).order ∧ goal node := by
    have member : node ∈ node :: rest := mem_cons_self
    rw [← shape, mem_filter, decide_eq_true_eq] at member
    exact member
  have nearest : ∀ other ∈ (trace program seeds).ways, goal other →
      (trace program seeds).distance node ≤ (trace program seeds).distance other := by
    intro other member reached
    have inside : other ∈ node :: rest := by
      rw [← shape, mem_filter, listed]
      exact ⟨member, decide_eq_true reached⟩
    rcases mem_cons.mp inside with rfl | later
    · exact le_rfl
    · have goals := sorted.filter fun other => decide (goal other)
      rw [shape] at goals
      exact (pairwise_cons.mp goals).1 other later
  have present := (listed node).mp isGoal.1
  obtain ⟨before, known, way⟩ := valid.exists_way present
  refine ⟨⟨(isWalk_wayTo linked distinct present isGoal.2).1, ?_⟩, before.reverse, way, ?_⟩
  · rintro walk ⟨⟨seed, isSeed, started⟩, ⟨last, isLast, reached⟩, joined⟩
    have flows := joined.imp fun _ _ step => linked.flows_iff.mpr step
    obtain ⟨present', far⟩ := ordered.distance_le valid closed done flows isSeed isLast
      (valid.started seed started)
    have same : ((trace program seeds).wayTo node).length =
        (trace program seeds).distance node := by
      simp [way, Trace.distance_eq known]
    have near := nearest last present' reached
    have one := ordered.started seed started
    omega
  · intro other member reached
    have nearer := (pairwise_cons.mp (valid.pairwise_way known)).1 other
      (mem_reverse.mp member)
    exact absurd (nearest other nearer.1 reached) (Nat.not_le.mpr nearer.2)

end

end Seepage.Taint

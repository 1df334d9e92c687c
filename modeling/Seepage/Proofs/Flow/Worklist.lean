import Seepage.Proofs.Flow.Reaching

set_option autoImplicit false

namespace Seepage.Reaching

open List

variable {vertex : Nat} {outs : Std.TreeMap Nat NatSet} {progress : Progress}

structure Valid (use : VariableUse) (graph : ControlGraph) (progress : Progress) : Prop where
  sorted : ∀ vertex, NatSet.Sorted (progress.outs.getD vertex [])
  sound : ∀ vertex ∈ graph.vertices, ∀ definition ∈ progress.outs.getD vertex [],
    Holds use graph definition vertex
  grown : ∀ vertex, ∀ definition ∈ progress.outs.getD vertex [],
    definition ∈ transfer use vertex (before graph progress.outs vertex)
  pending : ∀ vertex ∈ graph.vertices, vertex ∉ progress.queue →
    progress.outs[vertex]? = some (transfer use vertex (before graph progress.outs vertex))

theorem mem_enqueue {queue vertices : List Nat} :
    vertex ∈ enqueue queue vertices ↔ vertex ∈ queue ∨ vertex ∈ vertices := by
  unfold enqueue
  induction vertices generalizing queue with
  | nil => simp
  | cons first rest ih =>
    rw [foldl_cons, ih]
    by_cases present : first ∈ queue
    · simp only [contains_iff_mem, present, if_true, mem_cons]
      constructor
      · rintro (old | later)
        · exact .inl old
        · exact .inr (.inr later)
      · rintro (old | rfl | later)
        · exact .inl old
        · exact .inl present
        · exact .inr later
    · simp [present, or_assoc]

theorem length_enqueue (queue vertices : List Nat) :
    (enqueue queue vertices).length ≤ queue.length + vertices.length := by
  unfold enqueue
  induction vertices generalizing queue with
  | nil => simp
  | cons first rest ih =>
    rw [foldl_cons, length_cons]
    split
    · have := ih queue
      omega
    · have := ih (queue ++ [first])
      rw [length_append, length_singleton] at this
      omega

section

variable {use : VariableUse} {graph : ControlGraph}

variable {vertex : Nat}

theorem before_insert {other : Nat} {out : NatSet}
    (apart : ∀ edge ∈ graph.edges, edge.source = vertex → edge.target ≠ other) :
    before graph (outs.insert vertex out) other = before graph outs other := by
  have folded : ∀ (edges : List ControlEdge), (∀ edge ∈ edges, edge.source ≠ vertex) →
      ∀ state, edges.foldl (fun state edge =>
          NatSet.union state ((outs.insert vertex out).getD edge.source [])) state =
        edges.foldl (fun state edge => NatSet.union state (outs.getD edge.source [])) state := by
    intro edges
    induction edges with
    | nil => intro _ state; rfl
    | cons edge rest ih =>
      intro differ state
      have first : vertex ≠ edge.source := (differ edge mem_cons_self).symm
      have apart : compare vertex edge.source ≠ .eq := by simpa using first
      rw [foldl_cons, Std.TreeMap.getD_insert, if_neg apart]
      exact ih (fun edge member => differ edge (mem_cons_of_mem _ member)) _
  apply folded
  intro edge member same
  simp only [ControlGraph.predecessors, mem_filter, beq_iff_eq] at member
  exact apart edge member.1 same member.2

variable {definition : Nat}

theorem before_mono {outs' : Std.TreeMap Nat NatSet}
    (more : ∀ vertex, ∀ definition ∈ outs.getD vertex [], definition ∈ outs'.getD vertex [])
    (holds : definition ∈ before graph outs vertex) : definition ∈ before graph outs' vertex := by
  obtain ⟨edge, member, target, inside⟩ := mem_before.mp holds
  exact mem_before.mpr ⟨edge, member, target, more _ _ inside⟩

theorem transfer_mono {state state' : NatSet} (more : ∀ definition ∈ state, definition ∈ state')
    (holds : definition ∈ transfer use vertex state) : definition ∈ transfer use vertex state' := by
  rcases mem_transfer.mp holds with makes | ⟨inside, keeps⟩
  · exact mem_transfer.mpr (.inl makes)
  · exact mem_transfer.mpr (.inr ⟨more _ inside, keeps⟩)

variable (leaving : ∀ edge ∈ graph.edges, edge.source ∈ graph.vertices)

include leaving

theorem Valid.holds_out (valid : Valid use graph progress) (known : vertex ∈ graph.vertices)
    (inside : definition ∈ transfer use vertex (before graph progress.outs vertex)) :
    Holds use graph definition vertex := by
  rcases mem_transfer.mp inside with makes | ⟨before, keeps⟩
  · exact .made known makes
  · obtain ⟨edge, member, rfl, behind⟩ := mem_before.mp before
    exact .kept member (valid.sound _ (leaving edge member) _ behind) keeps

theorem Valid.visit {progress : Progress} (valid : Valid use graph progress) {rest : List Nat}
    (queue : progress.queue = vertex :: rest) :
    Valid use graph (visit use graph progress.outs progress.taken vertex rest) := by
  have waiting : ∀ other ∈ graph.vertices, other ∉ rest → other ≠ vertex →
      progress.outs[other]? = some (transfer use other (before graph progress.outs other)) := by
    intro other inside absent differ
    refine valid.pending other inside ?_
    simp [queue, absent, differ]
  unfold Reaching.visit
  simp only
  split
  case isTrue same =>
    refine { valid with pending := ?_ }
    intro other inside absent
    by_cases here : other = vertex
    · rw [here]
      exact same
    · exact waiting other inside absent here
  case isFalse differ =>
    let out := transfer use vertex (before graph progress.outs vertex)
    let outs := progress.outs.insert vertex out
    have own : outs.getD vertex [] = out := by simp [outs]
    have other : ∀ other, other ≠ vertex →
        outs.getD other [] = progress.outs.getD other [] := by
      intro other apart
      have apart : compare vertex other ≠ .eq := by simpa using apart.symm
      rw [Std.TreeMap.getD_insert, if_neg apart]
    have more : ∀ place, ∀ definition ∈ progress.outs.getD place [],
      definition ∈ outs.getD place [] := by
      intro place definition inside
      by_cases here : place = vertex
      · subst here
        rw [own]
        exact valid.grown _ definition inside
      · rw [other place here]
        exact inside
    constructor
    · intro place
      by_cases here : place = vertex
      · subst here
        rw [own]
        exact sorted_transfer _ (sorted_before valid.sorted _)
      · rw [other place here]
        exact valid.sorted place
    · intro place known definition inside
      by_cases here : place = vertex
      · subst here
        rw [own] at inside
        exact valid.holds_out leaving known inside
      · rw [other place here] at inside
        exact valid.sound place known definition inside
    · intro place definition inside
      have before : definition ∈ transfer use place (before graph progress.outs place) := by
        by_cases here : place = vertex
        · subst here
          rw [own] at inside
          exact inside
        · rw [other place here] at inside
          exact valid.grown place definition inside
      exact transfer_mono (fun _ => before_mono more) before
    · intro place inside absent
      rw [mem_enqueue, not_or] at absent
      have apart : ∀ edge ∈ graph.edges, edge.source = vertex → edge.target ≠ place := by
        rintro edge member source rfl
        refine absent.2 (mem_map.mpr ⟨edge, ?_, rfl⟩)
        simp [ControlGraph.successors, member, source]
      rw [before_insert apart]
      by_cases here : place = vertex
      · subst here
        simp
      · have apart : compare vertex place ≠ .eq := by simpa using Ne.symm here
        rw [Std.TreeMap.getElem?_insert, if_neg apart]
        exact waiting place inside absent.1 here

end

section

variable {use : VariableUse} {graph : ControlGraph}

variable {definition vertex : Nat}

theorem Holds.exists_made (holds : Holds use graph definition vertex) :
    ∃ maker ∈ graph.vertices, Makes use maker definition := by
  induction holds with
  | made known makes => exact ⟨_, known, makes⟩
  | kept _ _ _ ih => exact ih

def eventNode : Event → Nat
  | .use node _ => node
  | .define node _ => node

theorem length_le_eventCount {set : NatSet} (sorted : NatSet.Sorted set)
    (sound : ∀ definition ∈ set, Holds use graph definition vertex) :
    set.length ≤ eventCount use graph := by
  have events : set ⊆ (graph.vertices.flatMap use.eventsAt).map eventNode := by
    intro definition inside
    obtain ⟨maker, known, makes⟩ := (sound definition inside).exists_made
    obtain ⟨symbol, event⟩ := makes.exists_event
    exact mem_map.mpr ⟨_, mem_flatMap.mpr ⟨maker, known, event⟩, rfl⟩
  have bound := List.Nodup.length_le_of_subset sorted.nodup events
  rwa [length_map] at bound

def room (use : VariableUse) (graph : ControlGraph) (outs : Std.TreeMap Nat NatSet)
    (vertex : Nat) : Nat :=
  match outs[vertex]? with
  | none => eventCount use graph + 1
  | some out => eventCount use graph - out.length

def ahead (use : VariableUse) (graph : ControlGraph) (progress : Progress) : Nat :=
  progress.queue.length + weight (fun vertex =>
    (graph.successors vertex).length * room use graph progress.outs vertex) graph.vertices

variable (leaving : ∀ edge ∈ graph.edges, edge.source ∈ graph.vertices)

include leaving

theorem room_insert_self (valid : Valid use graph progress) (known : vertex ∈ graph.vertices)
    (differ : ¬progress.outs[vertex]? =
      some (transfer use vertex (before graph progress.outs vertex))) :
    room use graph (progress.outs.insert vertex
        (transfer use vertex (before graph progress.outs vertex))) vertex + 1 ≤
      room use graph progress.outs vertex := by
  have sorted : NatSet.Sorted (transfer use vertex (before graph progress.outs vertex)) :=
    sorted_transfer vertex (sorted_before valid.sorted vertex)
  have fits := length_le_eventCount sorted fun _ => valid.holds_out leaving known
  rw [room, room, Std.TreeMap.getElem?_insert_self]
  rcases old : progress.outs[vertex]? with _ | out
  · simp only
    omega
  · have same : progress.outs.getD vertex [] = out := by
      rw [Std.TreeMap.getD_eq_getD_getElem?, old]
      rfl
    have grows : out.length < (transfer use vertex (before graph progress.outs vertex)).length := by
      refine (same ▸ valid.sorted vertex).length_lt sorted (same ▸ valid.grown vertex) ?_
      rintro rfl
      exact differ old
    simp only
    omega

theorem successors_eq_nil (unknown : vertex ∉ graph.vertices) : graph.successors vertex = [] := by
  refine filter_eq_nil_iff.mpr fun edge member same => unknown ?_
  rw [← beq_iff_eq.mp same]
  exact leaving edge member

section

variable {progress : Progress} (valid : Valid use graph progress) (distinct : graph.vertices.Nodup)

include valid distinct

theorem Valid.ahead_visit {rest : List Nat} (queue : progress.queue = vertex :: rest) :
    ahead use graph (Reaching.visit use graph progress.outs progress.taken vertex rest) + 1 ≤
      ahead use graph progress := by
  unfold Reaching.visit
  simp only
  split
  case isTrue same => simp [ahead, queue, Nat.add_right_comm]
  case isFalse differ =>
    let outs := progress.outs.insert vertex
      (transfer use vertex (before graph progress.outs vertex))
    have others : ∀ other, other ≠ vertex →
        (graph.successors other).length * room use graph outs other =
          (graph.successors other).length * room use graph progress.outs other := by
      intro other differ
      have apart : compare vertex other ≠ .eq := by simpa using Ne.symm differ
      rw [room, room, Std.TreeMap.getElem?_insert, if_neg apart]
    have longer := length_enqueue rest ((graph.successors vertex).map (·.target))
    rw [length_map] at longer
    by_cases known : vertex ∈ graph.vertices
    case neg =>
      have same := weight_congr fun other member => others other (ne_of_mem_of_not_mem member known)
      simp only [successors_eq_nil leaving known, map_nil, length_nil] at longer ⊢
      simp only [ahead, queue, length_cons]
      simp only [outs] at same
      omega
    have shrinks := room_insert_self leaving valid known differ
    have loss : (graph.successors vertex).length * room use graph outs vertex +
        (graph.successors vertex).length ≤
        (graph.successors vertex).length * room use graph progress.outs vertex := by
      have := Nat.mul_le_mul_left (graph.successors vertex).length shrinks
      rwa [Nat.mul_add, Nat.mul_one] at this
    have drop := @weight_drop
      (fun vertex => (graph.successors vertex).length * room use graph progress.outs vertex)
      (fun vertex => (graph.successors vertex).length * room use graph outs vertex)
      graph.vertices distinct vertex (graph.successors vertex).length known loss others
    simp only [ahead, queue, length_cons]
    simp only [outs] at drop
    omega

theorem Valid.run {fuel : Nat} (enough : ahead use graph progress ≤ fuel) :
    Valid use graph (Reaching.run use graph fuel progress) ∧
      (Reaching.run use graph fuel progress).queue = [] := by
  induction fuel generalizing progress with
  | zero =>
    have empty : progress.queue.length = 0 := by
      unfold ahead at enough
      omega
    exact ⟨valid, eq_nil_of_length_eq_zero empty⟩
  | succ fuel ih =>
    rcases queue : progress.queue with _ | ⟨vertex, rest⟩
    · rw [Reaching.run, queue]
      exact ⟨valid, queue⟩
    · simp only [Reaching.run, queue]
      have step := valid.ahead_visit leaving distinct queue
      exact ih (valid.visit leaving queue) (by omega)

end

omit leaving in
theorem Valid.start : Valid use graph { queue := graph.vertices } where
  sorted vertex := by simp [NatSet.sorted_nil]
  sound vertex known definition inside := by simp at inside
  grown vertex definition inside := by simp at inside
  pending vertex known absent := absurd known absent

variable (distinct : graph.vertices.Nodup)

include distinct

omit leaving in
theorem ahead_start : ahead use graph { queue := graph.vertices } ≤ enough use graph := by
  have edges := ControlGraph.weight_successors distinct graph.edges
  have product := Nat.mul_le_mul_right (eventCount use graph + 1) edges
  have total : weight (fun vertex => (graph.successors vertex).length *
      room use graph ∅ vertex) graph.vertices =
      weight (fun vertex => (graph.edges.filter (·.source == vertex)).length) graph.vertices *
        (eventCount use graph + 1) := by
    rw [← weight_mul]
    refine weight_congr fun vertex _ => ?_
    simp [ControlGraph.successors, room]
  unfold ahead enough
  simp only [total]
  have spare : (eventCount use graph + 2) * graph.edges.length =
      graph.edges.length * (eventCount use graph + 1) + graph.edges.length := by
    rw [Nat.mul_comm, ← Nat.mul_succ]
  omega

theorem valid_solve : Valid use graph (solve use graph) ∧ (solve use graph).queue = [] :=
  (@Valid.start use graph).run leaving distinct (ahead_start distinct)

theorem mem_outs (known : vertex ∈ graph.vertices) :
    definition ∈ (solve use graph).outs.getD vertex [] ↔ Holds use graph definition vertex := by
  obtain ⟨valid, done⟩ := @valid_solve use graph leaving distinct
  refine ⟨valid.sound vertex known definition, fun holds => ?_⟩
  have settled : ∀ place ∈ graph.vertices, (solve use graph).outs.getD place [] =
      transfer use place (before graph (solve use graph).outs place) := by
    intro place inside
    have value := valid.pending place inside (by simp [done])
    rw [Std.TreeMap.getD_eq_getD_getElem?]
    exact congrArg (·.getD []) value
  induction holds with
  | made inside makes => exact settled _ inside ▸ mem_transfer.mpr (.inl makes)
  | kept edge _ keeps ih =>
    rw [settled _ known]
    have behind := ih (leaving _ edge)
    exact mem_transfer.mpr (.inr ⟨mem_before.mpr ⟨_, edge, rfl, behind⟩, keeps⟩)

theorem mem_before_solve : definition ∈ before graph (solve use graph).outs vertex ↔
      ∃ edge ∈ graph.edges, edge.target = vertex ∧ Holds use graph definition edge.source := by
  rw [mem_before]
  refine exists_congr fun edge => and_congr_right fun member => and_congr_right fun _ => ?_
  exact mem_outs leaving distinct (leaving edge member)

end

end Seepage.Reaching

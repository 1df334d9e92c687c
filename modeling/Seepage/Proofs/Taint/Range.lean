import Seepage.Proofs.Program.Range
import Seepage.Proofs.Taint.Hits

set_option autoImplicit false

namespace Seepage.Taint

open List

variable {label : Label} {way : List GlobalNode} {hit : Hit}

structure Trace.Placed (program : Program) (trace : Trace) : Prop where
  queue : ∀ node ∈ trace.queue, program.contains node
  visited : ∀ node ∈ trace.visited, program.contains node
  ways : ∀ (node : GlobalNode) way, trace.ways[node]? = some way →
    program.contains node ∧ ∀ step ∈ way, program.contains step

section

variable {program : Program} {sources : SourceFilter}

theorem contains_seed (markup : ∀ edge ∈ program.markupEdges, program.contains edge.target)
    {nodes : List GlobalNode} (member : (label, nodes) ∈ seeds program sources) {seed : GlobalNode}
    (started : seed ∈ nodes) : program.contains seed := by
  have known := (mem_seeds program sources).mp ⟨nodes, member, started⟩
  rcases mem_append.mp known with api | bound
  · obtain ⟨graph, -, found, inside, -⟩ := (mem_apiSeeds program sources).mp api
    exact Program.contains_iff.mpr ⟨graph, found, mem_range.mp inside⟩
  · obtain ⟨-, binding, edge, -⟩ := (mem_markupSeeds program sources).mp bound
    exact markup _ edge

end

namespace Trace

variable {program : Program} {trace : Trace}

theorem Valid.placed {seeds : List GlobalNode} (valid : trace.Valid program seeds)
    (inRange : program.InRange) (known : ∀ seed ∈ seeds, program.contains seed) :
    trace.Placed program := by
  have ways (node : GlobalNode) (way : List GlobalNode) (found : trace.ways[node]? = some way) :
      program.contains node ∧ ∀ step ∈ way, program.contains step := by
    refine valid.byWay (motive := fun node way =>
      program.contains node ∧ ∀ step ∈ way, program.contains step) found ?_ ?_
    · intro seed member
      simpa using known seed member
    · rintro before node way - - ⟨kind, flow⟩ ⟨-, earlier⟩
      have here := (inRange.successors before node kind flow).2
      exact ⟨here, forall_mem_cons.mpr ⟨here, earlier⟩⟩
  have reached {node : GlobalNode} (member : node ∈ trace.visited ∨ node ∈ trace.queue) :
      program.contains node := by
    obtain ⟨way, found⟩ := mem_ways_iff.mp ((valid.reached node).mpr member)
    exact (ways node way found).1
  exact ⟨fun node queued => reached (.inr queued), fun node seen => reached (.inl seen), ways⟩

theorem Placed.contains_wayTo (placed : trace.Placed program) (node : GlobalNode) :
    ∀ step ∈ trace.wayTo node, program.contains step := by
  intro step member
  rw [wayTo, mem_reverse, Std.TreeMap.getD_eq_getD_getElem?] at member
  cases found : trace.ways[node]? with
  | none => simp [found] at member
  | some way =>
    rw [found] at member
    exact (placed.ways node way found).2 step member

end Trace

section

variable {program : Program}

theorem contains_lastHops {trace : Trace} (placed : trace.Placed program) {node : GlobalNode}
    (known : program.contains node) {hop : Option GlobalNode}
    (member : (hop, way) ∈ lastHops program trace node) : ∀ step ∈ way, program.contains step := by
  obtain ⟨-, ⟨-, rfl⟩ | ⟨before, -, rfl⟩⟩ := of_mem_lastHops member
  · exact placed.contains_wayTo node
  · exact forall_mem_append.mpr ⟨placed.contains_wayTo before, by simpa using known⟩

theorem contains_pathsOf {mode : PathMode} {trace : Trace} (placed : trace.Placed program)
    (reached : ∀ node ∈ hit.nodes, program.contains node)
    (shown : way ∈ pathsOf program mode trace hit) : ∀ step ∈ way, program.contains step := by
  cases mode with
  | deduplicated =>
    obtain ⟨node, -, rfl⟩ := mem_map.mp shown
    exact placed.contains_wayTo node
  | detailed =>
    obtain ⟨⟨hop, _⟩, kept, rfl⟩ := mem_map.mp shown
    obtain ⟨node, through, last⟩ := mem_lastHops_of_mem_waysByHop kept
    exact contains_lastHops placed (reached node through) last

theorem contains_hit (consistent : program.Consistent) {sinks : ApiFilter} {trace : Trace}
    (placed : trace.Placed program) (found : hit ∈ hits program sinks label trace.order) :
    program.contains hit.call ∧ ∀ node ∈ hit.nodes, program.contains node := by
  obtain ⟨⟨graph, known, isCall, -⟩, -, -, isNodes⟩ := (mem_hits consistent).mp found
  refine ⟨Program.contains_iff.mpr ⟨graph, known, Arena.lt_size_of_kind (by simp [isCall])⟩, ?_⟩
  intro node member
  rw [isNodes] at member
  exact placed.visited node (mem_reverse.mp (mem_filter.mp member).1)

theorem exists_of_mem_path (known : program.contains hit.call)
    (before : ∀ node ∈ way, program.contains node) {step : PathStep}
    (member : step ∈ (findingOf program label hit way).path) :
    ∃ node, program.contains node ∧ step = stepAt program node := by
  obtain ⟨node, listed, rfl⟩ := mem_map.mp member
  refine ⟨node, ?_, rfl⟩
  -- a way that ends in an argument is led on to the call
  split at listed
  · exact before node listed
  · rcases mem_append.mp listed with inner | last
    · exact before node inner
    · exact mem_singleton.mp last ▸ known

end

structure InRange (program : Program) (settings : Settings) : Prop where
  seeds : ∀ label nodes, (label, nodes) ∈ seeds program settings.sources →
    ∀ seed ∈ nodes, program.contains seed
  search : ∀ label nodes, (label, nodes) ∈ Taint.seeds program settings.sources →
    ∀ steps, ((Trace.start nodes).run program steps).Placed program
  hits : ∀ label nodes, (label, nodes) ∈ Taint.seeds program settings.sources →
    ∀ hit ∈ hits program settings.sinks label (trace program nodes).order,
      program.contains hit.call ∧ (∀ node ∈ hit.nodes, program.contains node) ∧
        ∀ way ∈ pathsOf program settings.mode (trace program nodes) hit,
          ∀ node ∈ way, program.contains node
  findings : ∀ finding ∈ (analyze program settings).findings,
    (∃ call, program.contains call ∧ finding.sink.node = call.node ∧
      finding.sink.file = (program.arena call).file) ∧
    ∀ step ∈ finding.path, ∃ node, program.contains node ∧ step = stepAt program node

theorem inRange_analyze {program : Program} (consistent : program.Consistent)
    (inRange : program.InRange) (settings : Settings) : InRange program settings := by
  have search : ∀ label nodes, (label, nodes) ∈ seeds program settings.sources →
      ∀ steps, ((Trace.start nodes).run program steps).Placed program := by
    intro label nodes member steps
    have started := Trace.valid_start program (nodup_seedNodes program settings.sources member)
    exact (started.run (by simp [Trace.Closed, Trace.start]) steps).1.placed inRange
      fun seed held => contains_seed inRange.markup member held
  have shown : ∀ label nodes, (label, nodes) ∈ seeds program settings.sources →
      ∀ hit ∈ hits program settings.sinks label (trace program nodes).order,
        program.contains hit.call ∧ (∀ node ∈ hit.nodes, program.contains node) ∧
          ∀ way ∈ pathsOf program settings.mode (trace program nodes) hit,
            ∀ node ∈ way, program.contains node := by
    intro label nodes member hit found
    have placed := search label nodes member (visitBound program nodes)
    obtain ⟨known, through⟩ := contains_hit consistent placed found
    exact ⟨known, through, fun way isPath => contains_pathsOf placed through isPath⟩
  refine ⟨fun label nodes member seed => contains_seed inRange.markup member, search, shown, ?_⟩
  intro finding member
  obtain ⟨label, nodes, hit, way, seeded, found, isPath, rfl⟩ := mem_findings.mp member
  obtain ⟨known, -, ways⟩ := shown label nodes seeded hit found
  exact ⟨⟨hit.call, known, rfl, rfl⟩,
    fun step listed => exists_of_mem_path known (ways way isPath) listed⟩

end Seepage.Taint

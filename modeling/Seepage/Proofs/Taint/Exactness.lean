import Mathlib.Data.List.Nodup
import Seepage.Proofs.Taint.Hits

set_option autoImplicit false

namespace Seepage

open List

namespace Program

theorem Consistent.file_eq {program : Program} (consistent : program.Consistent)
    {id id' : GlobalNode} {graph graph' : FileGraph} (found : program.graph? id = some graph)
    (found' : program.graph? id' = some graph') (same : graph.file = graph'.file) :
    id.file = id'.file := by
  have inside : id.file < (program.files.toList.map FileGraph.file).length := by
    simpa using (Array.getElem?_eq_some_iff.mp found).1
  refine (getElem?_inj inside consistent.names).mp ?_
  simp only [graph?] at found found'
  simp [found, found', same]

end Program

namespace Taint

variable {label' : Label} {nodes : List GlobalNode} {node : GlobalNode}

def Tainted (program : Program) (sources : SourceFilter) (label : Label) (node : GlobalNode) :
    Prop :=
  ∃ nodes, (label, nodes) ∈ seeds program sources ∧ ∃ seed ∈ nodes, program.Reaches seed node

def Reported (program : Program) (settings : Settings) (label : Label) (call : GlobalNode) : Prop :=
  ∃ name, IsSink program settings.sinks call name ∧ label.apiName? ≠ some name ∧
    Tainted program settings.sources label call

def IsLastHop (program : Program) (sources : SourceFilter) (label : Label) (call : GlobalNode)
    (hop : Option GlobalNode) : Prop :=
  ∃ node, IsHit program call node ∧ Tainted program sources label node ∧
    IsHop program (Tainted program sources label) node hop

def Finding.isAbout (program : Program) (label : Label) (call : GlobalNode) (finding : Finding) :
    Bool :=
  finding.label == label && (program.graph? call).any (·.file == finding.sink.file) &&
    finding.sink.node == call.node

section

variable {program : Program} (linked : program.Linked) {settings : Settings} {label : Label}
  {call : GlobalNode}

include linked

theorem isAbout_findingOf {hit : Hit} {sinks : ApiFilter} {name : String}
    (sink : IsSink program sinks hit.call name) (way : List GlobalNode) :
    (findingOf program label' hit way).isAbout program label call = true ↔
      label' = label ∧ hit.call = call := by
  obtain ⟨graph, found, -⟩ := sink
  have file : (findingOf program label' hit way).sink.file = graph.file := by
    simp [findingOf, Program.arena, found, FileGraph.file]
  have node : (findingOf program label' hit way).sink.node = hit.call.node := rfl
  simp only [Finding.isAbout, file, node, Bool.and_eq_true, Option.any_eq_true, beq_iff_eq]
  constructor
  · rintro ⟨⟨own, other, found', same⟩, sameNode⟩
    refine ⟨own, ?_⟩
    have sameFile := linked.file_eq found found' same.symm
    rw [GlobalNode.mk.injEq]
    exact ⟨sameFile, sameNode⟩
  · rintro ⟨rfl, rfl⟩
    exact ⟨⟨rfl, graph, found, rfl⟩, rfl⟩

theorem isAbout_unique {finding : Finding} {call' : GlobalNode}
    (about : finding.isAbout program label call = true)
    (about' : finding.isAbout program label' call' = true) : label = label' ∧ call = call' := by
  simp only [Finding.isAbout, Bool.and_eq_true, Option.any_eq_true, beq_iff_eq] at about about'
  obtain ⟨⟨own, graph, found, same⟩, node⟩ := about
  obtain ⟨⟨own', graph', found', same'⟩, node'⟩ := about'
  have sameFile := linked.file_eq found found' (same.trans same'.symm)
  refine ⟨own.symm.trans own', ?_⟩
  rw [GlobalNode.mk.injEq]
  exact ⟨sameFile, node.symm.trans node'⟩

omit linked in
theorem tainted_iff (member : (label, nodes) ∈ seeds program settings.sources) :
    Tainted program settings.sources label node ↔ ∃ seed ∈ nodes, program.Reaches seed node := by
  constructor
  · rintro ⟨nodes', member', seed⟩
    have same := inj_on_of_nodup_map (nodup_labels program settings.sources) member member' rfl
    obtain rfl : nodes = nodes' := (Prod.mk.inj same).2
    exact seed
  · rintro ⟨seed, started, path⟩
    exact ⟨nodes, member, seed, started, path⟩

theorem mem_order_iff (member : (label, nodes) ∈ seeds program settings.sources) :
    node ∈ (trace program nodes).order ↔ Tainted program settings.sources label node := by
  rw [tainted_iff member, mem_order linked (nodup_seedNodes program settings.sources member)]

section

variable {nodes : List GlobalNode} (member : (label, nodes) ∈ seeds program settings.sources)
  {hit : Hit} (found : hit ∈ hits program settings.sinks label (trace program nodes).order)

include member found

theorem reported_of_mem_hits : Reported program settings label hit.call := by
  obtain ⟨sink, foreign, nonempty, through⟩ := (mem_hits linked.toConsistent).mp found
  obtain ⟨node, inside⟩ := exists_mem_of_ne_nil _ nonempty
  rw [through, mem_filter, decide_eq_true_eq, mem_order_iff linked member] at inside
  obtain ⟨⟨group, listed, seed, started, path⟩, isHit⟩ := inside
  exact ⟨hit.api, sink, foreign, group, listed, seed, started,
    path.trans (isHit.reaches linked sink)⟩

theorem reached_of_mem_hits (node : GlobalNode) : node ∈ hit.nodes ↔
      Tainted program settings.sources label node ∧ IsHit program hit.call node := by
  obtain ⟨-, -, -, through⟩ := (mem_hits linked.toConsistent).mp found
  rw [through, mem_filter, decide_eq_true_eq, mem_order_iff linked member]

theorem reached_ways_of_mem_hits : ∀ node ∈ hit.nodes, node ∈ (trace program nodes).ways := by
  intro node through
  rw [mem_ways linked (nodup_seedNodes program settings.sources member), ← tainted_iff member]
  exact ((reached_of_mem_hits linked member found node).mp through).1

theorem findings_about :
    ((analyze program settings).findings.filter (·.isAbout program label hit.call)).Perm
      ((pathsOf program settings.mode (trace program nodes) hit).map
        (findingOf program label hit)) := by
  have own := (mem_hits linked.toConsistent).mp found
  have labels : ((seeds program settings.sources).Nodup) :=
    (nodup_labels program settings.sources).of_map
  have sinks := nodup_hits program settings.sinks label (trace program nodes).order
  refine ((mergeSort_perm _ _).filter _).trans (.of_eq ?_)
  rw [flatMap_map, filter_flatMap_of_mem labels member]
  change (findingsOf program settings label (trace program nodes)).filter _ = _
  rw [findingsOf, filter_flatMap_of_mem sinks.of_map found, filter_eq_self]
  · intro finding made
    obtain ⟨way, -, rfl⟩ := mem_map.mp made
    exact (isAbout_findingOf linked own.1 way).mpr ⟨rfl, rfl⟩
  · intro other inside differ finding made
    obtain ⟨way, -, rfl⟩ := mem_map.mp made
    have sink := ((mem_hits linked.toConsistent).mp inside).1
    rw [Bool.eq_false_iff, Ne, isAbout_findingOf linked sink way]
    rintro ⟨-, same⟩
    exact differ (inj_on_of_nodup_map sinks inside found same)
  · rintro ⟨label', nodes'⟩ inside differ finding made
    simp only [findingsOf, mem_flatMap, mem_map] at made
    obtain ⟨other, here, way, -, rfl⟩ := made
    have sink := ((mem_hits linked.toConsistent).mp here).1
    rw [Bool.eq_false_iff, Ne, isAbout_findingOf linked sink way]
    rintro ⟨rfl, -⟩
    exact differ (inj_on_of_nodup_map (nodup_labels program settings.sources) inside member rfl)

theorem detailed_hops : ((pathsOf program .detailed (trace program nodes) hit).map lastHop?).Nodup ∧
      ∀ hop, hop ∈ (pathsOf program .detailed (trace program nodes) hit).map lastHop? ↔
        IsLastHop program settings.sources label hit.call hop := by
  have distinct := nodup_seedNodes program settings.sources member
  have reached : ∀ node, node ∈ (trace program nodes).ways ↔
      Tainted program settings.sources label node := by
    intro node
    rw [mem_ways linked distinct, tainted_iff member]
  have inside := reached_of_mem_hits linked member found
  obtain ⟨once, every⟩ := pathsOf_detailed linked (trace_complete linked distinct).1
    (reached_ways_of_mem_hits linked member found)
  refine ⟨once, fun hop => (every hop).trans ?_⟩
  simp only [reached, inside, IsLastHop]
  constructor
  · rintro ⟨node, ⟨tainted, isHit⟩, isHop⟩
    exact ⟨node, isHit, tainted, isHop⟩
  · rintro ⟨node, isHit, tainted, isHop⟩
    exact ⟨node, ⟨tainted, isHit⟩, isHop⟩

theorem pathsOf_ne_nil : pathsOf program settings.mode (trace program nodes) hit ≠ [] := by
  obtain ⟨-, -, nonempty, -⟩ := (mem_hits linked.toConsistent).mp found
  obtain ⟨first, rest, shape⟩ := exists_cons_of_ne_nil nonempty
  cases settings.mode with
  | deduplicated => simp [pathsOf, shape]
  | detailed =>
    obtain ⟨tainted, isHit⟩ := (reached_of_mem_hits linked member found first).mp
      (shape ▸ mem_cons_self : first ∈ hit.nodes)
    have hop : ∃ hop, IsHop program (Tainted program settings.sources label) first hop := by
      by_cases seen : ∃ before, (∃ kind, (before, kind) ∈ program.predecessors first) ∧
          Tainted program settings.sources label before
      · obtain ⟨before, isBefore⟩ := seen
        exact ⟨some before, isBefore⟩
      · exact ⟨none, fun before flows tainted => seen ⟨before, flows, tainted⟩⟩
    obtain ⟨hop, isHop⟩ := hop
    have shown := ((detailed_hops linked member found).2 hop).mpr ⟨first, isHit, tainted, isHop⟩
    intro empty
    simp [empty] at shown

end

theorem exists_hit (reported : Reported program settings label call) :
    ∃ nodes hit, (label, nodes) ∈ seeds program settings.sources ∧
      hit ∈ hits program settings.sinks label (trace program nodes).order ∧ hit.call = call := by
  obtain ⟨name, sink, foreign, nodes, member, seed, started, path⟩ := reported
  have tainted : call ∈ (trace program nodes).order := by
    rw [mem_order linked (nodup_seedNodes program settings.sources member)]
    exact ⟨seed, started, path⟩
  refine ⟨nodes, ⟨call, name, (trace program nodes).order.filter (IsHit program call ·)⟩, member,
    (mem_hits linked.toConsistent).mpr ⟨sink, foreign, ?_, rfl⟩, rfl⟩
  refine ne_nil_of_mem (a := call) (mem_filter.mpr ⟨tainted, ?_⟩)
  exact decide_eq_true (.inl rfl)

theorem exists_finding_iff :
    (∃ finding ∈ (analyze program settings).findings, finding.isAbout program label call = true) ↔
      Reported program settings label call := by
  constructor
  · rintro ⟨finding, member, about⟩
    obtain ⟨label', nodes, hit, way, inside, found, -, rfl⟩ := mem_findings.mp member
    obtain ⟨rfl, rfl⟩ := (isAbout_findingOf linked
      ((mem_hits linked.toConsistent).mp found).1 way).mp about
    exact reported_of_mem_hits linked inside found
  · intro reported
    obtain ⟨nodes, hit, member, found, rfl⟩ := exists_hit linked reported
    have paths := findings_about linked member found
    obtain ⟨way, shown⟩ := exists_mem_of_ne_nil _ (pathsOf_ne_nil linked member found)
    have about := paths.mem_iff.mpr (mem_map_of_mem shown)
    exact ⟨_, mem_filter.mp about⟩

end

structure ExactFindings (program : Program) (settings : Settings) (label : Label)
    (call : GlobalNode) (found : List Finding) : Prop where
  reported : found ≠ [] ↔ Reported program settings label call
  once : Reported program settings label call → settings.mode = .deduplicated → found.length = 1
  hops : Reported program settings label call → settings.mode = .detailed →
    ∃ (name : String) (ways : List (List GlobalNode)), IsSink program settings.sinks call name ∧
      found.Perm (ways.map (findingOf program label ⟨call, name, []⟩)) ∧
      (ways.map lastHop?).Nodup ∧
      ∀ hop, hop ∈ ways.map lastHop? ↔ IsLastHop program settings.sources label call hop

theorem findings_exact (history : List Program.Operation)
    (built : ∀ graph, .merge graph ∈ history → graph.Built) (ends : Program.EndsLinked history)
    (settings : Settings) (label : Label) (call : GlobalNode) :
    let program := Program.ofHistory history
    ExactFindings program settings label call
      ((analyze program settings).findings.filter (·.isAbout program label call)) := by
  intro program
  have linked : program.Linked := Program.linked_ofHistory built ends
  constructor
  case reported =>
    rw [← exists_finding_iff linked]
    simp
  case once =>
    intro reported mode
    obtain ⟨nodes, hit, member, inside, rfl⟩ := exists_hit linked reported
    obtain ⟨-, -, nonempty, -⟩ := (mem_hits linked.toConsistent).mp inside
    obtain ⟨first, rest, shape⟩ := List.exists_cons_of_ne_nil nonempty
    have paths := findings_about linked member inside
    rw [mode] at paths
    simpa [pathsOf, shape] using paths.length_eq
  case hops =>
    intro reported mode
    obtain ⟨nodes, hit, member, inside, rfl⟩ := exists_hit linked reported
    obtain ⟨sink, -⟩ := (mem_hits linked.toConsistent).mp inside
    have paths := findings_about linked member inside
    rw [mode] at paths
    obtain ⟨once, every⟩ := detailed_hops linked member inside
    exact ⟨hit.api, _, sink, paths, once, every⟩

-- `sink(source());`
def nestedCall : Script.File := .sample [
  .expr (.call (.ident "sink") [.call (.ident "source") [] false {}] false {}) {}]

def nestedCallGraph : FileGraph :=
  .assemble ((Arena.ofFile nestedCall).toOption.getD default) {}

theorem built_nestedCallGraph : nestedCallGraph.Built :=
  FileGraph.built_assemble (rfl : Arena.ofFile nestedCall = _) {}

theorem findings_exact_nestedCall : let history := [.merge nestedCallGraph, .link]
    let program := Program.ofHistory history
    let found := (analyze program {}).findings.filter
      (·.isAbout program (.api "source" ⟨0, 6⟩) ⟨0, 4⟩)
    (∀ graph, .merge graph ∈ history → graph.Built) ∧ Program.EndsLinked history ∧
      Reported program {} (.api "source" ⟨0, 6⟩) ⟨0, 4⟩ ∧ found.length = 1 := by
  intro history program found
  have ends : Program.EndsLinked history := ⟨[.merge nestedCallGraph], [], rfl, by simp⟩
  have built : ∀ graph, .merge graph ∈ history → graph.Built := by
    intro graph member
    have same : graph = nestedCallGraph := by simpa [history] using member
    exact same ▸ built_nestedCallGraph
  have files : program.files = #[nestedCallGraph] := by
    simp [program, history, Program.ofHistory, Program.perform, Program.merge, Program.fileId?,
      Program.link]
  have reported : Reported program {} (.api "source" ⟨0, 6⟩) ⟨0, 4⟩ := by
    have known : program.graph? ⟨0, 4⟩ = some nestedCallGraph := by simp [Program.graph?, files]
    have isCall : nestedCallGraph.arena.kind 4 = .call := by decide +kernel
    have host : nestedCallGraph.heap.callTargets 4 = [] := by decide +kernel
    refine ⟨"sink", ⟨_, known, isCall, host, by decide +kernel, by decide, rfl⟩, by decide, ?_⟩
    have seed : ∃ nodes, (.api "source" ⟨0, 6⟩, nodes) ∈ seeds program {} ∧ ⟨0, 6⟩ ∈ nodes := by
      rw [mem_seeds]
      apply List.mem_append_left
      simp only [apiSeeds, Program.numbered, files]
      decide +kernel
    obtain ⟨nodes, member, started⟩ := seed
    have argument : 6 ∈ nestedCallGraph.arena.callArgs 4 := by decide +kernel
    have edge := FileGraph.edge_of_mem_callArgs built_nestedCallGraph isCall host argument
    have linked : program.Linked := Program.linked_ofHistory built ends
    exact ⟨nodes, member, _, started,
      .single (linked.flows_iff.mpr ⟨_, .inl ⟨_, known, rfl, edge⟩⟩)⟩
  exact ⟨built, ends, reported,
    (findings_exact history built ends {} (.api "source" ⟨0, 6⟩) ⟨0, 4⟩).once reported rfl⟩

end Taint

end Seepage

import Seepage.Proofs.Analysis.Intake
import Seepage.Proofs.Program.Links
import Seepage.Proofs.Taint.Flow

set_option autoImplicit false

namespace Seepage

variable {program program' : Program} {node node' next : GlobalNode} {kind : DataKind}

namespace Program

def SameFile (program program' : Program) (file file' : Nat) : Prop :=
  (∃ graph, program.files[file]? = some graph ∧ program'.files[file']? = some graph) ∧
    program.markup[file]? = program'.markup[file']?

def SameNode (program program' : Program) (node node' : GlobalNode) : Prop :=
  program.SameFile program' node.file node'.file ∧ node.node = node'.node

def Included (program program' : Program) : Prop :=
  ∀ file graph, program.files[file]? = some graph → ∃ file', program.SameFile program' file file'

theorem Represents.included {options : Alias.Options}
    {scripts scripts' : List ScriptFile} (represents : program.Represents options scripts)
    (represents' : program'.Represents options scripts') (all : scripts ⊆ scripts') :
    program.Included program' := by
  intro file graph found
  obtain ⟨inside, -⟩ := Array.getElem?_eq_some_iff.mp found
  obtain ⟨script, member, given, -, attached⟩ := represents.owned file inside
  rw [found] at given
  obtain ⟨file', given', -, attached'⟩ := represents'.held script (all member) (by simp [given])
  exact ⟨file', ⟨graph, found, given' ▸ given⟩, attached.trans attached'.symm⟩

theorem SameNode.arena_eq
    (same : program.SameNode program' node node') : program.arena node = program'.arena node' := by
  obtain ⟨⟨⟨graph, known, known'⟩, -⟩, -⟩ := same
  simp [arena, graph?, known, known']

theorem SameNode.hasFlow_local {graph : FileGraph} (found : program.graph? node = some graph)
    (here : next.file = node.file) (edge : Edge.data node.node next.node kind ∈ graph.edges)
    (same : program.SameNode program' node node') :
    program.SameNode program' next ⟨node'.file, next.node⟩ ∧
      program'.HasFlow node' ⟨node'.file, next.node⟩ kind := by
  obtain ⟨⟨⟨graph', known, known'⟩, attached⟩, sameId⟩ := same
  obtain rfl : graph = graph' := Option.some.inj (found.symm.trans known)
  refine ⟨⟨⟨⟨graph, ?_, known'⟩, ?_⟩, rfl⟩, .inl ⟨graph, known', rfl, sameId ▸ edge⟩⟩
  · rw [here, known]
  · rw [here, attached]

section

variable {program program' : Program} (linked : program.Linked) (linked' : program'.Linked)
  (included : program.Included program')

include linked linked' included

theorem SameNode.hasFlow_link
    {channel : Option String} (link : ⟨node, next, kind, channel⟩ ∈ program.links)
    (same : program.SameNode program' node node') :
    ∃ next', program.SameNode program' next next' ∧ program'.HasFlow node' next' kind := by
  obtain ⟨⟨⟨graph, known, known'⟩, attached⟩, sameId⟩ := same
  have shape : node' = ⟨node'.file, node.node⟩ := by rw [sameId]
  rw [linked.current, mem_allLinks] at link
  rcases link with ⟨file, graph', found, registered⟩ | channelled
  · obtain ⟨rfl, here, everywhere⟩ := FileGraph.mem_registrationLinks registered
    obtain rfl : graph = graph' := Option.some.inj (known.symm.trans found)
    refine ⟨⟨node'.file, next.node⟩, ⟨⟨⟨graph, ?_, known'⟩, ?_⟩, rfl⟩, .inr ⟨channel, ?_⟩⟩
    · rw [here, known]
    · rw [here, attached]
    · rw [linked'.current, mem_allLinks, shape]
      exact .inl ⟨_, graph, known', everywhere node'.file⟩
  · obtain ⟨event, rfl, rfl, emitted, heard⟩ := mem_channelLinks.mp channelled
    obtain ⟨graph', found, emits⟩ := mem_channelEnds.mp emitted
    obtain rfl : graph = graph' := Option.some.inj (known.symm.trans found)
    obtain ⟨target, targetFound, listens⟩ := mem_channelEnds.mp heard
    obtain ⟨file', sameFile⟩ := included _ _ targetFound
    refine ⟨⟨file', next.node⟩, ⟨sameFile, rfl⟩, .inr ⟨some event, ?_⟩⟩
    obtain ⟨⟨target', there, there'⟩, -⟩ := sameFile
    obtain rfl : target = target' := Option.some.inj (targetFound.symm.trans there)
    rw [linked'.current, mem_allLinks]
    refine .inr (mem_channelLinks.mpr ⟨event, rfl, rfl, ?_, ?_⟩)
    · exact mem_channelEnds.mpr ⟨graph, known', sameId ▸ emits⟩
    · exact mem_channelEnds.mpr ⟨target, there', listens⟩

theorem SameNode.flows {node next node' : GlobalNode} (flows : program.Flows node next)
    (same : program.SameNode program' node node') :
    ∃ next', program.SameNode program' next next' ∧ program'.Flows node' next' := by
  obtain ⟨kind, ⟨graph, found, here, edge⟩ | ⟨channel, link⟩⟩ := linked.flows_iff.mp flows
  · obtain ⟨sameNext, flow⟩ := same.hasFlow_local found here edge
    exact ⟨_, sameNext, linked'.flows_iff.mpr ⟨kind, flow⟩⟩
  · obtain ⟨next', sameNext, flow⟩ := same.hasFlow_link linked linked' included link
    exact ⟨next', sameNext, linked'.flows_iff.mpr ⟨kind, flow⟩⟩

theorem SameNode.reaches {last : GlobalNode} (path : program.Reaches node last)
    (same : program.SameNode program' node node') :
    ∃ last', program.SameNode program' last last' ∧ program'.Reaches node' last' := by
  induction path with
  | refl => exact ⟨node', same, .refl⟩
  | tail _ flows ih =>
    obtain ⟨between, sameBetween, before⟩ := ih
    obtain ⟨last', sameLast, step⟩ := sameBetween.flows linked linked' included flows
    exact ⟨last', sameLast, before.tail step⟩

end

end Program

namespace Taint

section

variable {program program' : Program} (included : program.Included program')

include included

theorem exists_same_seed {sources : SourceFilter}
    (drawn : program.markupEdges = program.allMarkupEdges)
    (drawn' : program'.markupEdges = program'.allMarkupEdges) {label : Label} {seed : GlobalNode}
    (member : ⟨label, seed⟩ ∈ apiSeeds program sources ++ markupSeeds program sources) :
    ∃ label' seed', program.SameNode program' seed seed' ∧
      ⟨label', seed'⟩ ∈ apiSeeds program' sources ++ markupSeeds program' sources ∧
      label'.apiName? = label.apiName? ∧ label'.origin program' = label.origin program := by
  rcases List.mem_append.mp member with api | markup
  · obtain ⟨graph, name, found, listed, named, rfl⟩ := (mem_apiSeeds program sources).mp api
    obtain ⟨file', sameFile⟩ := included _ _ found
    have same : program.SameNode program' seed ⟨file', seed.node⟩ := ⟨sameFile, rfl⟩
    obtain ⟨⟨graph', known, known'⟩, -⟩ := sameFile
    obtain rfl : graph = graph' := Option.some.inj (found.symm.trans known)
    refine ⟨.api name ⟨file', seed.node⟩, _, same, List.mem_append_left _ ?_, rfl, ?_⟩
    · exact (mem_apiSeeds program' sources).mpr ⟨graph, name, known', listed, named, rfl⟩
    · simp [Label.origin, same.arena_eq]
  · obtain ⟨wanted, binding, edge, rfl⟩ := (mem_markupSeeds program sources).mp markup
    rw [drawn, Program.mem_allMarkupEdges] at edge
    obtain ⟨bindings, graph, attached, found, listed, target⟩ := edge
    obtain ⟨file', sameFile⟩ := included _ _ found
    have same : program.SameNode program' seed ⟨file', seed.node⟩ := ⟨sameFile, rfl⟩
    obtain ⟨⟨graph', known, known'⟩, attached'⟩ := sameFile
    obtain rfl : graph = graph' := Option.some.inj (found.symm.trans known)
    refine ⟨.markup binding, _, same, List.mem_append_right _ ?_, rfl, rfl⟩
    refine (mem_markupSeeds program' sources).mpr ⟨wanted, binding, ?_, rfl⟩
    rw [drawn', Program.mem_allMarkupEdges]
    exact ⟨bindings, graph, attached' ▸ attached, known', listed, target⟩

omit included in
theorem IsSink.same {sinks : ApiFilter} {call call' : GlobalNode} {name : String}
    (sink : IsSink program sinks call name) (same : program.SameNode program' call call') :
    IsSink program' sinks call' name := by
  obtain ⟨⟨⟨graph, known, known'⟩, -⟩, sameId⟩ := same
  obtain ⟨graph', found, rest⟩ := sink
  obtain rfl : graph = graph' := Option.some.inj (known.symm.trans found)
  exact ⟨graph, known', sameId ▸ rest⟩

theorem exists_same_flow (linked : program.Linked) (linked' : program'.Linked)
    (drawn : program.markupEdges = program.allMarkupEdges)
    (drawn' : program'.markupEdges = program'.allMarkupEdges) {settings : Settings} {label : Label}
    {call : GlobalNode} (reported : Reported program settings label call) :
    ∃ label' call', Reported program' settings label' call' ∧
      flowOf program label call = flowOf program' label' call' := by
  obtain ⟨name, sink, foreign, nodes, member, seed, started, path⟩ := reported
  have listed := (mem_seeds program settings.sources).mp ⟨nodes, member, started⟩
  obtain ⟨label', seed', sameSeed, listed', sameName, sameOrigin⟩ :=
    exists_same_seed included drawn drawn' listed
  obtain ⟨call', sameCall, path'⟩ := sameSeed.reaches linked linked' included path
  obtain ⟨nodes', member', started'⟩ := (mem_seeds program' settings.sources).mpr listed'
  refine ⟨label', call', ⟨name, sink.same sameCall, by rwa [sameName], nodes', member', seed',
    started', path'⟩, ?_⟩
  simp [flowOf, sameOrigin, sameCall.arena_eq, sameCall.2]

end

end Taint

def SourceUnit.flows (unit : SourceUnit) (config : AnalysisConfig) : List Taint.Flow :=
  (unit.analyze config).1.findings.map Taint.Finding.flow

theorem SourceUnit.flows_subset {unit unit' : SourceUnit} {config : AnalysisConfig}
    (unlimited : config.memoryCeiling = none) (distinct : (unit.scripts.map ScriptFile.name).Nodup)
    (distinct' : (unit'.scripts.map ScriptFile.name).Nodup) (all : unit.scripts ⊆ unit'.scripts) :
    unit.flows config ⊆ unit'.flows config := by
  obtain ⟨program, represents, same⟩ := analyze_unlimited unlimited distinct
  obtain ⟨program', represents', same'⟩ := analyze_unlimited unlimited distinct'
  have linked := represents.toConsistent.link
  have linked' := represents'.toConsistent.link
  have kept : program.Included program' := represents.included represents' all
  have included : program.link.Included program'.link := kept
  intro flow member
  rw [flows, same, Taint.mem_flows linked] at member
  rw [flows, same', Taint.mem_flows linked']
  obtain ⟨label, call, reported, rfl⟩ := member
  exact Taint.exists_same_flow included linked linked' rfl rfl reported

theorem SourceUnit.flows_monotone (unit unit' : SourceUnit) (config : AnalysisConfig)
    (unlimited : config.memoryCeiling = none)
    (distinct : (unit.scripts.map ScriptFile.name).Nodup)
    (distinct' : (unit'.scripts.map ScriptFile.name).Nodup)
    (all : ∀ script ∈ unit.scripts, script ∈ unit'.scripts) :
    (∀ flow ∈ unit.flows config, flow ∈ unit'.flows config) ∧
      (unit.scripts.Perm unit'.scripts →
        ∀ flow, flow ∈ unit.flows config ↔ flow ∈ unit'.flows config) := by
  have kept := flows_subset unlimited distinct distinct' all
  refine ⟨fun flow member => kept member, fun reordered flow => ⟨fun member => kept member, ?_⟩⟩
  intro member
  exact flows_subset unlimited distinct' distinct reordered.symm.subset member

def sender : ScriptFile where
  name := "sender.js"
  text := "bus.emit('news', source());"

def receiver : ScriptFile where
  name := "receiver.js"
  text := "bus.on('news', function (text) { sink(text); }); sink(this.data.name);"
  markup := some ⟨"receiver.wxml", "<input model:value=\"\x7b\x7bname\x7d\x7d\" />"⟩

theorem SourceUnit.flows_monotone_channel :
    let unit : SourceUnit := { name := "pages", scripts := [sender, receiver] }
    let unit' : SourceUnit :=
      { name := "pages", scripts := [receiver, ⟨"other.js", "sink(1);", none⟩, sender] }
    let config : AnalysisConfig := { memoryCeiling := none }
    config.memoryCeiling = none ∧ (unit.scripts.map ScriptFile.name).Nodup ∧
      (unit'.scripts.map ScriptFile.name).Nodup ∧
      (∀ script ∈ unit.scripts, script ∈ unit'.scripts) ∧
      ∀ flow ∈ unit.flows config, flow ∈ unit'.flows config := by
  intro unit unit' config
  have distinct : (unit.scripts.map ScriptFile.name).Nodup := by decide
  have distinct' : (unit'.scripts.map ScriptFile.name).Nodup := by decide
  have all : ∀ script ∈ unit.scripts, script ∈ unit'.scripts := by decide
  exact ⟨rfl, distinct, distinct', all,
    (flows_monotone unit unit' config rfl distinct distinct' all).1⟩

end Seepage

import Seepage.Proofs.Program.Adjacency
import Seepage.Proofs.Taint.Distance
import Seepage.Proofs.Taint.Flow
import Seepage.Proofs.Taint.Range

set_option autoImplicit false

namespace Seepage.Taint

open List Program

variable {program : Program} {label : Label} {nodes way : List GlobalNode} {node : GlobalNode}
  {hit : Hit} {settings : Settings}

def IsSeed (program : Program) (sources : SourceFilter) (label : Label) (node : GlobalNode) : Prop :=
  ∃ nodes, (label, nodes) ∈ seeds program sources ∧ node ∈ nodes

theorem isSeed_iff {sources : SourceFilter} (member : (label, nodes) ∈ seeds program sources) :
    IsSeed program sources label node ↔ node ∈ nodes := by
  constructor
  · rintro ⟨nodes', member', started⟩
    have same := inj_on_of_nodup_map (nodup_labels program sources) member member' rfl
    obtain rfl : nodes = nodes' := (Prod.mk.inj same).2
    exact started
  · intro started
    exact ⟨nodes, member, started⟩

def ledTo (call : GlobalNode) (way : List GlobalNode) : List GlobalNode :=
  if way.getLast? = some call then way else way ++ [call]

theorem path_findingOf :
    (findingOf program label hit way).path = (ledTo hit.call way).map (stepAt program) :=
  rfl

section

variable {program : Program} (linked : program.Linked)

include linked

theorem IsWalk.ledTo {sinks : ApiFilter} {call : GlobalNode} {name : String}
    (sink : IsSink program sinks call name) {start : GlobalNode → Prop} {way : List GlobalNode}
    (walk : IsWalk program start (IsHit program call) way) :
    IsWalk program start (· = call) (ledTo call way) := by
  obtain ⟨started, ⟨last, isLast, hit⟩, joined⟩ := walk
  unfold Taint.ledTo
  split
  case isTrue arrived => exact ⟨started, ⟨call, arrived, rfl⟩, joined⟩
  case isFalse short =>
    have other : last ≠ call := by
      rintro rfl
      exact short isLast
    exact IsWalk.concat ⟨started, ⟨last, isLast, rfl⟩, joined⟩ (hit.hasFlow linked sink other) rfl

theorem isWalk_of_mem_lastHops {seeds : List GlobalNode} (distinct : seeds.Nodup)
    (present : node ∈ (trace program seeds).ways) {goal : GlobalNode → Prop} (reached : goal node)
    {hop : Option GlobalNode} (member : (hop, way) ∈ lastHops program (trace program seeds) node) :
    IsWalk program (· ∈ seeds) goal way := by
  obtain ⟨isHop, ⟨rfl, rfl⟩ | ⟨before, rfl, rfl⟩⟩ := of_mem_lastHops member
  · exact (isWalk_wayTo linked distinct present reached).1
  · obtain ⟨⟨kind, flow⟩, seen⟩ := isHop
    obtain ⟨walk, -⟩ := @isWalk_wayTo _ linked _ distinct _ seen (· = before) rfl
    exact walk.concat ⟨kind, linked.mem_predecessors.mp flow⟩ reached

theorem isWalk_of_mem_pathsOf (member : (label, nodes) ∈ seeds program settings.sources)
    (found : hit ∈ hits program settings.sinks label (trace program nodes).order)
    (shown : way ∈ pathsOf program settings.mode (trace program nodes) hit) :
    IsWalk program (IsSeed program settings.sources label) (IsHit program hit.call) way := by
  have distinct := nodup_seedNodes program settings.sources member
  have reached := reached_ways_of_mem_hits linked member found
  have isHit := reached_of_mem_hits linked member found
  suffices walk : IsWalk program (· ∈ nodes) (IsHit program hit.call) way from
    walk.mono (fun _ started => (isSeed_iff member).mpr started) (fun _ => id)
  cases mode : settings.mode with
  | deduplicated =>
    rw [mode] at shown
    obtain ⟨node, first, rfl⟩ := mem_map.mp shown
    have through := mem_of_head? (Option.mem_toList.mp first)
    exact (isWalk_wayTo linked distinct (reached node through) ((isHit node).mp through).2).1
  | detailed =>
    rw [mode] at shown
    obtain ⟨⟨hop, _⟩, kept, rfl⟩ := mem_map.mp shown
    obtain ⟨node, through, last⟩ := mem_lastHops_of_mem_waysByHop kept
    exact isWalk_of_mem_lastHops linked distinct (reached node through)
      ((isHit node).mp through).2 last

end

structure Shows (program : Program) (settings : Settings) (finding : Finding) (call : GlobalNode)
    (way : List GlobalNode) : Prop where
  path : finding.path = way.map (stepAt program)
  contained : ∀ node ∈ way, program.contains node
  walk : IsWalk program (IsSeed program settings.sources finding.label) (· = call) way
  source : way.head?.map (fun seed => (program.arena seed).file) = some finding.sourceFile
  sink : IsSink program settings.sinks call finding.sink.api
  place : finding.sink.file = (program.arena call).file ∧ finding.sink.node = call.node

structure IsDirect (program : Program) (sources : SourceFilter) (label : Label) (call : GlobalNode)
    (way : List GlobalNode) : Prop where
  distinct : way.Nodup
  direct : ∃ before hit after, way = before ++ hit :: after ∧
    (∀ node ∈ before, ¬IsHit program call node) ∧
    IsShortestWalk program (IsSeed program sources label) (IsHit program call) (before ++ [hit])

section

variable {program : Program} (linked : program.Linked)

include linked

theorem isDirect_of_mem_pathsOf (mode : settings.mode = .deduplicated)
    (member : (label, nodes) ∈ seeds program settings.sources)
    (found : hit ∈ hits program settings.sinks label (trace program nodes).order)
    (shown : way ∈ pathsOf program settings.mode (trace program nodes) hit) :
    IsDirect program settings.sources label hit.call (ledTo hit.call way) := by
  have distinct := nodup_seedNodes program settings.sources member
  obtain ⟨-, -, -, through⟩ := (mem_hits linked.toConsistent).mp found
  have reached := reached_ways_of_mem_hits linked member found
  rw [mode] at shown
  obtain ⟨node, first, rfl⟩ := mem_map.mp shown
  rw [Option.mem_toList] at first
  have inside := mem_of_head? first
  have isHit := ((reached_of_mem_hits linked member found node).mp inside).2
  rw [through] at first
  obtain ⟨shortest, before, shape, early⟩ := isShortestWalk_wayTo linked distinct first
  obtain ⟨-, once⟩ := isWalk_wayTo linked distinct (reached node inside) isHit
  have starts : ∀ seed, seed ∈ nodes ↔ IsSeed program settings.sources label seed := fun seed =>
    (isSeed_iff member).symm
  have shortest' : IsShortestWalk program (IsSeed program settings.sources label)
      (IsHit program hit.call) (before ++ [node]) := by
    rw [← shape]
    refine ⟨shortest.toIsWalk.mono (fun seed => (starts seed).mp) (fun _ => id), ?_⟩
    intro other walk
    exact shortest.shortest other (walk.mono (fun seed => (starts seed).mpr) (fun _ => id))
  rw [shape] at once ⊢
  unfold ledTo
  split
  case isTrue => exact ⟨once, before, node, [], rfl, early, shortest'⟩
  case isFalse short =>
    have other : node ≠ hit.call := by simpa using short
    refine ⟨?_, before, node, [hit.call], by simp, early, shortest'⟩
    -- the call is a hit itself, and the first hit on the way is another
    have fresh : hit.call ∉ before := fun member => early _ member (.inl rfl)
    rw [nodup_append]
    refine ⟨once, by simp, ?_⟩
    rintro step onWay call isCall rfl
    rw [mem_singleton.mp isCall] at onWay
    rcases mem_append.mp onWay with inner | last
    · exact fresh inner
    · exact other (mem_singleton.mp last).symm

end

theorem shows_of_mem_pathsOf {history : List Program.Operation}
    (built : ∀ graph, .merge graph ∈ history → graph.Built) (ends : Program.EndsLinked history)
    (member : (label, nodes) ∈ seeds (ofHistory history) settings.sources)
    (found : hit ∈ hits (ofHistory history) settings.sinks label
      (trace (ofHistory history) nodes).order)
    (shown : way ∈ pathsOf (ofHistory history) settings.mode
      (trace (ofHistory history) nodes) hit) : Shows (ofHistory history) settings
      (findingOf (ofHistory history) label hit way) hit.call (ledTo hit.call way) := by
  have linked := linked_ofHistory built ends
  have sink := ((mem_hits linked.toConsistent).mp found).1
  have walk := (isWalk_of_mem_pathsOf linked member found shown).ledTo linked sink
  refine ⟨path_findingOf, walk.contained linked ?_, walk, ?_, sink, rfl, rfl⟩
  · rintro seed ⟨nodes', listed, started⟩
    exact contains_seed (contains_markupEdges built ends) listed started
  · obtain ⟨seed, isFirst, -⟩ := walk.first
    have source : (findingOf (ofHistory history) label hit way).sourceFile =
        ((ofHistory history).arena ((ledTo hit.call way).head?.getD hit.call)).file := rfl
    rw [source, isFirst, Option.map_some, Option.getD_some]

theorem paths_real (history : List Program.Operation)
    (built : ∀ graph, .merge graph ∈ history → graph.Built) (ends : Program.EndsLinked history)
    (settings : Settings) (finding : Finding)
    (member : finding ∈ (analyze (Program.ofHistory history) settings).findings) :
    ∃ call way, Shows (Program.ofHistory history) settings finding call way ∧
      (settings.mode = .deduplicated →
        IsDirect (Program.ofHistory history) settings.sources finding.label call way) := by
  obtain ⟨label, nodes, hit, way, seeded, found, shown, rfl⟩ := mem_findings.mp member
  refine ⟨hit.call, ledTo hit.call way, shows_of_mem_pathsOf built ends seeded found shown, ?_⟩
  intro mode
  exact isDirect_of_mem_pathsOf (linked_ofHistory built ends) mode seeded found shown

theorem reported_relay : Reported (ofHistory relay) {} (.api "source" ⟨0, 8⟩) ⟨1, 14⟩ := by
  have linked := linked_ofHistory built_relay endsLinked_relay
  have hearing := fun node => (graph?_relay node).2
  have isCall : hearingGraph.arena.kind 14 = .call := by decide +kernel
  have host : hearingGraph.heap.callTargets 14 = [] := by decide +kernel
  refine ⟨"sink", ⟨_, hearing 14, isCall, host, by decide +kernel, by decide, rfl⟩, by decide, ?_⟩
  have seed : ∃ nodes, (.api "source" ⟨0, 8⟩, nodes) ∈ seeds (ofHistory relay) {} ∧
      ⟨0, 8⟩ ∈ nodes := by
    rw [mem_seeds]
    apply mem_append_left
    simp only [apiSeeds, numbered, files_relay]
    decide +kernel
  obtain ⟨nodes, member, started⟩ := seed
  have argument : 16 ∈ hearingGraph.arena.callArgs 14 := by decide +kernel
  have built := built_relay hearingGraph (by simp [relay])
  have into := FileGraph.edge_of_mem_callArgs built isCall host argument
  have heard : (ofHistory relay).Flows ⟨0, 8⟩ ⟨1, 11⟩ :=
    linked.flows_iff.mpr ⟨_, .inr ⟨_, link_relay⟩⟩
  have used : (ofHistory relay).Flows ⟨1, 11⟩ ⟨1, 16⟩ :=
    linked.flows_iff.mpr ⟨_, .inl ⟨_, hearing 11, rfl, use_relay⟩⟩
  have handed : (ofHistory relay).Flows ⟨1, 16⟩ ⟨1, 14⟩ :=
    linked.flows_iff.mpr ⟨_, .inl ⟨_, hearing 16, rfl, into⟩⟩
  exact ⟨nodes, member, _, started, .head heard (.head used (.single handed))⟩

theorem paths_real_relay :
    (∀ graph, .merge graph ∈ relay → graph.Built) ∧ Program.EndsLinked relay ∧
      ∃ finding ∈ (analyze (Program.ofHistory relay) {}).findings, ∃ call way,
        Shows (Program.ofHistory relay) {} finding call way ∧
          IsDirect (Program.ofHistory relay) {} finding.label call way := by
  have linked := linked_ofHistory built_relay endsLinked_relay
  obtain ⟨finding, member, -⟩ := (exists_finding_iff linked).mpr reported_relay
  obtain ⟨call, way, shows', direct⟩ :=
    paths_real relay built_relay endsLinked_relay {} finding member
  exact ⟨built_relay, endsLinked_relay, finding, member, call, way, shows', direct rfl⟩

structure Crosses (program : Program) (event : String) (node next : GlobalNode) : Prop where
  link : ⟨node, next, .callArg, some event⟩ ∈ program.links
  emitted : ∃ graph call, program.graph? node = some graph ∧
    graph.arena.parent? node.node = some call ∧ graph.Announces "emit" call event node.node
  received : ∃ graph, program.graph? next = some graph ∧ graph.Receives event next.node

section

variable {program : Program} (linked : program.Linked)

include linked

theorem crosses_of_mem_links {link : LinkEdge} (member : link ∈ program.links)
    (differ : link.source.file ≠ link.target.file) :
    ∃ event, link.channel = some event ∧ Crosses program event link.source link.target := by
  rw [linked.current] at member
  obtain ⟨source, target, kind, channel⟩ := link
  rcases mem_allLinks.mp member with ⟨file, graph, -, registered⟩ | channel
  · obtain ⟨first, second, -⟩ := FileGraph.mem_registrationLinks registered
    exact absurd (first.trans second.symm) differ
  · obtain ⟨event, rfl, rfl, emitted, heard⟩ := mem_channelLinks.mp channel
    obtain ⟨graph, found, emits⟩ := mem_channelEnds.mp emitted
    obtain ⟨graph', found', listens⟩ := mem_channelEnds.mp heard
    obtain ⟨call, announces⟩ := FileGraph.mem_emits.mp emits
    obtain ⟨first, rest, args, -⟩ := announces.args
    have argument : source.node ∈ graph.arena.callArgs call := by simp [args]
    obtain ⟨well, -⟩ := (linked.built_graph found).eq_assemble
    exact ⟨event, rfl, linked.current ▸ member,
      ⟨graph, call, found, well.parent_of_mem_callArgs argument, announces⟩,
      ⟨graph', found', FileGraph.receives_of_mem_listeners listens⟩⟩

theorem crosses_of_hasFlow {next : GlobalNode} (flow : ∃ kind, program.HasFlow node next kind)
    (differ : node.file ≠ next.file) :
    ∃ event, (program.linkBetween? node next).bind (·.channel) = some event ∧
      Crosses program event node next := by
  obtain ⟨kind, ⟨graph, -, same, -⟩ | ⟨channel, member⟩⟩ := flow
  · exact absurd same.symm differ
  · have known : (program.linkBetween? node next).isSome := by
      rw [linkBetween?, find?_isSome]
      exact ⟨_, member, by simp⟩
    obtain ⟨link, found⟩ := Option.isSome_iff_exists.mp known
    have ends : link.source = node ∧ link.target = next := by
      simpa using find?_some found
    obtain ⟨rfl, rfl⟩ := ends
    rw [found]
    exact crosses_of_mem_links linked (mem_of_find?_eq_some found) differ

theorem channelAlong_eq_some
    (joined : way.IsChain fun node next => ∃ kind, program.HasFlow node next kind)
    {first last : GlobalNode} (isFirst : way.head? = some first) (isLast : way.getLast? = some last)
    (differ : first.file ≠ last.file) :
    ∃ before node next after event, way = before ++ node :: next :: after ∧
      (∀ other ∈ before, other.file = node.file) ∧ node.file ≠ next.file ∧
      channelAlong program way = some event ∧ Crosses program event node next := by
  induction way generalizing first with
  | nil => cases isFirst
  | cons node rest ih =>
    obtain rfl : node = first := by simpa using isFirst
    cases rest with
    | nil =>
      obtain rfl : node = last := by simpa using isLast
      exact absurd rfl differ
    | cons next rest =>
      obtain ⟨flow, later⟩ := isChain_cons_cons.mp joined
      by_cases same : node.file = next.file
      · obtain ⟨before, source, target, after, event, shape, together, apart, named, crosses⟩ :=
          ih later rfl (by simpa using isLast) (same ▸ differ)
        refine ⟨node :: before, source, target, after, event, by rw [shape]; rfl, ?_, apart, ?_,
          crosses⟩
        · refine forall_mem_cons.mpr ⟨?_, together⟩
          cases before with
          | nil =>
            obtain ⟨rfl, -⟩ := List.cons.inj shape
            exact same
          | cons other before =>
            obtain ⟨rfl, -⟩ := List.cons.inj shape
            exact same.trans (together _ mem_cons_self)
        · simp [channelAlong, same, named]
      · obtain ⟨event, found, crosses⟩ := crosses_of_hasFlow linked flow same
        exact ⟨[], node, next, rest, event, rfl, by simp, same, by simp [channelAlong, same, found],
          crosses⟩

end

theorem channels_named (history : List Program.Operation)
    (built : ∀ graph, .merge graph ∈ history → graph.Built) (ends : Program.EndsLinked history)
    (settings : Settings) (finding : Finding)
    (member : finding ∈ (analyze (Program.ofHistory history) settings).findings) :
    ∃ way, finding.path = way.map (stepAt (Program.ofHistory history)) ∧
      (∀ node ∈ way, (Program.ofHistory history).contains node) ∧
      way.IsChain (fun node next => node.file ≠ next.file →
        ∃ event, Crosses (Program.ofHistory history) event node next) ∧
      (finding.sourceFile ≠ finding.sink.file →
        ∃ before node next after event, way = before ++ node :: next :: after ∧
          (∀ other ∈ before, other.file = node.file) ∧ node.file ≠ next.file ∧
          finding.channel = some event ∧
          Crosses (Program.ofHistory history) event node next) := by
  have linked := linked_ofHistory built ends
  obtain ⟨label, nodes, hit, way, seeded, found, shown, rfl⟩ := mem_findings.mp member
  have real := shows_of_mem_pathsOf built ends seeded found shown
  refine ⟨ledTo hit.call way, real.path, real.contained, ?_, ?_⟩
  · refine real.walk.joined.imp fun node next flow differ => ?_
    obtain ⟨event, -, crosses⟩ := crosses_of_hasFlow linked flow differ
    exact ⟨event, crosses⟩
  · intro differ
    obtain ⟨first, isFirst, -⟩ := real.walk.first
    obtain ⟨last, isLast, rfl⟩ := real.walk.last
    refine channelAlong_eq_some linked real.walk.joined isFirst isLast ?_
    intro same
    have source := real.source
    rw [isFirst, Option.map_some, Option.some.injEq] at source
    have arena : (ofHistory history).arena first =
        (ofHistory history).arena hit.call := by
      simp [arena, graph?, same]
    exact differ (source.symm.trans ((congrArg Arena.file arena).trans real.place.1.symm))

theorem channels_named_relay :
    (∀ graph, .merge graph ∈ relay → graph.Built) ∧ Program.EndsLinked relay ∧
      ∃ finding ∈ (analyze (Program.ofHistory relay) {}).findings,
        finding.sourceFile = "sender.js" ∧ finding.sink.file = "receiver.js" ∧
        ∃ event, finding.channel = some event ∧
          ∃ node next, Crosses (Program.ofHistory relay) event node next := by
  have linked := linked_ofHistory built_relay endsLinked_relay
  obtain ⟨finding, member, about⟩ := (exists_finding_iff linked).mpr reported_relay
  obtain ⟨label, call, -, about', same⟩ := flow_of_mem_findings linked member
  obtain ⟨rfl, rfl⟩ := isAbout_unique linked about about'
  simp only [Finding.isAbout, Bool.and_eq_true, beq_iff_eq] at about
  have origin := congrArg Flow.origin same
  have target := congrArg Flow.sinkFile same
  have sending : sendingGraph.arena.file = "sender.js" := by decide +kernel
  have hearing : hearingGraph.arena.file = "receiver.js" := by decide +kernel
  have source : finding.sourceFile = "sender.js" := by
    simpa [Finding.flow, about.1.1, flowOf, Label.origin, arena, graph?,
      files_relay, sending] using origin
  have sink : finding.sink.file = "receiver.js" := by
    simpa [Finding.flow, flowOf, arena, graph?, files_relay, hearing] using target
  obtain ⟨way, -, -, -, named⟩ :=
    channels_named relay built_relay endsLinked_relay {} finding member
  obtain ⟨before, node, next, after, event, -, -, -, channel, crosses⟩ :=
    named (by rw [source, sink]; decide)
  exact ⟨built_relay, endsLinked_relay, finding, member, source, sink, event, channel, node, next,
    crosses⟩

end Seepage.Taint

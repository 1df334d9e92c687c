import Seepage.Proofs.Taint.Exactness

set_option autoImplicit false

namespace Seepage.Taint

inductive Origin where
  | api (name file : String) (node : Nat)
  | markup (binding : Markup.Binding)
deriving DecidableEq, Repr

structure Flow where
  origin : Origin
  sinkFile : String
  sinkNode : Nat
deriving DecidableEq, Repr

def Finding.flow (finding : Finding) : Flow where
  origin := match finding.label with
    | .api name site => .api name finding.sourceFile site.node
    | .markup binding => .markup binding
  sinkFile := finding.sink.file
  sinkNode := finding.sink.node

def Label.origin (program : Program) : Label → Origin
  | .api name site => .api name (program.arena site).file site.node
  | .markup binding => .markup binding

def flowOf (program : Program) (label : Label) (call : GlobalNode) : Flow where
  origin := label.origin program
  sinkFile := (program.arena call).file
  sinkNode := call.node

theorem seed_of_api {program : Program} {sources : SourceFilter} {name : String} {site : GlobalNode}
    {nodes : List GlobalNode} (member : (.api name site, nodes) ∈ seeds program sources)
    {seed : GlobalNode} (started : seed ∈ nodes) : seed = site := by
  have known := (mem_seeds program sources).mp ⟨nodes, member, started⟩
  rcases List.mem_append.mp known with api | markup
  · obtain ⟨graph, name', -, -, -, same⟩ := (mem_apiSeeds program sources).mp api
    exact (Label.api.inj same).2.symm
  · obtain ⟨-, binding, -, same⟩ := (mem_markupSeeds program sources).mp markup
    cases same

section

variable {program : Program} (linked : program.Linked) {settings : Settings}

include linked

theorem flow_of_mem_findings {finding : Finding}
    (member : finding ∈ (analyze program settings).findings) :
    ∃ label call, Reported program settings label call ∧
      finding.isAbout program label call = true ∧ finding.flow = flowOf program label call := by
  obtain ⟨label, nodes, hit, way, inside, found, shown, rfl⟩ := mem_findings.mp member
  have sink := ((mem_hits linked.toConsistent).mp found).1
  refine ⟨label, hit.call, reported_of_mem_hits linked inside found,
    (isAbout_findingOf linked sink way).mpr ⟨rfl, rfl⟩, ?_⟩
  cases label with
  | markup binding => rfl
  | api name site =>
    have distinct := nodup_seedNodes program settings.sources inside
    obtain ⟨seed, started, head⟩ := head_pathsOf (trace_complete linked distinct).1
      (reached_ways_of_mem_hits linked inside found) shown
    rw [seed_of_api inside started] at head
    have start : (if way.getLast? = some hit.call then way else way ++ [hit.call]).head? =
        some site := by
      split <;> simp [head]
    simp [Finding.flow, flowOf, findingOf, Label.origin, start]

theorem mem_flows {flow : Flow} : flow ∈ (analyze program settings).findings.map Finding.flow ↔
      ∃ label call, Reported program settings label call ∧ flow = flowOf program label call := by
  rw [List.mem_map]
  constructor
  · rintro ⟨finding, member, rfl⟩
    obtain ⟨label, call, reported, -, same⟩ := flow_of_mem_findings linked member
    exact ⟨label, call, reported, same⟩
  · rintro ⟨label, call, reported, rfl⟩
    obtain ⟨finding, member, about⟩ := (exists_finding_iff linked).mpr reported
    obtain ⟨label', call', -, about', same⟩ := flow_of_mem_findings linked member
    obtain ⟨rfl, rfl⟩ := isAbout_unique linked about about'
    exact ⟨finding, member, same⟩

end

end Seepage.Taint

import Mathlib.Algebra.BigOperators.Ring.Finset
import Mathlib.Data.Set.Card
import Seepage.Proofs.Taint.Paths

set_option autoImplicit false

namespace Seepage

open List Program

variable {program : Program}

namespace Program

def nodes (program : Program) : List GlobalNode :=
  program.numbered.flatMap fun (file, graph) =>
    (List.range graph.arena.size).map fun node => ⟨file, node⟩

def size (program : Program) : Nat :=
  (program.files.toList.map fun graph => graph.arena.size).sum

theorem mem_nodes {node : GlobalNode} : node ∈ program.nodes ↔ program.contains node := by
  obtain ⟨file, id⟩ := node
  simp only [nodes, mem_flatMap, Prod.exists, mem_numbered, mem_map, mem_range,
    GlobalNode.mk.injEq, contains_iff, graph?]
  constructor
  · rintro ⟨_, graph, found, _, known, rfl, rfl⟩
    exact ⟨graph, found, known⟩
  · rintro ⟨graph, found, known⟩
    exact ⟨file, graph, found, id, known, rfl, rfl⟩

theorem length_nodes (program : Program) : program.nodes.length = program.size := by
  rw [size, ← map_numbered, nodes]
  simp [Function.comp_def]

end Program

namespace Taint

theorem encard_visited {seeds : List GlobalNode} {trace : Trace}
    (valid : trace.Valid program seeds) (closed : trace.Closed program) (done : trace.queue = []) :
    {node | ∃ seed ∈ seeds, program.Reaches seed node}.encard = trace.visited.length := by
  have distinct : trace.visited.Nodup := (nodup_append.mp valid.distinct).1
  have same : {node | ∃ seed ∈ seeds, program.Reaches seed node} =
      (trace.visited.toFinset : Set GlobalNode) := by
    simp [valid.mem_visited closed done]
  rw [same, Set.encard_coe_eq_coe_finsetCard, toFinset_card_of_nodup distinct]

theorem queue_run_eq_nil_iff {seeds : List GlobalNode}
    (distinct : seeds.Nodup) (fuel : Nat) : ((Trace.start seeds).run program fuel).queue = [] ↔
      {node | ∃ seed ∈ seeds, program.Reaches seed node}.encard ≤ fuel := by
  obtain ⟨valid, closed, most, least⟩ := (Trace.valid_start program distinct).run
    (by simp [Trace.Closed, Trace.start]) fuel
  have none : (Trace.start seeds).visited.length = 0 := rfl
  rw [none, Nat.zero_add] at most least
  constructor
  · intro done
    rw [encard_visited valid closed done]
    exact_mod_cast most
  · intro few
    by_contra left
    have reached : (((Trace.start seeds).run program fuel).reached.toFinset : Set GlobalNode) ⊆
        {node | ∃ seed ∈ seeds, program.Reaches seed node} := by
      intro node member
      exact valid.reaches (valid.mem_reached.mp (by simpa using member))
    have many := (Set.encard_le_encard reached).trans few
    have distinct' : ((Trace.start seeds).run program fuel).reached.Nodup := by
      refine (List.Perm.nodup_iff ?_).mp valid.distinct
      exact (reverse_perm _).symm.append_right _
    rw [Set.encard_coe_eq_coe_finsetCard, toFinset_card_of_nodup distinct', Nat.cast_le,
      Trace.reached, length_append, Trace.order, length_reverse, least left] at many
    exact left (eq_nil_of_length_eq_zero (by omega))

theorem mem_labels {sources : SourceFilter} {label : Label} :
    label ∈ (seeds program sources).map (·.1) ↔ ∃ node, IsSeed program sources label node := by
  simp only [IsSeed, mem_seeds]
  rw [seeds, labels_groupSeeds, mem_dropRepeats, mem_map]
  simp only [mem_sortDistinct]
  constructor
  · rintro ⟨⟨_, node⟩, member, rfl⟩
    exact ⟨node, member⟩
  · rintro ⟨node, member⟩
    exact ⟨⟨label, node⟩, member, rfl⟩

structure ExactWork (program : Program) (settings : Settings) (outcome : Outcome)
    (labels : Finset Label) : Prop where
  listed : ∀ label, label ∈ labels ↔ ∃ node, IsSeed program settings.sources label node
  ends : ∀ label nodes, (label, nodes) ∈ seeds program settings.sources → ∀ fuel,
    ((Trace.start nodes).run program fuel).queue = [] ↔
      {node | Tainted program settings.sources label node}.encard ≤ fuel
  complete : ∀ label nodes, (label, nodes) ∈ seeds program settings.sources →
    (trace program nodes).queue = []
  seeds : outcome.seeds = labels.card
  steps : (outcome.steps : ℕ∞) =
    ∑ label ∈ labels, {node | Tainted program settings.sources label node}.encard
  bound : outcome.steps ≤ outcome.seeds * program.size

section

variable {program : Program} (linked : program.Linked) {settings : Settings}

include linked

theorem encard_tainted {label : Label} {nodes : List GlobalNode}
    (member : (label, nodes) ∈ seeds program settings.sources) :
    {node | Tainted program settings.sources label node}.encard =
      (trace program nodes).visited.length := by
  obtain ⟨valid, closed, done⟩ := trace_complete linked
    (nodup_seedNodes program settings.sources member)
  simp only [tainted_iff member]
  exact encard_visited valid closed done

theorem steps_analyze : ((analyze program settings).steps : ℕ∞) =
      ∑ label ∈ ((seeds program settings.sources).map (·.1)).toFinset,
        {node | Tainted program settings.sources label node}.encard := by
  have counted : (analyze program settings).steps =
      ((seeds program settings.sources).map fun group =>
        (trace program group.2).visited.length).sum := by
    simp [analyze, conclude, length_flatMap, Function.comp_def]
  rw [counted, sum_toFinset _ (nodup_labels program settings.sources), Nat.cast_list_sum,
    map_map, map_map]
  refine congrArg List.sum (map_congr_left ?_)
  rintro ⟨label, nodes⟩ member
  exact (encard_tainted linked member).symm

theorem steps_le (markup : ∀ edge ∈ program.markupEdges, program.contains edge.target) :
    (analyze program settings).steps ≤ (analyze program settings).seeds * program.size := by
  have few : ∀ visits ∈ ((seeds program settings.sources).map fun group =>
      (trace program group.2).visited.length), visits ≤ program.size := by
    intro visits counted
    obtain ⟨⟨label, nodes⟩, member, rfl⟩ := mem_map.mp counted
    obtain ⟨valid, closed, done⟩ := trace_complete linked
      (nodup_seedNodes program settings.sources member)
    have distinct : (trace program nodes).visited.Nodup := (nodup_append.mp valid.distinct).1
    rw [← program.length_nodes]
    refine List.Nodup.length_le_of_subset distinct fun node visited => mem_nodes.mpr ?_
    obtain ⟨seed, started, path⟩ := (valid.mem_visited closed done).mp visited
    induction path with
    | refl => exact contains_seed markup member started
    | tail _ flows _ =>
      obtain ⟨kind, flow⟩ := linked.flows_iff.mp flows
      exact (linked.contains_of_hasFlow flow).2
  have bound := sum_le_card_nsmul _ _ few
  simpa [analyze, conclude, length_flatMap, Function.comp_def] using bound

end

theorem work_exact (history : List Program.Operation)
    (built : ∀ graph, .merge graph ∈ history → graph.Built) (ends : Program.EndsLinked history)
    (settings : Settings) : ∃ labels, ExactWork (Program.ofHistory history) settings
      (analyze (Program.ofHistory history) settings) labels := by
  have linked := linked_ofHistory built ends
  have markup := contains_markupEdges built ends
  generalize ofHistory history = program at linked markup
  refine ⟨((seeds program settings.sources).map (·.1)).toFinset,
    { listed := ?_, ends := ?_, complete := ?_, seeds := ?_, steps := steps_analyze linked,
      bound := steps_le linked markup }⟩
  case refine_1 =>
    intro label
    rw [List.mem_toFinset, mem_labels]
  case refine_2 =>
    intro label nodes member fuel
    simp only [tainted_iff member]
    exact queue_run_eq_nil_iff (nodup_seedNodes program settings.sources member) fuel
  case refine_3 =>
    intro label nodes member
    exact (trace_complete linked (nodup_seedNodes program settings.sources member)).2.2
  case refine_4 =>
    rw [List.toFinset_card_of_nodup (nodup_labels program settings.sources)]
    simp [analyze, conclude]

open Program (relay built_relay endsLinked_relay) in
theorem work_exact_relay :
    (∀ graph, .merge graph ∈ relay → graph.Built) ∧ Program.EndsLinked relay ∧
      ∃ labels, ExactWork (Program.ofHistory relay) {} (analyze (Program.ofHistory relay) {})
        labels ∧ .api "source" ⟨0, 8⟩ ∈ labels := by
  obtain ⟨labels, work⟩ := work_exact relay built_relay endsLinked_relay {}
  refine ⟨built_relay, endsLinked_relay, labels, work, (work.listed _).mpr ?_⟩
  obtain ⟨-, -, -, nodes, member, seed, started, -⟩ := reported_relay
  exact ⟨seed, nodes, member, started⟩

end Taint

end Seepage

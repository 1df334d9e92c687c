import Seepage.Proofs.Ordering
import Seepage.Proofs.Program.Flow

set_option autoImplicit false

namespace Seepage.Taint

open List

variable {label : Label} {nodes : List GlobalNode}

theorem labels_groupSeeds (seeds : List Seed) :
    (groupSeeds seeds).map (·.1) = dropRepeats (seeds.map (·.label)) := by
  induction seeds with
  | nil => rfl
  | cons seed rest ih =>
    cases rest with
    | nil => rfl
    | cons second rest =>
      have heads := congrArg List.head? ih
      rw [head?_dropRepeats] at heads
      rw [groupSeeds, map_cons, map_cons, dropRepeats, ← map_cons, ← ih]
      cases groups : groupSeeds (second :: rest) with
      | nil => simp [groups] at heads
      | cons group others =>
        obtain ⟨label, nodes⟩ := group
        have first : label = second.label := by simpa [groups] using heads
        subst first
        by_cases same : seed.label = second.label <;> simp [same]

theorem mem_groupSeeds {node : GlobalNode} (seeds : List Seed) :
    (∃ nodes, (label, nodes) ∈ groupSeeds seeds ∧ node ∈ nodes) ↔ ⟨label, node⟩ ∈ seeds := by
  induction seeds with
  | nil => simp [groupSeeds]
  | cons seed rest ih =>
    rw [mem_cons, ← ih, groupSeeds]
    cases groups : groupSeeds rest with
    | nil =>
      obtain ⟨label', node'⟩ := seed
      simp only [mem_singleton, Prod.mk.injEq, Seed.mk.injEq, not_mem_nil, false_and,
        exists_false, or_false]
      constructor
      · rintro ⟨_, ⟨rfl, rfl⟩, member⟩
        exact ⟨rfl, mem_singleton.mp member⟩
      · rintro ⟨rfl, rfl⟩
        exact ⟨_, ⟨rfl, rfl⟩, mem_singleton.mpr rfl⟩
    | cons group others =>
      obtain ⟨label', nodes⟩ := group
      obtain ⟨own, node'⟩ := seed
      by_cases same : own = label'
      · subst same
        simp only [if_true, mem_cons, Prod.mk.injEq, Seed.mk.injEq]
        constructor
        · rintro ⟨_, ⟨rfl, rfl⟩ | later, member⟩
          · rcases mem_cons.mp member with rfl | old
            · exact .inl ⟨rfl, rfl⟩
            · exact .inr ⟨nodes, .inl ⟨rfl, rfl⟩, old⟩
          · exact .inr ⟨_, .inr later, member⟩
        · rintro (⟨rfl, rfl⟩ | ⟨_, ⟨rfl, rfl⟩ | later, member⟩)
          · exact ⟨_, .inl ⟨rfl, rfl⟩, mem_cons_self⟩
          · exact ⟨_, .inl ⟨rfl, rfl⟩, mem_cons_of_mem _ member⟩
          · exact ⟨_, .inr later, member⟩
      · simp only [same, if_false, mem_cons, Prod.mk.injEq, Seed.mk.injEq]
        constructor
        · rintro ⟨_, ⟨rfl, rfl⟩ | later, member⟩
          · exact .inl ⟨rfl, mem_singleton.mp member⟩
          · exact .inr ⟨_, later, member⟩
        · rintro (⟨rfl, rfl⟩ | ⟨_, later, member⟩)
          · exact ⟨_, .inl ⟨rfl, rfl⟩, mem_singleton.mpr rfl⟩
          · exact ⟨_, .inr later, member⟩

theorem group_sublist {seeds : List Seed} (member : (label, nodes) ∈ groupSeeds seeds) :
    (nodes.map fun node => Seed.mk label node).Sublist seeds := by
  induction seeds generalizing label nodes with
  | nil => cases member
  | cons seed rest ih =>
    rw [groupSeeds] at member
    cases groups : groupSeeds rest with
    | nil =>
      rw [groups] at member
      simp only [mem_singleton, Prod.mk.injEq] at member
      obtain ⟨rfl, rfl⟩ := member
      simp
    | cons group others =>
      obtain ⟨label', nodes'⟩ := group
      rw [groups] at member ih
      by_cases same : seed.label = label'
      · simp only [same, if_true, mem_cons, Prod.mk.injEq] at member
        rcases member with ⟨rfl, rfl⟩ | later
        · have inner := ih (mem_cons_self)
          rw [← same]
          exact (same ▸ inner).cons_cons seed
        · exact (ih (mem_cons_of_mem _ later)).cons seed
      · simp only [same, if_false, mem_cons, Prod.mk.injEq] at member
        rcases member with ⟨rfl, rfl⟩ | later
        · simp
        · exact (ih (by simpa using later)).cons seed

section

variable (program : Program) (sources : SourceFilter)

theorem nodup_labels : ((seeds program sources).map (·.1)).Nodup := by
  have labels : LinearTest fun a b => (Label.cmp a b).isLE := .ofCmp Label.cmp
  rw [seeds, labels_groupSeeds]
  refine nodup_dropRepeats labels _ (pairwise_map.mpr ?_)
  refine (pairwise_sortDistinct linear_seed _).imp ?_
  intro a b ordered
  simp only [Seed.le, Ordering.isLE_then_iff_and] at ordered
  exact ordered.1

theorem nodup_seedNodes (member : (label, nodes) ∈ seeds program sources) : nodes.Nodup := by
  have distinct := (nodup_sortDistinct linear_seed _).sublist (group_sublist member)
  rw [nodup_iff_pairwise_ne, pairwise_map] at distinct
  refine distinct.imp ?_
  intro a b differ same
  exact differ (by rw [same])

section

variable {label : Label} {node : GlobalNode}

theorem mem_apiSeeds : ⟨label, node⟩ ∈ apiSeeds program sources ↔
      ∃ graph name, program.graph? node = some graph ∧ node.node ∈ graph.arena.ids ∧
        sourceName? graph sources.apis node.node = some name ∧ label = .api name node := by
  obtain ⟨file, id⟩ := node
  simp only [apiSeeds, mem_flatMap, Prod.exists, Program.mem_numbered, mem_filterMap,
    Option.map_eq_some_iff, Seed.mk.injEq, GlobalNode.mk.injEq, Program.graph?]
  constructor
  · rintro ⟨_, graph, found, _, listed, name, named, rfl, rfl, rfl⟩
    exact ⟨graph, name, found, listed, named, rfl⟩
  · rintro ⟨graph, name, found, listed, named, rfl⟩
    exact ⟨file, graph, found, id, listed, name, named, rfl, rfl, rfl⟩

theorem mem_markupSeeds : ⟨label, node⟩ ∈ markupSeeds program sources ↔
      sources.doubleBinding = true ∧
        ∃ binding, ⟨binding, node⟩ ∈ program.markupEdges ∧ label = .markup binding := by
  unfold markupSeeds
  split
  case isTrue wanted =>
    simp only [mem_map, Seed.mk.injEq, wanted, true_and]
    constructor
    · rintro ⟨edge, member, rfl, rfl⟩
      exact ⟨edge.binding, member, rfl⟩
    · rintro ⟨binding, member, rfl⟩
      exact ⟨_, member, rfl, rfl⟩
  case isFalse unwanted => simp [unwanted]

theorem mem_seeds : (∃ nodes, (label, nodes) ∈ seeds program sources ∧ node ∈ nodes) ↔
      ⟨label, node⟩ ∈ apiSeeds program sources ++ markupSeeds program sources := by
  rw [seeds, mem_groupSeeds, mem_sortDistinct]

end

end

end Seepage.Taint

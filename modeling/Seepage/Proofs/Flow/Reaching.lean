import Seepage.Flow.Reaching
import Seepage.Proofs.NatSet
import Seepage.Proofs.Sorting

set_option autoImplicit false

namespace Seepage

open List

variable {f : Nat → Nat} {vertices : List Nat} {state : NatSet} {definition vertex : Nat}
  {outs : Std.TreeMap Nat NatSet}

def weight (value : Nat → Nat) : List Nat → Nat
  | [] => 0
  | vertex :: rest => value vertex + weight value rest

theorem weight_congr {g : Nat → Nat}
    (same : ∀ vertex ∈ vertices, f vertex = g vertex) : weight f vertices = weight g vertices := by
  induction vertices with
  | nil => rfl
  | cons vertex rest ih =>
    rw [weight, weight, same vertex mem_cons_self,
      ih fun other member => same other (mem_cons_of_mem _ member)]

theorem weight_drop {f g : Nat → Nat} {vertices : List Nat} (distinct : vertices.Nodup)
    {vertex loss : Nat} (member : vertex ∈ vertices) (drop : g vertex + loss ≤ f vertex)
    (others : ∀ other, other ≠ vertex → g other = f other) :
    weight g vertices + loss ≤ weight f vertices := by
  induction vertices with
  | nil => cases member
  | cons first rest ih =>
    obtain ⟨fresh, restDistinct⟩ := nodup_cons.mp distinct
    rw [weight, weight]
    rcases mem_cons.mp member with rfl | later
    · have same : weight g rest = weight f rest := by
        refine weight_congr fun other inside => others other ?_
        rintro rfl
        exact fresh inside
      omega
    · have differ : first ≠ vertex := by
        rintro rfl
        exact fresh later
      have := ih restDistinct later
      have := others first differ
      omega

theorem weight_mul {factor : Nat} (vertices : List Nat) :
    weight (fun vertex => f vertex * factor) vertices = weight f vertices * factor := by
  induction vertices with
  | nil => simp [weight]
  | cons vertex rest ih => rw [weight, weight, ih, Nat.add_mul]

namespace ControlGraph

theorem nodup_vertices (tree : Syntree) : (ofTree tree).vertices.Nodup :=
  nodup_eraseDups _

theorem weight_successors (distinct : vertices.Nodup) (edges : List ControlEdge) :
    weight (fun vertex => (edges.filter (·.source == vertex)).length) vertices ≤ edges.length := by
  induction vertices generalizing edges with
  | nil => exact Nat.zero_le _
  | cons vertex rest ih =>
    obtain ⟨fresh, restDistinct⟩ := nodup_cons.mp distinct
    have others : weight (fun other => (edges.filter (·.source == other)).length) rest =
        weight (fun other => ((edges.filter (·.source != vertex)).filter
          (·.source == other)).length) rest := by
      refine weight_congr fun other member => ?_
      rw [filter_filter]
      congr 1
      refine filter_congr fun edge _ => ?_
      by_cases same : edge.source = other
      · have differ : edge.source ≠ vertex := by
          rintro rfl
          exact fresh (same ▸ member)
        simp [same, same ▸ differ]
      · simp [same]
    have bound := ih restDistinct (edges.filter (·.source != vertex))
    have split := length_eq_countP_add_countP (·.source == vertex) (l := edges)
    rw [countP_eq_length_filter, countP_eq_length_filter] at split
    have negated : (edges.filter fun edge => decide ¬(edge.source == vertex) = true) =
        edges.filter (·.source != vertex) := by
      refine filter_congr fun edge _ => ?_
      by_cases same : edge.source = vertex <;> simp [same]
    rw [negated] at split
    rw [weight]
    omega

end ControlGraph

namespace Reaching

def Passes (use : VariableUse) (events : List Event) (definition : Nat) : Prop :=
  ∀ node symbol, .define node symbol ∈ events → use.symbolOf definition ≠ some symbol

def Makes (use : VariableUse) (vertex definition : Nat) : Prop :=
  definition ∈ transfer use vertex []

def Keeps (use : VariableUse) (vertex definition : Nat) : Prop :=
  Passes use (use.eventsAt vertex) definition

inductive Holds (use : VariableUse) (graph : ControlGraph) (definition : Nat) : Nat → Prop where
  | made {vertex : Nat} (known : vertex ∈ graph.vertices) (makes : Makes use vertex definition) :
    Holds use graph definition vertex
  | kept {edge : ControlEdge} (known : edge ∈ graph.edges)
    (holds : Holds use graph definition edge.source) (keeps : Keeps use edge.target definition) :
    Holds use graph definition edge.target

section

variable {use : VariableUse} {graph : ControlGraph}

theorem mem_after {event : Event} :
    definition ∈ after use state event ↔
      (∃ symbol, event = .define definition symbol) ∨
        definition ∈ state ∧ Passes use [event] definition := by
  cases event with
  | use node symbol => simp [after, Passes]
  | define node symbol =>
    simp only [after, NatSet.mem_insert, mem_filter, bne_iff_ne, Passes, mem_singleton,
      Event.define.injEq]
    constructor
    · rintro (rfl | ⟨old, differ⟩)
      · exact .inl ⟨symbol, rfl, rfl⟩
      · refine .inr ⟨old, ?_⟩
        rintro _ _ ⟨rfl, rfl⟩
        exact differ
    · rintro (⟨_, rfl, rfl⟩ | ⟨old, differ⟩)
      · exact .inl rfl
      · exact .inr ⟨old, differ node symbol ⟨rfl, rfl⟩⟩

theorem passes_cons (event : Event) (rest : List Event) (definition : Nat) :
    Passes use (event :: rest) definition ↔
      Passes use [event] definition ∧ Passes use rest definition := by
  constructor
  · intro passes
    refine ⟨fun node symbol member => passes node symbol ?_, fun node symbol member => ?_⟩
    · exact mem_cons.mpr (.inl (mem_singleton.mp member))
    · exact passes node symbol (mem_cons_of_mem _ member)
  · rintro ⟨first, others⟩ node symbol member
    rcases mem_cons.mp member with same | later
    · exact first node symbol (mem_singleton.mpr same)
    · exact others node symbol later

theorem mem_foldl_after {events : List Event} :
    definition ∈ events.foldl (after use) state ↔
      definition ∈ events.foldl (after use) [] ∨
        definition ∈ state ∧ Passes use events definition := by
  induction events generalizing state with
  | nil => simp [Passes]
  | cons event rest ih =>
    rw [foldl_cons, foldl_cons, ih, @ih (after use [] event), mem_after, mem_after,
      passes_cons event rest definition]
    constructor
    · rintro (later | ⟨made | ⟨old, first⟩, others⟩)
      · exact .inl (.inl later)
      · exact .inl (.inr ⟨.inl made, others⟩)
      · exact .inr ⟨old, first, others⟩
    · rintro ((later | ⟨made | ⟨absent, -⟩, others⟩) | ⟨old, first, others⟩)
      · exact .inl later
      · exact .inr ⟨.inl made, others⟩
      · cases absent
      · exact .inr ⟨.inr ⟨old, first⟩, others⟩

theorem mem_transfer :
    definition ∈ transfer use vertex state ↔
      Makes use vertex definition ∨ definition ∈ state ∧ Keeps use vertex definition :=
  mem_foldl_after

theorem sorted_transfer (vertex : Nat) (sorted : NatSet.Sorted state) :
    NatSet.Sorted (transfer use vertex state) := by
  unfold transfer
  induction use.eventsAt vertex generalizing state with
  | nil => exact sorted
  | cons event rest ih =>
    apply ih
    cases event with
    | use node symbol => exact sorted
    | define node symbol => exact (sorted.filter _).insert node

theorem Makes.exists_event (makes : Makes use vertex definition) :
    ∃ symbol, .define definition symbol ∈ use.eventsAt vertex := by
  have made : ∀ events : List Event, definition ∈ events.foldl (after use) [] →
      ∃ symbol, .define definition symbol ∈ events := by
    intro events
    induction events with
    | nil => intro absent; cases absent
    | cons event rest ih =>
      rw [foldl_cons, mem_foldl_after, mem_after]
      rintro (later | ⟨⟨symbol, rfl⟩ | ⟨absent, -⟩, -⟩)
      · obtain ⟨symbol, member⟩ := ih later
        exact ⟨symbol, mem_cons_of_mem _ member⟩
      · exact ⟨symbol, mem_cons_self⟩
      · cases absent
  exact made _ makes

theorem mem_before :
    definition ∈ before graph outs vertex ↔
      ∃ edge ∈ graph.edges, edge.target = vertex ∧ definition ∈ outs.getD edge.source [] := by
  have folded : ∀ (edges : List ControlEdge) (state : NatSet),
      definition ∈ edges.foldl
          (fun state edge => NatSet.union state (outs.getD edge.source [])) state ↔
        definition ∈ state ∨ ∃ edge ∈ edges, definition ∈ outs.getD edge.source [] := by
    intro edges
    induction edges with
    | nil => simp
    | cons edge rest ih =>
      intro state
      rw [foldl_cons, ih, NatSet.mem_union]
      simp [or_assoc]
  rw [before, folded]
  simp [ControlGraph.predecessors, and_assoc]

theorem sorted_before (sorted : ∀ vertex, NatSet.Sorted (outs.getD vertex [])) (vertex : Nat) :
    NatSet.Sorted (before graph outs vertex) := by
  have folded : ∀ (edges : List ControlEdge) (state : NatSet), NatSet.Sorted state →
      NatSet.Sorted (edges.foldl
        (fun state edge => NatSet.union state (outs.getD edge.source [])) state) := by
    intro edges
    induction edges with
    | nil => intro state known; exact known
    | cons edge rest ih =>
      intro state known
      exact ih _ (known.union (sorted edge.source))
  exact folded _ [] NatSet.sorted_nil

end

end Reaching

end Seepage

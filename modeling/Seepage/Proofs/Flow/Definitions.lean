import Seepage.Flow.Data
import Seepage.Proofs.Flow.Events
import Seepage.Proofs.Flow.Worklist

set_option autoImplicit false

namespace Seepage.Reaching

open List ControlFlow

variable {events rest before before' rest' : List Event}
  {vertex definition symbol node symbol' : Nat}

def Clear (symbol : Nat) (events : List Event) : Prop :=
  ∀ node, .define node symbol ∉ events

def EndsWith (events : List Event) (definition symbol : Nat) : Prop :=
  ∃ first rest, events = first ++ .define definition symbol :: rest ∧ Clear symbol rest

inductive Way (use : VariableUse) (graph : ControlGraph) (symbol source : Nat) : Nat → Prop where
  | edge {edge : ControlEdge} (known : edge ∈ graph.edges) (start : edge.source = source) :
    Way use graph symbol source edge.target
  | step {edge : ControlEdge} (way : Way use graph symbol source edge.source)
    (clear : Clear symbol (use.eventsAt edge.source)) (known : edge ∈ graph.edges) :
    Way use graph symbol source edge.target

def Arrives (use : VariableUse) (graph : ControlGraph) (vertex : Nat) (before : List Event)
    (symbol definition : Nat) : Prop :=
  EndsWith before definition symbol ∨
    Clear symbol before ∧ ∃ maker ∈ graph.vertices,
      EndsWith (use.eventsAt maker) definition symbol ∧ Way use graph symbol maker vertex

section

variable {use : VariableUse} {graph : ControlGraph} {definition symbol : Nat}

theorem passes_iff (known : use.symbolOf definition = some symbol) :
    Passes use events definition ↔ Clear symbol events := by
  constructor
  · intro passes node member
    exact passes node symbol member known
  · intro clear node other member same
    rw [known] at same
    cases same
    exact clear node member

theorem endsWith_cons {event : Event} :
    EndsWith (event :: rest) definition symbol ↔
      EndsWith rest definition symbol ∨ event = .define definition symbol ∧ Clear symbol rest := by
  constructor
  · rintro ⟨first, others, same, clear⟩
    cases first with
    | nil =>
      cases same
      exact .inr ⟨rfl, clear⟩
    | cons head first =>
      cases same
      exact .inl ⟨first, others, rfl, clear⟩
  · rintro (⟨first, others, rfl, clear⟩ | ⟨rfl, clear⟩)
    · exact ⟨event :: first, others, rfl, clear⟩
    · exact ⟨[], rest, rfl, clear⟩

def Named (use : VariableUse) (events : List Event) : Prop :=
  ∀ node symbol, .define node symbol ∈ events → use.symbolOf node = some symbol

theorem mem_foldl_nil (known : use.symbolOf definition = some symbol) (named : Named use events) :
    definition ∈ events.foldl (after use) [] ↔ EndsWith events definition symbol := by
  induction events with
  | nil => simp [EndsWith]
  | cons event rest ih =>
    have others : Named use rest := fun node symbol member =>
      named node symbol (mem_cons_of_mem _ member)
    rw [foldl_cons, mem_foldl_after, ih others, mem_after, passes_iff known,
      passes_iff known, endsWith_cons]
    refine or_congr Iff.rfl (and_congr_left fun _ => ?_)
    constructor
    · rintro (⟨other, rfl⟩ | ⟨absent, -⟩)
      · have same := named definition other mem_cons_self
        rw [known] at same
        cases same
        rfl
      · cases absent
    · rintro rfl
      exact .inl ⟨symbol, rfl⟩

theorem exists_way_iff (known : use.symbolOf definition = some symbol)
    (named : ∀ vertex ∈ graph.vertices, Named use (use.eventsAt vertex)) :
    (∃ edge ∈ graph.edges, edge.target = vertex ∧ Holds use graph definition edge.source) ↔
      ∃ maker ∈ graph.vertices, EndsWith (use.eventsAt maker) definition symbol ∧
        Way use graph symbol maker vertex := by
  have makes {maker : Nat} (inside : maker ∈ graph.vertices) :
      Makes use maker definition ↔ EndsWith (use.eventsAt maker) definition symbol :=
    mem_foldl_nil known (named maker inside)
  constructor
  · rintro ⟨edge, member, rfl, holds⟩
    generalize isSource : edge.source = source at holds
    induction holds generalizing edge with
    | made inside made => exact ⟨_, inside, (makes inside).mp made, .edge member isSource⟩
    | kept inner _ keeps ih =>
      obtain ⟨maker, inside, made, way⟩ := ih _ inner rfl
      refine ⟨maker, inside, made, .step ?_ ?_ member⟩
      · rw [isSource]
        exact way
      · rw [isSource]
        exact (passes_iff known).mp keeps
  · rintro ⟨maker, inside, made, way⟩
    induction way with
    | edge member start =>
      refine ⟨_, member, rfl, ?_⟩
      rw [start]
      exact .made inside ((makes inside).mpr made)
    | step _ clear member ih =>
      obtain ⟨edge, earlier, aimed, holds⟩ := ih
      refine ⟨_, member, rfl, ?_⟩
      rw [← aimed]
      refine .kept earlier holds ?_
      rw [aimed]
      exact (passes_iff known).mpr clear

end

section

variable {use : VariableUse} {graph : ControlGraph} (distinct : graph.vertices.Nodup)
  (leaving : ∀ edge ∈ graph.edges, edge.source ∈ graph.vertices)
  (named : ∀ vertex ∈ graph.vertices, Named use (use.eventsAt vertex))

include distinct leaving named

theorem mem_state_iff (member : vertex ∈ graph.vertices)
    (here : use.eventsAt vertex = before ++ rest) :
    definition ∈ before.foldl (after use) (Reaching.before graph (solve use graph).outs vertex) ∧
        use.symbolOf definition = some symbol ↔
      Arrives use graph vertex before symbol definition := by
  have inner : Named use before := fun node symbol found =>
    named vertex member node symbol (by simp [here, found])
  have symbolOf_of_endsWith {events : List Event} (known : Named use events)
      (ends : EndsWith events definition symbol) : use.symbolOf definition = some symbol := by
    obtain ⟨first, others, rfl, -⟩ := ends
    exact known _ _ (by simp)
  constructor
  · rintro ⟨holds, known⟩
    rcases mem_foldl_after.mp holds with made | ⟨before, passes⟩
    · exact .inl ((mem_foldl_nil known inner).mp made)
    · have ways := (exists_way_iff known named).mp ((mem_before_solve leaving distinct).mp before)
      exact .inr ⟨(passes_iff known).mp passes, ways⟩
  · rintro (made | ⟨clear, maker, inside, made, way⟩)
    · have known := symbolOf_of_endsWith inner made
      exact ⟨mem_foldl_after.mpr (.inl ((mem_foldl_nil known inner).mpr made)), known⟩
    · have known := symbolOf_of_endsWith (named maker inside) made
      have holds := (exists_way_iff known named).mpr ⟨maker, inside, made, way⟩
      have before := (mem_before_solve leaving distinct).mpr holds
      exact ⟨mem_foldl_after.mpr (.inr ⟨before, (passes_iff known).mpr clear⟩), known⟩

end

section

variable {arena : Arena} {use : VariableUse} {definitions : Std.TreeMap Nat NatSet} {owner : Nat}

theorem mem_links_iff {state : NatSet} {edge : Edge} :
    edge ∈ links arena use definitions owner state events ↔
      ∃ before node symbol rest, events = before ++ .use node symbol :: rest ∧
        ∃ definition ∈ sources arena definitions owner symbol
            ((before.foldl (after use) state).filter (use.symbolOf · == some symbol)),
          definition ≠ node ∧ edge = .data definition node .defUse := by
  induction events generalizing state with
  | nil => simp [links]
  | cons event others ih =>
    rw [← singleton_append, links_append, mem_append, ih]
    constructor
    · rintro (here | ⟨before, node, symbol, rest, rfl, found⟩)
      · cases event with
        | define => simp [links] at here
        | use node symbol =>
          simp only [links, append_nil] at here
          obtain ⟨definition, kept, rfl⟩ := mem_map.mp here
          obtain ⟨source, differ⟩ := mem_filter.mp kept
          exact ⟨[], node, symbol, others, rfl, definition, source, by simpa using differ, rfl⟩
      · exact ⟨event :: before, node, symbol, rest, rfl, found⟩
    · rintro ⟨before, node, symbol, rest, same, definition, source, differ, rfl⟩
      cases before with
      | nil =>
        cases same
        simp only [links, append_nil]
        refine .inl (mem_map.mpr ⟨definition, mem_filter.mpr ⟨source, ?_⟩, rfl⟩)
        simpa using differ
      | cons first before =>
        cases same
        exact .inr ⟨before, node, symbol, rest, rfl, definition, source, differ, rfl⟩

theorem mem_sources {reaching : NatSet} :
    definition ∈ sources arena definitions owner symbol reaching ↔
      definition ∈ reaching ∨ definition ∈ definitions.getD symbol [] ∧
        ((∃ other, other ∈ reaching) → arena.owner definition ≠ owner) := by
  unfold sources
  cases reaching with
  | nil => simp
  | cons first rest =>
    simp only [isEmpty_cons, Bool.false_eq_true, if_false, NatSet.mem_union, mem_filter,
      bne_iff_ne]
    refine or_congr Iff.rfl (and_congr_right fun _ => ?_)
    exact ⟨fun apart _ => apart, fun apart => apart ⟨first, mem_cons_self⟩⟩

end

theorem before_unique (once : Event.uses node (before ++ .use node symbol :: rest) ≤ 1)
    (same : before ++ .use node symbol :: rest = before' ++ .use node symbol' :: rest') :
    before = before' ∧ symbol = symbol' := by
  rcases append_eq_append_iff.mp same with ⟨middle, isBefore, isRest⟩ |
      ⟨middle, isBefore, isRest⟩
  all_goals
    cases middle with
    | nil =>
      cases isRest
      exact ⟨by simp [isBefore], rfl⟩
    | cons event middle =>
      rw [cons_append] at isRest
      obtain ⟨rfl, rfl⟩ := isRest
      simp only [isBefore, Event.uses, Event.isUseOf, countP_append, countP_cons,
        beq_self_eq_true, if_true] at once
      omega

def defUseEdges (arena : Arena) (resolution : Resolution) : List Edge :=
  let use := VariableUse.ofArena arena resolution (ControlFlow.ofArena arena)
  (ControlFlow.ofArena arena).graphs.flatMap fun graph =>
    graphLinks arena use use.definitions graph (solve use graph).outs

def Supplies (arena : Arena) (use : VariableUse) (graph : ControlGraph) (vertex : Nat)
    (before : List Event) (symbol definition : Nat) : Prop :=
  Arrives use graph vertex before symbol definition ∨
    (∃ maker, .define definition symbol ∈ use.eventsAt maker) ∧
      ((∃ other, Arrives use graph vertex before symbol other) →
        arena.owner definition ≠ graph.owner)

theorem mem_sources_iff {arena : Arena} {use : VariableUse} {graph : ControlGraph}
    (distinct : graph.vertices.Nodup) (leaving : ∀ edge ∈ graph.edges, edge.source ∈ graph.vertices)
    (named : ∀ vertex ∈ graph.vertices, Named use (use.eventsAt vertex)) {vertex : Nat}
    (member : vertex ∈ graph.vertices) {before rest : List Event}
    (here : use.eventsAt vertex = before ++ rest) {symbol definition : Nat} :
    definition ∈ sources arena use.definitions graph.owner symbol
        ((before.foldl (after use) (Reaching.before graph (solve use graph).outs vertex)).filter
          (use.symbolOf · == some symbol)) ↔
      Supplies arena use graph vertex before symbol definition := by
  have arrives {definition : Nat} :
      definition ∈ (before.foldl (after use)
          (Reaching.before graph (solve use graph).outs vertex)).filter
            (use.symbolOf · == some symbol) ↔
        Arrives use graph vertex before symbol definition := by
    rw [mem_filter, beq_iff_eq]
    exact mem_state_iff distinct leaving named member here
  rw [mem_sources, VariableUse.mem_definitions, Supplies]
  simp only [arrives]

section

variable {arena : Arena} (well : arena.WellNumbered) (laid : arena.LaidOut)
  (resolution : Resolution)

include well laid

section

variable {graph : ControlGraph} (made : graph ∈ (ofArena arena).graphs)

include made

theorem named_ofArena : ∀ vertex ∈ graph.vertices,
      Named (VariableUse.ofArena arena resolution (ofArena arena))
        ((VariableUse.ofArena arena resolution (ofArena arena)).eventsAt vertex) := by
  intro vertex member node symbol found
  rw [eventsAt_ofArena well laid resolution made member] at found
  exact Event.proper_ofVertex well laid resolution made member _ found

theorem use_unique {graph' : ControlGraph} (made' : graph' ∈ (ofArena arena).graphs) {vertex' : Nat}
    (member : vertex ∈ graph.vertices) (member' : vertex' ∈ graph'.vertices)
    (here : (VariableUse.ofArena arena resolution (ofArena arena)).eventsAt vertex =
      before ++ .use node symbol :: rest)
    (here' : (VariableUse.ofArena arena resolution (ofArena arena)).eventsAt vertex' =
      before' ++ .use node symbol' :: rest') :
    graph' = graph ∧ vertex' = vertex ∧ before' = before ∧ symbol' = symbol := by
  rw [eventsAt_ofArena well laid resolution made member] at here
  rw [eventsAt_ofArena well laid resolution made' member'] at here'
  have first := Event.proper_ofVertex well laid resolution made member (.use node symbol)
    (by simp [here])
  have second := Event.proper_ofVertex well laid resolution made' member' (.use node symbol')
    (by simp [here'])
  have same : vertex' = vertex := Option.some.inj (second.2.symm.trans first.2)
  subst same
  obtain rfl := graph_unique well laid made' made member' member
  have once := Event.uses_ofVertex_le_one well laid resolution made member node
  rw [here'] at once
  obtain ⟨sameBefore, sameSymbol⟩ := before_unique once (here'.symm.trans here)
  exact ⟨rfl, rfl, sameBefore, sameSymbol⟩

theorem leaving_graph : ∀ edge ∈ graph.edges, edge.source ∈ graph.vertices := fun edge known =>
  ((tied_graph well laid made).2 edge known).1

theorem mem_defUseEdges (member : vertex ∈ graph.vertices)
    (here : (VariableUse.ofArena arena resolution (ofArena arena)).eventsAt vertex =
      before ++ .use node symbol :: rest) :
    .data definition node .defUse ∈ defUseEdges arena resolution ↔
      definition ≠ node ∧ Supplies arena
        (VariableUse.ofArena arena resolution (ofArena arena)) graph vertex before
        symbol definition := by
  have supplied := @mem_sources_iff arena _ graph (nodup_graph made)
    (leaving_graph well laid made) (named_ofArena well laid resolution made) vertex member before _
    here symbol definition
  rw [← supplied]
  constructor
  · intro linked
    obtain ⟨graph', made', inside⟩ := mem_flatMap.mp linked
    obtain ⟨vertex', member', listed⟩ := mem_flatMap.mp inside
    obtain ⟨before', node', symbol', rest', here', source, found, differ, same⟩ :=
      mem_links_iff.mp listed
    cases same
    obtain ⟨rfl, rfl, rfl, rfl⟩ := use_unique well laid resolution made made' member member' here here'
    exact ⟨differ, found⟩
  · rintro ⟨differ, found⟩
    refine mem_flatMap.mpr ⟨graph, made, mem_flatMap.mpr ⟨vertex, member, ?_⟩⟩
    exact mem_links_iff.mpr ⟨before, node, symbol, rest, here, definition, found, differ, rfl⟩

end

end

theorem defUse_exact {file : Script.File} {arena : Arena} (read : Arena.ofFile file = .ok arena)
    (resolution : Resolution) : let control := ControlFlow.ofArena arena
    let use := VariableUse.ofArena arena resolution control
    let flow := DataFlow.ofArena arena resolution control
    (∀ graph ∈ control.graphs, (solve use graph).queue = []) ∧
    (∀ edge, edge ∈ flow.edges ↔ edge ∈ defUseEdges arena resolution ∨
      ∃ value ∈ valueFlows arena, edge = .data value.source value.target value.kind) ∧
    (∀ symbol definition, definition ∈ flow.definitions.getD symbol [] ↔
      ∃ maker, .define definition symbol ∈ use.eventsAt maker) ∧
    ∀ graph ∈ control.graphs, ∀ vertex ∈ graph.vertices, ∀ before node symbol rest,
      use.eventsAt vertex = before ++ .use node symbol :: rest →
      ∀ definition, .data definition node .defUse ∈ defUseEdges arena resolution ↔
        definition ≠ node ∧ Supplies arena use graph vertex before symbol definition := by
  intro control use flow
  obtain ⟨well, laid⟩ := Arena.shaped_ofFile read
  refine ⟨?_, ?_, fun _ _ => VariableUse.mem_definitions, ?_⟩
  · intro graph made
    exact (valid_solve (leaving_graph well laid made) (ControlFlow.nodup_graph made)).2
  · intro edge
    have listed : flow.edges = sortEdges ((valueFlows arena).map (fun value =>
        .data value.source value.target value.kind) ++ defUseEdges arena resolution) := by
      simp only [flow, DataFlow.ofArena, DataFlow.ofSolved, defUseEdges, List.flatMap_map]
      rfl
    rw [listed, mem_sortEdges, List.mem_append, List.mem_map, or_comm]
    simp only [eq_comm]
  · intro graph made vertex member before node symbol rest here definition
    exact mem_defUseEdges well laid resolution made member here

-- `x = 1; while (x) { x = x; }`
def looping : Script.File := .sample [
  .expr (.assign "=" (.ident "x") (.literal (.number "1") {}) {}) {},
  .whileStmt (.ident "x") (.block (.mk [.expr (.assign "=" (.ident "x") (.ident "x") {}) {}] {}))
    {}]

theorem defUse_exact_looping : ∃ arena, Arena.ofFile looping = .ok arena ∧
      let control := ControlFlow.ofArena arena
      let use := VariableUse.ofArena arena (Resolution.ofArena arena) control
      ∃ graph ∈ control.graphs, 10 ∈ graph.vertices ∧
        use.eventsAt 10 = [.use 13 0, .define 12 0] ∧
        ∀ definition,
          .data definition 13 .defUse ∈ defUseEdges arena (Resolution.ofArena arena) ↔
            definition ≠ 13 ∧ Supplies arena use graph 10 [] 0 definition := by
  obtain ⟨arena, read⟩ : ∃ arena, Arena.ofFile looping = .ok arena := ⟨_, rfl⟩
  refine ⟨arena, read, ?_⟩
  intro control use
  have made : ControlGraph.ofTree (arena.subtree 0) ∈ control.graphs := by
    cases read
    exact List.mem_map.mpr ⟨0, by decide +kernel, rfl⟩
  have member : 10 ∈ (ControlGraph.ofTree (arena.subtree 0)).vertices := by
    cases read
    decide +kernel
  have here : use.eventsAt 10 = [.use 13 0, .define 12 0] := by
    cases read
    decide +kernel
  refine ⟨_, made, member, here, fun definition => ?_⟩
  obtain ⟨-, -, -, exact_⟩ := defUse_exact read (Resolution.ofArena arena)
  exact exact_ _ made 10 member [] 13 0 _ here definition

end Seepage.Reaching

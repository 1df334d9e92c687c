import Seepage.Alias.Call
import Seepage.Proofs.Alias.Solution
import Seepage.Proofs.Sorting

set_option autoImplicit false

namespace Seepage.Alias

open List

variable {id function call : Nat} {args : List Nat}

inductive Reached (problem : Problem) : State → Prop where
  | start : Reached problem (.initial problem.arena)
  | apply {state : State} {rule : Rule} (reached : Reached problem state)
    (member : rule ∈ problem.rules) : Reached problem (rule.apply problem state)

namespace Reached

variable {problem : Problem} {state : State}

theorem pass (reached : Reached problem state) : Reached problem (pass problem state) := by
  have each : ∀ rules : List Rule, (∀ rule ∈ rules, rule ∈ problem.rules) →
      Reached problem (rules.foldr (Rule.apply problem) state) := by
    intro rules part
    induction rules with
    | nil => exact reached
    | cons rule rest ih =>
      obtain ⟨here, there⟩ := forall_mem_cons.mp part
      exact .apply (ih there) here
  exact each problem.rules fun _ member => member

theorem iterate (reached : Reached problem state) (fuel passes : Nat) :
    Reached problem (iterate problem fuel passes state).1 := by
  induction fuel generalizing passes state with
  | zero => exact reached
  | succ fuel ih =>
    unfold Alias.iterate
    simp only
    split
    · exact reached.pass
    · exact ih reached.pass (passes + 1)

theorem solve (problem : Problem) : Reached problem (Solution.solve problem).state := by
  have reached := (start : Reached problem _).iterate (problem.factBound + 1) 0
  exact reached

theorem valid (reached : Reached problem state) (coherent : problem.Coherent) :
    Valid problem.arena state := by
  induction reached with
  | start => exact (initial_spec coherent.numbered).1
  | apply _ member ih => exact Steps.valid (adds_apply coherent ih member).1 ih

end Reached

section

variable {problem : Problem} {state : State}

theorem Valid.lt_of_location (valid : Valid problem.arena state) (well : problem.arena.WellNumbered)
    (id : Nat) : (state.location id).node < problem.arena.size := by
  by_cases isGlobal : (state.location id).kind = .global
  · -- only the first location is global; one that does not exist is given as the first
    cases found : state.locations[id]? with
    | none =>
      simp only [State.location, Array.getD_eq_getD_getElem?, found, Option.getD_none]
      exact well.root_lt
    | some location =>
      have same : state.location id = location := by
        simp [State.location, Array.getD_eq_getD_getElem?, found]
      rw [same]
      rcases Nat.eq_zero_or_pos id with rfl | positive
      · rw [valid.assigned.first] at found
        obtain rfl := Option.some.inj found
        exact well.root_lt
      · exact valid.assigned.node_lt positive found
  · exact valid.node_lt isGlobal

theorem Valid.writers (valid : Valid problem.arena state) (owner : Nat) (key : Option String) :
    NatSet.Below problem.arena.size (state.writers owner key) := by
  cases key with
  | none => exact Store.below_getAny (valid.writes owner)
  | some key => exact (valid.writes owner key).union (valid.writes owner anyKey)

end

section

variable {arena : Arena}

theorem lt_of_mem_noteReturn {nodes : List Node} (each : ∀ node ∈ nodes, node.id < arena.size)
    {found : Std.TreeMap Nat (List Nat)}
    (known : ∀ owner, ∀ id ∈ found.getD owner [], id < arena.size) {owner id : Nat}
    (member : id ∈ (nodes.foldl (Problem.noteReturn arena) found).getD owner []) :
    id < arena.size := by
  induction nodes generalizing found with
  | nil => exact known owner id member
  | cons node rest ih =>
    obtain ⟨here, there⟩ := forall_mem_cons.mp each
    refine ih there (fun other id' member' => ?_) member
    unfold Problem.noteReturn at member'
    split at member'
    · rw [Std.TreeMap.getD_insert] at member'
      split at member'
      · rcases mem_append.mp member' with old | new
        · exact known _ id' old
        · exact mem_singleton.mp new ▸ here
      · exact known other id' member'
    · exact known other id' member'

theorem lt_of_mem_returnsOf (well : arena.WellNumbered) {owner : Nat}
    (member : id ∈ (Problem.returnsOf arena).getD owner []) : id < arena.size := by
  refine @lt_of_mem_noteReturn arena arena.nodes ?_ ∅ ?_ owner id member
  · intro node listed
    obtain ⟨tree, inside, rfl⟩ := (mem_nodes well).mp listed
    exact well.id_lt inside
  · intro owner id member
    simp at member

end

section

variable {arena : Arena}

theorem mem_incoming {position param arg : Nat}
    (member : arg ∈ incoming arena args position param) : arg ∈ args := by
  unfold incoming at member
  split at member
  · exact mem_of_mem_drop member
  · exact mem_of_getElem? (Option.mem_toList.mp member)

theorem inside_argumentEdges {params : List Nat} (first : ∀ arg ∈ args, arg < arena.size)
    (last : ∀ param ∈ params, param < arena.size) :
    ∀ edge ∈ argumentEdges arena args params, edge.Inside arena := by
  intro edge member
  -- a spread argument may supply its own parameter and all those behind it
  rcases mem_append.mp member with direct | spread
  · obtain ⟨⟨param, position⟩, listed, found⟩ := mem_flatMap.mp direct
    obtain ⟨arg, given, rfl⟩ := mem_map.mp found
    exact ⟨first arg (mem_incoming given), last param (fst_mem_of_mem_zipIdx listed)⟩
  · split at spread
    case h_1 arg position found =>
      obtain ⟨param, listed, rfl⟩ := mem_map.mp spread
      have held := fst_mem_of_mem_zipIdx (mem_of_find?_eq_some found)
      exact ⟨first arg held, last param (mem_of_mem_drop listed)⟩
    case h_2 => cases spread

end

structure Solution.Sound (solution : Solution) : Prop where
  coherent : solution.problem.Coherent
  returns : solution.problem.returns = Problem.returnsOf solution.problem.arena
  reached : Reached solution.problem solution.state

namespace Solution

variable {solution : Solution}

theorem sound_ofArena {arena : Arena} (well : arena.WellNumbered) (resolution : Resolution)
    (options : Options) : (ofArena arena resolution (copiesOf arena) options).Sound where
  coherent := coherent_ofArena well resolution options
  returns := rfl
  reached := .solve _

section

variable (sound : solution.Sound)

include sound

theorem Sound.valid : Valid solution.problem.arena solution.state :=
  sound.reached.valid sound.coherent

theorem Sound.lt_of_mem_returns (member : id ∈ solution.problem.returns.getD function []) :
    id < solution.problem.arena.size := by
  rw [sound.returns] at member
  exact lt_of_mem_returnsOf sound.coherent.numbered member

theorem Sound.inside_writeEdges : ∀ edge ∈ solution.writeEdges,
    edge.Inside solution.problem.arena := by
  intro edge member
  obtain ⟨⟨owner, keys⟩, listed, found⟩ := mem_flatMap.mp member
  simp only at found
  split at found
  · obtain ⟨⟨key, writers⟩, written, made⟩ := mem_flatMap.mp found
    obtain ⟨writer, kept, rfl⟩ := mem_map.mp made
    have table : Std.TreeMap.getD solution.state.writes owner ∅ = keys := by
      rw [Std.TreeMap.getD_eq_getD_getElem?,
        Std.TreeMap.mem_toList_iff_getElem?_eq_some.mp listed, Option.getD_some]
    have under : solution.state.writes.get owner key = writers := by
      rw [Store.get, table, Std.TreeMap.getD_eq_getD_getElem?,
        Std.TreeMap.mem_toList_iff_getElem?_eq_some.mp written, Option.getD_some]
    have below := (sound.valid.writes owner key).2 writer
      (under ▸ (mem_filter.mp kept).1)
    exact ⟨below, sound.valid.lt_of_location sound.coherent.numbered owner⟩
  · cases found

theorem Sound.inside_readEdges {rule : Rule} (listed : rule ∈ solution.problem.rules) :
    ∀ edge ∈ solution.readEdges rule, edge.Inside solution.problem.arena := by
  intro edge member
  unfold readEdges at member
  split at member
  case h_1 object key target =>
    obtain ⟨owner, -, found⟩ := mem_flatMap.mp member
    obtain ⟨writer, kept, rfl⟩ := mem_map.mp found
    exact ⟨(sound.valid.writers owner key).2 writer (mem_filter.mp kept).1,
      sound.coherent.within _ listed⟩
  case h_2 => cases member

theorem Sound.lt_of_mem_opaqueReads {node : Nat} (member : node ∈ solution.opaqueReads) :
    node < solution.problem.arena.size := by
  obtain ⟨rule, listed, found⟩ := mem_filterMap.mp ((NatSet.mem_ofList _).mp member)
  split at found
  case h_1 object key target =>
    rw [Option.ite_none_right_eq_some, Option.some.injEq] at found
    exact found.2 ▸ sound.coherent.within _ listed
  case h_2 => cases found

theorem Sound.inside_propertyEdges : ∀ edge ∈ solution.propertyEdges,
    edge.Inside solution.problem.arena := by
  intro edge member
  rw [propertyEdges, mem_sortEdges] at member
  rcases mem_append.mp member with write | read
  · exact sound.inside_writeEdges edge write
  · obtain ⟨rule, listed, found⟩ := mem_flatMap.mp read
    exact sound.inside_readEdges listed edge found

theorem Sound.lt_of_mem_parts {part : Nat} {parts : FunctionParts}
    (isFunction : solution.problem.arena.functionParts? function = some parts)
    (member : part ∈ parts.entry :: parts.exit :: parts.params ∨ parts.body = some part) :
    part < solution.problem.arena.size := by
  unfold Arena.functionParts? at isFunction
  split at isFunction
  case h_1 entry exit rest _ children =>
    obtain rfl := Option.some.inj isFunction
    suffices held : part ∈ solution.problem.arena.children function from
      sound.coherent.numbered.lt_of_mem_children held
    rw [children]
    rcases member with listed | found
    · rcases mem_cons.mp listed with rfl | listed
      · simp
      rcases mem_cons.mp listed with rfl | param
      · simp
      · simp [mem_of_mem_take param]
    · simp [mem_of_getElem? found]
  case h_2 => cases isFunction

theorem Sound.inside_enteredEdges (known : call < solution.problem.arena.size) :
    ∀ edge ∈ solution.enteredEdges call function, edge.Inside solution.problem.arena := by
  intro edge member
  unfold enteredEdges at member
  simp only at member
  split at member
  case h_1 => cases member
  case h_2 parts isFunction =>
    simp only [mem_append] at member
    rcases member with (passed | returned) | evaluated
    · exact inside_argumentEdges (fun arg given => (sound.coherent.written?_arg given).1)
        (fun param held => sound.lt_of_mem_parts isFunction (.inl (by simp [held]))) edge passed
    · obtain ⟨statement, held, rfl⟩ := mem_map.mp returned
      exact ⟨sound.lt_of_mem_returns held, known⟩
    · split at evaluated
      case h_1 body isBody =>
        obtain rfl := mem_singleton.mp evaluated
        exact ⟨sound.lt_of_mem_parts isFunction (.inr isBody), known⟩
      case h_2 => cases evaluated

theorem Sound.inside_hostEdges (known : call < solution.problem.arena.size) :
    ∀ edge ∈ solution.hostEdges call, edge.Inside solution.problem.arena := by
  intro edge member
  rcases mem_append.mp member with input | output
  · obtain ⟨given, listed, rfl⟩ := mem_map.mp input
    refine ⟨?_, known⟩
    rcases mem_append.mp listed with arg | receiver
    · exact (sound.coherent.written?_arg arg).1
    · obtain ⟨callee, -, found⟩ := Option.bind_eq_some_iff.mp (Option.mem_toList.mp receiver)
      split at found
      · exact sound.coherent.numbered.lt_of_child? found
      · cases found
  · obtain ⟨param, listed, rfl⟩ := mem_map.mp output
    obtain ⟨callback, -, found⟩ := mem_flatMap.mp listed
    cases isFunction : solution.problem.arena.functionParts? callback with
    | none => simp [isFunction] at found
    | some parts =>
      simp only [isFunction, Option.map_some, Option.getD_some] at found
      have held : param ∈ parts.entry :: parts.exit :: parts.params := by simp [found]
      exact ⟨known, sound.lt_of_mem_parts isFunction (.inl held)⟩

theorem Sound.inside_callEdges : ∀ edge ∈ solution.callEdges,
    edge.Inside solution.problem.arena := by
  intro edge member
  rw [callEdges, mem_sortEdges] at member
  obtain ⟨call, listed, found⟩ := mem_flatMap.mp member
  have known : call < solution.problem.arena.size :=
    mem_range.mp (mem_filter.mp listed).1
  unfold callEdgesOf at found
  split at found
  · exact sound.inside_hostEdges known edge found
  · obtain ⟨function, -, entered⟩ := mem_flatMap.mp found
    exact sound.inside_enteredEdges known edge entered

end

end Solution

end Seepage.Alias

import Seepage.Proofs.Program.Flow
import Seepage.Proofs.Ordering

set_option autoImplicit false

namespace Seepage

open List

variable {source target : GlobalNode} {kind : DataKind} {channel : Option String}

namespace FileGraph

variable {graph : FileGraph}

theorem mem_registrationLinks {file : Nat}
    (member : ⟨source, target, kind, channel⟩ ∈ graph.registrationLinks file) :
    source.file = file ∧ target.file = file ∧ ∀ other, LinkEdge.mk ⟨other, source.node⟩
      ⟨other, target.node⟩ kind channel ∈ graph.registrationLinks other := by
  obtain ⟨⟨name, handler⟩, registered, member⟩ := mem_flatMap.mp member
  change _ ∈ graph.handlerLinks file handler at member
  unfold handlerLinks at member
  split at member
  case h_1 => cases member
  case h_2 parts found =>
    have lift : ∀ other link, link ∈ graph.handlerLinks other handler →
        link ∈ graph.registrationLinks other := by
      intro other link inside
      exact mem_flatMap.mpr ⟨(name, handler), registered, inside⟩
    rcases mem_append.mp member with entering | leaving
    · obtain ⟨param, isParam, same⟩ := mem_map.mp entering
      cases same
      refine ⟨rfl, rfl, fun other => lift other _ ?_⟩
      simp only [handlerLinks, found]
      exact mem_append_left _ (mem_map.mpr ⟨param, isParam, rfl⟩)
    · obtain ⟨result, isResult, same⟩ := mem_map.mp leaving
      cases same
      refine ⟨rfl, rfl, fun other => lift other _ ?_⟩
      simp only [handlerLinks, found]
      exact mem_append_right _ (mem_map.mpr ⟨result, isResult, rfl⟩)

-- A call such as `channel.emit(event, value)`, by the name of its method.
structure Announces (graph : FileGraph) (method : String) (call : Nat) (event : String)
    (value : Nat) : Prop where
  isCall : graph.arena.kind call = .call
  named : graph.methodName? call = some method
  args : ∃ first rest, graph.arena.callArgs call = first :: value :: rest ∧
    graph.arena.string? first = some event

variable {value : Nat} {event : String}

theorem eventArgs_eq_some {call : Nat} : graph.eventArgs? call = some (event, value) ↔
      ∃ first rest, graph.arena.callArgs call = first :: value :: rest ∧
        graph.arena.string? first = some event := by
  unfold eventArgs?
  split
  case h_1 first value' rest args =>
    simp only [Option.map_eq_some_iff, Prod.mk.injEq, args, List.cons.injEq]
    constructor
    · rintro ⟨_, named, rfl, rfl⟩
      exact ⟨first, rest, ⟨rfl, rfl, rfl⟩, named⟩
    · rintro ⟨_, _, ⟨rfl, rfl, rfl⟩, named⟩
      exact ⟨event, named, rfl, rfl⟩
  case h_2 other =>
    simp only [reduceCtorEq, false_iff]
    rintro ⟨first, rest, args, -⟩
    exact other first value rest args

theorem mem_emits :
    ⟨event, value⟩ ∈ graph.emits ↔ ∃ call, graph.Announces "emit" call event value := by
  simp only [emits, calls, mem_filterMap, mem_filter, decide_eq_true_eq,
    Option.ite_none_right_eq_some, Option.map_eq_some_iff, Prod.exists, ChannelEnd.mk.injEq]
  constructor
  · rintro ⟨call, ⟨-, isCall⟩, named, _, _, given, rfl, rfl⟩
    exact ⟨call, isCall, named, eventArgs_eq_some.mp given⟩
  · rintro ⟨call, isCall, named, args⟩
    refine ⟨call, ⟨?_, isCall⟩, named, event, value, eventArgs_eq_some.mpr args, rfl, rfl⟩
    exact mem_range.mpr (Arena.lt_size_of_kind (by simp [isCall]))

inductive Listens (graph : FileGraph) (event : String) (value : Nat) : Prop where
  | on {call : Nat} (here : graph.Announces "on" call event value)
  | navigation {call options events entry : Nat} {rest : List Nat} {key : PropKey}
    (isCall : graph.arena.kind call = .call)
    (named : graph.methodName? call = some "navigateTo" ∨
      graph.methodName? call = some "redirectTo")
    (args : graph.arena.callArgs call = options :: rest)
    (listed : events ∈ graph.valuesUnder options "events")
    (isEntry : entry ∈ graph.arena.children events)
    (keyed : graph.arena.propertyKey? entry = some key) (isEvent : key.name? = some event)
    (given : graph.arena.propertyValue? entry = some value)

def Receives (graph : FileGraph) (event : String) (param : Nat) : Prop :=
  ∃ value, graph.Listens event value ∧ ∃ function ∈ graph.heap.functionsOf value,
    ∃ parts, graph.arena.functionParts? function = some parts ∧ parts.params.head? = some param

variable {param : Nat}

theorem mem_listening {event' : String} :
    ⟨event', param⟩ ∈ graph.listening event value ↔ event = event' ∧
      ∃ function ∈ graph.heap.functionsOf value, ∃ parts,
        graph.arena.functionParts? function = some parts ∧ parts.params.head? = some param := by
  simp only [listening, mem_filterMap, Option.map_eq_some_iff, Option.bind_eq_some_iff,
    ChannelEnd.mk.injEq]
  constructor
  · rintro ⟨function, held, _, ⟨parts, isFunction, first⟩, rfl, rfl⟩
    exact ⟨rfl, function, held, parts, isFunction, first⟩
  · rintro ⟨rfl, function, held, parts, isFunction, first⟩
    exact ⟨function, held, param, ⟨parts, isFunction, first⟩, rfl, rfl⟩

theorem mem_navigationListeners {options : Nat}
    (member : ⟨event, param⟩ ∈ graph.navigationListeners options) :
    ∃ events entry key value, events ∈ graph.valuesUnder options "events" ∧
      entry ∈ graph.arena.children events ∧ graph.arena.propertyKey? entry = some key ∧
      key.name? = some event ∧ graph.arena.propertyValue? entry = some value ∧
      ⟨event, param⟩ ∈ graph.listening event value := by
  obtain ⟨events, listed, member⟩ := mem_flatMap.mp member
  obtain ⟨entry, isEntry, member⟩ := mem_flatMap.mp member
  simp only at member
  split at member
  case h_1 event' value isEvent given =>
    obtain ⟨key, keyed, named⟩ := Option.bind_eq_some_iff.mp isEvent
    obtain ⟨rfl, -⟩ := mem_listening.mp member
    exact ⟨events, entry, key, value, listed, isEntry, keyed, named, given, member⟩
  case h_2 => cases member

theorem receives_of_mem_listeners (member : ⟨event, param⟩ ∈ graph.listeners) :
    graph.Receives event param := by
  obtain ⟨call, held, member⟩ := mem_flatMap.mp member
  have isCall : graph.arena.kind call = .call := by simpa using (mem_filter.mp held).2
  have navigation : (graph.methodName? call = some "navigateTo" ∨
      graph.methodName? call = some "redirectTo") →
      ⟨event, param⟩ ∈ ((graph.arena.callArgs call).take 1).flatMap graph.navigationListeners →
      graph.Receives event param := by
    intro named listed
    obtain ⟨options, first, listed⟩ := mem_flatMap.mp listed
    obtain ⟨rest, args⟩ : ∃ rest, graph.arena.callArgs call = options :: rest := by
      cases args : graph.arena.callArgs call <;> simp_all
    obtain ⟨events, entry, key, value, under, isEntry, keyed, isEvent, given, listens⟩ :=
      mem_navigationListeners listed
    exact ⟨value, .navigation isCall named args under isEntry keyed isEvent given,
      (mem_listening.mp listens).2⟩
  split at member
  case h_1 named =>
    obtain ⟨⟨event', value⟩, given, listens⟩ := mem_flatMap.mp member
    obtain ⟨rfl, heard⟩ := mem_listening.mp listens
    exact ⟨value, .on ⟨isCall, named, eventArgs_eq_some.mp (Option.mem_toList.mp given)⟩, heard⟩
  case h_2 named => exact navigation (.inl named) member
  case h_3 named => exact navigation (.inr named) member
  case h_4 => cases member

end FileGraph

namespace Program

variable {program : Program}

theorem mem_channelEnds {ends : FileGraph → List ChannelEnd} {event : String} {node : GlobalNode} :
    (event, node) ∈ program.channelEnds ends ↔
      ∃ graph, program.graph? node = some graph ∧ ⟨event, node.node⟩ ∈ ends graph := by
  obtain ⟨file, id⟩ := node
  simp only [channelEnds, mem_flatMap, Prod.exists, mem_numbered, mem_map, Prod.mk.injEq,
    GlobalNode.mk.injEq, graph?]
  constructor
  · rintro ⟨_, graph, found, _, inside, rfl, rfl, rfl⟩
    exact ⟨graph, found, inside⟩
  · rintro ⟨graph, found, inside⟩
    exact ⟨file, graph, found, _, inside, rfl, rfl, rfl⟩

theorem mem_channelLinks :
    ⟨source, target, kind, channel⟩ ∈ program.channelLinks ↔
      ∃ event, kind = .callArg ∧ channel = some event ∧
        (event, source) ∈ program.channelEnds FileGraph.emits ∧
        (event, target) ∈ program.channelEnds FileGraph.listeners := by
  simp only [channelLinks, mem_flatMap, mem_map, mem_filter, beq_iff_eq,
    LinkEdge.mk.injEq, Prod.exists]
  constructor
  · rintro ⟨event, _, emitted, _, _, ⟨heard, rfl⟩, rfl, rfl, rfl, rfl⟩
    exact ⟨_, rfl, rfl, emitted, heard⟩
  · rintro ⟨event, rfl, rfl, emitted, heard⟩
    exact ⟨event, source, emitted, event, target, ⟨heard, rfl⟩, rfl, rfl, rfl, rfl⟩

theorem mem_allLinks {link : LinkEdge} : link ∈ program.allLinks ↔
      (∃ (file : Nat) (graph : FileGraph), program.files[file]? = some graph ∧
          link ∈ graph.registrationLinks file) ∨
        link ∈ program.channelLinks := by
  rw [allLinks, mem_sortDistinct, mem_append, mem_flatMap]
  simp only [Prod.exists, mem_numbered]

theorem mem_allMarkupEdges {binding : Markup.Binding} {target : GlobalNode} :
    ⟨binding, target⟩ ∈ program.allMarkupEdges ↔
      ∃ bindings graph, program.markup[target.file]? = some bindings ∧
        program.graph? target = some graph ∧ binding ∈ bindings ∧
        target.node ∈ graph.arena.bindingTargets binding.name := by
  obtain ⟨file, node⟩ := target
  simp only [allMarkupEdges, mem_sortDistinct, mem_flatMap, Prod.exists, graph?,
    Std.TreeMap.mem_toList_iff_getElem?_eq_some]
  constructor
  · rintro ⟨file', bindings, attached, member⟩
    split at member
    case h_1 => cases member
    case h_2 graph found =>
      simp only [mem_flatMap, mem_map, MarkupEdge.mk.injEq, GlobalNode.mk.injEq] at member
      obtain ⟨_, listed, _, isTarget, rfl, rfl, rfl⟩ := member
      exact ⟨bindings, graph, attached, found, listed, isTarget⟩
  · rintro ⟨bindings, graph, attached, found, listed, isTarget⟩
    refine ⟨file, bindings, attached, ?_⟩
    rw [found]
    exact mem_flatMap.mpr ⟨binding, listed, mem_map.mpr ⟨node, isTarget, rfl⟩⟩

end Program

end Seepage

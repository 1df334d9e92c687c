import Seepage.Proofs.Program.Adjacency

set_option autoImplicit false

namespace Seepage.Program

open List FileGraph

variable {operation : Operation} {name : String}

namespace Operation

def merged? : Operation → Option FileGraph
  | .merge graph => some graph
  | .attach .. | .link => none

def attached? (file : Nat) : Operation → Option (List Markup.Binding)
  | .attach target bindings => if target = file then some bindings else none
  | .merge _ | .link => none

end Operation

section

variable (history : List Operation)

def mergedNames : List String :=
  ((history.filterMap Operation.merged?).map FileGraph.file).eraseDups

def lastGraph? (name : String) : Option FileGraph :=
  (history.filterMap Operation.merged?).reverse.find? (·.file == name)

def lastBindings? (file : Nat) : Option (List Markup.Binding) :=
  history.reverse.findSome? (·.attached? file)

def canonical : List Operation :=
  ((mergedNames history).filterMap (lastGraph? history)).map .merge ++
    (List.range (mergedNames history).length).filterMap
      (fun file => (lastBindings? history file).map (.attach file)) ++
    [.link]

def AttachesMerged : Prop :=
  ∀ before file bindings after, history = before ++ .attach file bindings :: after →
    file < (mergedNames before).length

end

theorem mergedNames_merge (history : List Operation) (graph : FileGraph) :
    mergedNames (history ++ [.merge graph]) =
      if graph.file ∈ mergedNames history then mergedNames history
      else mergedNames history ++ [graph.file] := by
  simp only [mergedNames, filterMap_append, map_append, eraseDups_append,
    mem_eraseDups]
  by_cases known : graph.file ∈ (history.filterMap Operation.merged?).map file <;>
    simp [Operation.merged?, List.removeAll, eraseDups_cons, known]

theorem merged_quiet (quiet : operation.merged? = none) (history : List Operation) :
    (history ++ [operation]).filterMap Operation.merged? = history.filterMap Operation.merged? := by
  simp [filterMap_append, quiet]

structure Holding (program : Program) (history : List Operation) : Prop where
  names : program.files.toList.map FileGraph.file = mergedNames history
  graphs : ∀ graph ∈ program.files.toList, lastGraph? history graph.file = some graph
  markup : ∀ file, program.markup[file]? = lastBindings? history file

theorem nodup_mergedNames (history : List Operation) : (mergedNames history).Nodup :=
  nodup_eraseDups _

namespace Holding

variable {program : Program} {history : List Operation} (holding : program.Holding history)

include holding

theorem fileId_iff {id : Nat} :
    program.fileId? name = some id ↔ (mergedNames history)[id]? = some name := by
  have distinct := nodup_mergedNames history
  rw [← holding.names] at distinct ⊢
  rw [fileId?, Array.findIdx?_eq_some_iff_getElem]
  constructor
  · rintro ⟨inside, same, -⟩
    simp [inside, eq_of_beq same]
  · intro here
    simp only [getElem?_map, Array.getElem?_toList, Option.map_eq_some_iff] at here
    obtain ⟨graph, found, rfl⟩ := here
    obtain ⟨inside, rfl⟩ := Array.getElem?_eq_some_iff.mp found
    refine ⟨inside, by simp, fun other before => ?_⟩
    have differ := pairwise_iff_getElem.mp (nodup_iff_pairwise_ne.mp distinct) other id
      (by simp; omega) (by simpa using inside) before
    simpa using differ

theorem fileId_eq_none : program.fileId? name = none ↔ name ∉ mergedNames history := by
  constructor
  · intro unknown present
    obtain ⟨id, here⟩ := getElem?_of_mem present
    rw [holding.fileId_iff.mpr here] at unknown
    cases unknown
  · intro absent
    cases found : program.fileId? name with
    | none => rfl
    | some id => exact absurd (mem_of_getElem? (holding.fileId_iff.mp found)) absent

theorem size_eq : program.files.size = (mergedNames history).length := by
  rw [← holding.names]
  simp

theorem files_eq : program.files.toList = (mergedNames history).filterMap (lastGraph? history) := by
  rw [← holding.names, filterMap_map]
  have kept : ∀ graph ∈ program.files.toList,
      (lastGraph? history ∘ file) graph = some graph := holding.graphs
  rw [filterMap_congr kept, filterMap_some]

theorem merge (graph : FileGraph) :
    (program.merge graph).1.Holding (history ++ [.merge graph]) := by
  have last : ∀ name, lastGraph? (history ++ [.merge graph]) name =
      if graph.file = name then some graph else lastGraph? history name := by
    intro name
    by_cases same : graph.file = name <;> simp [lastGraph?, Operation.merged?, same]
  have attached : ∀ file, lastBindings? (history ++ [.merge graph]) file =
      lastBindings? history file := by
    simp [lastBindings?, Operation.attached?]
  unfold Program.merge
  split
  case h_1 id known =>
    have present : graph.file ∈ mergedNames history :=
      mem_of_getElem? (holding.fileId_iff.mp known)
    constructor
    · rw [mergedNames_merge, if_pos present]
      rw [Array.toList_setIfInBounds, names_merge_known known, holding.names]
    · intro other member
      rw [last]
      rw [Array.toList_setIfInBounds] at member
      obtain ⟨position, found⟩ := getElem?_of_mem member
      by_cases here : id = position
      · subst here
        have bound := (List.getElem?_eq_some_iff.mp found).1
        simp only [length_set] at bound
        rw [getElem?_set_self bound] at found
        cases found
        simp
      · rw [getElem?_set_ne here] at found
        have old := mem_of_getElem? found
        have differ : graph.file ≠ other.file := by
          intro same
          have own := holding.fileId_iff.mp known
          have theirs : (mergedNames history)[position]? = some graph.file := by
            rw [← holding.names, getElem?_map, found, same]
            rfl
          have inside := (List.getElem?_eq_some_iff.mp own).1
          exact here ((getElem?_inj inside (nodup_mergedNames history)).mp (own.trans theirs.symm))
        rw [if_neg differ]
        exact holding.graphs other old
    · intro file
      rw [attached]
      exact holding.markup file
  case h_2 unknown =>
    have absent := holding.fileId_eq_none.mp unknown
    constructor
    · rw [mergedNames_merge, if_neg absent]
      rw [Array.toList_push, map_append, holding.names]
      rfl
    · intro other member
      rw [last]
      rw [Array.toList_push, mem_append, mem_singleton] at member
      rcases member with old | rfl
      · have differ : graph.file ≠ other.file := by
          intro same
          refine absent ?_
          rw [← holding.names, same]
          exact mem_map_of_mem old
        rw [if_neg differ]
        exact holding.graphs other old
      · simp
    · intro file
      rw [attached]
      exact holding.markup file

theorem perform (operation : Operation) :
    (program.perform operation).Holding (history ++ [operation]) := by
  cases operation with
  | merge graph => exact holding.merge graph
  | attach target bindings =>
    have same := merged_quiet (rfl : (Operation.attach target bindings).merged? = none) history
    refine ⟨?_, ?_, fun file => ?_⟩
    · rw [mergedNames, same]
      exact holding.names
    · simp only [lastGraph?, same]
      exact holding.graphs
    · have last : lastBindings? (history ++ [.attach target bindings]) file =
          if target = file then some bindings else lastBindings? history file := by
        by_cases own : target = file <;> simp [lastBindings?, Operation.attached?, own]
      rw [last, ← holding.markup file]
      simp [Program.perform, attach, Std.TreeMap.getElem?_insert]
  | link =>
    have same := merged_quiet (rfl : Operation.link.merged? = none) history
    refine ⟨?_, ?_, fun file => ?_⟩
    · rw [mergedNames, same]
      exact holding.names
    · simp only [lastGraph?, same]
      exact holding.graphs
    · have last : lastBindings? (history ++ [.link]) file = lastBindings? history file := by
        simp [lastBindings?, Operation.attached?]
      rw [last]
      exact holding.markup file

end Holding

theorem holding_empty : Holding {} [] where
  names := rfl
  graphs := by simp
  markup := by simp [lastBindings?]

theorem holding_ofHistory (history : List Operation) : (ofHistory history).Holding history := by
  have run : ∀ (before after : List Operation) (program : Program), program.Holding before →
      (after.foldl Program.perform program).Holding (before ++ after) := by
    intro before after
    induction after generalizing before with
    | nil => simp
    | cons operation rest ih =>
      intro program holding
      have next := ih (before ++ [operation]) (program.perform operation) (holding.perform operation)
      simpa using next
  exact run [] history {} holding_empty

theorem lastBindings_eq_none {history : List Operation} (attaches : AttachesMerged history)
    {file : Nat} (outside : (mergedNames history).length ≤ file) :
    lastBindings? history file = none := by
  rw [lastBindings?, findSome?_eq_none_iff]
  intro operation member
  rw [mem_reverse] at member
  obtain ⟨before, after, rfl⟩ := append_of_mem member
  cases operation with
  | merge graph => rfl
  | link => rfl
  | attach target bindings =>
    have known := attaches before target bindings after rfl
    have grows : (mergedNames before).length ≤
        (mergedNames (before ++ .attach target bindings :: after)).length := by
      simp only [mergedNames, filterMap_append, map_append, eraseDups_append,
        length_append]
      omega
    have differ : target ≠ file := by omega
    simp [Operation.attached?, differ]

theorem merged_canonical (history : List Operation) :
    (canonical history).filterMap Operation.merged? =
      (mergedNames history).filterMap (lastGraph? history) := by
  have attaches : ∀ files : List Nat, (files.filterMap fun file =>
      (lastBindings? history file).map (Operation.attach file)).filterMap Operation.merged? = [] := by
    intro files
    rw [filterMap_eq_nil_iff]
    intro operation member
    obtain ⟨file, -, given⟩ := mem_filterMap.mp member
    obtain ⟨bindings, -, rfl⟩ := Option.map_eq_some_iff.mp given
    rfl
  have merges : ∀ graphs : List FileGraph,
      (graphs.map Operation.merge).filterMap Operation.merged? = graphs := by
    intro graphs
    rw [filterMap_map]
    exact filterMap_some
  rw [canonical, merged_quiet rfl, filterMap_append, attaches, merges, append_nil]

theorem mergedNames_canonical (history : List Operation) :
    mergedNames (canonical history) = mergedNames history := by
  have holding := holding_ofHistory history
  rw [mergedNames, merged_canonical, ← holding.files_eq, holding.names]
  exact eraseDups_eq_self (nodup_mergedNames history)

theorem lastGraph_canonical {history : List Operation} {graph : FileGraph}
    (member : graph ∈ (mergedNames history).filterMap (lastGraph? history)) :
    lastGraph? (canonical history) graph.file = some graph := by
  have holding := holding_ofHistory history
  rw [lastGraph?, merged_canonical, ← holding.files_eq] at *
  have distinct := nodup_mergedNames history
  rw [← holding.names] at distinct
  have some : ((ofHistory history).files.toList.reverse.find? (·.file == graph.file)).isSome := by
    rw [find?_isSome]
    exact ⟨graph, by simpa using member, by simp⟩
  obtain ⟨other, found⟩ := Option.isSome_iff_exists.mp some
  rw [found]
  -- The names are distinct, so there is one graph to be found.
  have same : other.file = graph.file := by simpa using find?_some found
  have inside : other ∈ (ofHistory history).files.toList := by
    simpa using mem_of_find?_eq_some found
  rw [inj_on_of_nodup_map distinct inside member same]

theorem lastBindings_canonical {history : List Operation} (attaches : AttachesMerged history)
    (file : Nat) : lastBindings? (canonical history) file = lastBindings? history file := by
  have merges : ∀ graphs : List FileGraph,
      (graphs.map Operation.merge).reverse.findSome? (·.attached? file) = none := by
    intro graphs
    rw [findSome?_eq_none_iff]
    intro operation member
    obtain ⟨graph, -, rfl⟩ := mem_map.mp (mem_reverse.mp member)
    rfl
  have attached : ∀ count, ((List.range count).filterMap fun file =>
      (lastBindings? history file).map (Operation.attach file)).reverse.findSome?
        (·.attached? file) = if file < count then lastBindings? history file else none := by
    intro count
    induction count with
    | zero => simp
    | succ count ih =>
      rw [range_succ, filterMap_append, reverse_append, findSome?_append, ih]
      by_cases last : file = count
      · subst last
        cases given : lastBindings? history file <;> simp [given, Operation.attached?]
      · have other : ((([count].filterMap fun file =>
            (lastBindings? history file).map (Operation.attach file)).reverse).findSome?
              (·.attached? file)) = none := by
          cases given : lastBindings? history count <;> simp [given, Operation.attached?, Ne.symm last]
        have bounds : file < count + 1 ↔ file < count := by omega
        simp [other, bounds]
  have start : Operation.link.attached? file = none := rfl
  rw [lastBindings?, canonical, reverse_append, reverse_append, reverse_singleton,
    singleton_append, findSome?_cons, start]
  simp only
  rw [findSome?_append, merges, attached, Option.or_none]
  split
  · rfl
  · exact (lastBindings_eq_none attaches (by omega)).symm

structure SameLinks (program other : Program) : Prop where
  fileIds : ∀ name, program.fileId? name = other.fileId? name
  links : program.links = other.links
  markupEdges : program.markupEdges = other.markupEdges
  outgoing : program.outgoing = other.outgoing
  incoming : program.incoming = other.incoming

theorem sameLinks_link {program other : Program} (files : program.files = other.files)
    (markup : ∀ file : Nat, program.markup[file]? = other.markup[file]?) :
    SameLinks program.link other.link := by
  have links : program.allLinks = other.allLinks := by
    simp only [allLinks, channelLinks, channelEnds, numbered, files]
  have markupEdges : program.allMarkupEdges = other.allMarkupEdges := by
    refine sortDistinct_congr linear_markupEdge fun edge => ?_
    obtain ⟨binding, target⟩ := edge
    have here := @mem_allMarkupEdges program binding target
    have there := @mem_allMarkupEdges other binding target
    rw [allMarkupEdges, mem_sortDistinct] at here there
    rw [here, there, graph?, graph?, markup, files]
  constructor
  · intro name
    simp only [fileId?, link, files]
  · exact links
  · exact markupEdges
  · simp only [link, links]
  · simp only [link, links]

structure NumberedBy (program : Program) (names : List String) : Prop where
  distinct : names.Nodup
  count : program.files.size = names.length
  ids : ∀ (name : String) (id : Nat), program.fileId? name = some id ↔ names[id]? = some name
  files : ∀ id : Nat, program.files[id]?.map FileGraph.file = names[id]?

def Operation.Repeats (program : Program) : Operation → Prop
  | .merge graph => graph ∈ program.files
  | .attach .. => False
  | .link => True

theorem repeat_keeps {program current : Program} {history : List Operation}
    (holding : program.Holding history) (files : current.files = program.files)
    (markup : current.markup = program.markup)
    (repeats : operation.Repeats program) : (current.perform operation).files = program.files ∧
      (current.perform operation).markup = program.markup := by
  cases operation with
  | attach file bindings => cases repeats
  | link => exact ⟨files, markup⟩
  | merge graph =>
    obtain ⟨id, inside, rfl⟩ := Array.getElem_of_mem repeats
    have known : current.fileId? program.files[id].file = some id := by
      have own : program.fileId? program.files[id].file = some id := by
        rw [holding.fileId_iff, ← holding.names]
        simp [inside]
      simpa [fileId?, files] using own
    simp only [Program.perform, Program.merge, known]
    refine ⟨?_, markup⟩
    rw [files]
    apply Array.ext_getElem?
    intro position
    by_cases here : id = position
    · subst here
      simp [inside]
    · simp [here]

section

variable {program : Program} {history : List Operation} (holding : program.Holding history)

include holding

theorem repeats_keep {again : List Operation}
    (repeats : ∀ operation ∈ again, operation.Repeats program) :
    (again.foldl Program.perform program).files = program.files ∧
      (again.foldl Program.perform program).markup = program.markup := by
  have run : ∀ current : Program, current.files = program.files → current.markup = program.markup →
      (again.foldl Program.perform current).files = program.files ∧
        (again.foldl Program.perform current).markup = program.markup := by
    induction again with
    | nil =>
      intro current files markup
      exact ⟨files, markup⟩
    | cons operation rest ih =>
      intro current files markup
      have next := repeat_keeps holding files markup (repeats operation (by simp))
      exact ih (fun other member => repeats other (by simp [member])) _ next.1 next.2
  exact run program rfl rfl

theorem Holding.numberedBy : program.NumberedBy (mergedNames history) where
  distinct := nodup_mergedNames history
  count := holding.size_eq
  ids _ _ := holding.fileId_iff
  files id := by rw [← holding.names]; simp

end

theorem ofHistory_link (before : List Operation) :
    ofHistory (before ++ [.link]) = (ofHistory before).link := by
  simp [ofHistory, Program.perform]

theorem files_canonical (history : List Operation) :
    (ofHistory (canonical history)).files = (ofHistory history).files := by
  apply Array.toList_inj.mp
  rw [(holding_ofHistory _).files_eq, (holding_ofHistory _).files_eq, mergedNames_canonical]
  refine filterMap_congr fun name member => ?_
  -- A merged name has a last graph, and the canonical history merges just that one.
  have holding := holding_ofHistory history
  rw [← holding.names] at member
  obtain ⟨graph, inside, rfl⟩ := mem_map.mp member
  rw [holding.graphs graph inside]
  exact lastGraph_canonical (holding.files_eq ▸ inside)

theorem history_forgotten (history : List Operation) (ends : ∃ before, history = before ++ [.link])
    (attaches : AttachesMerged history) :
    SameLinks (ofHistory history) (ofHistory (canonical history)) ∧
      (∀ before after, history = before ++ after →
        NumberedBy (ofHistory before) (mergedNames before)) ∧
      ∀ again : List Operation, (∀ operation ∈ again, operation.Repeats (ofHistory history)) →
        SameLinks (ofHistory (history ++ again ++ [.link])) (ofHistory history) := by
  have relinked : (ofHistory history).link = ofHistory history := by
    obtain ⟨before, rfl⟩ := ends
    rw [ofHistory_link]
    rfl
  refine ⟨?_, ?_, ?_⟩
  · have markup : ∀ file : Nat, (ofHistory (canonical history)).markup[file]? =
        (ofHistory history).markup[file]? := by
      intro file
      rw [(holding_ofHistory _).markup, (holding_ofHistory _).markup, lastBindings_canonical attaches]
    have linked : (ofHistory (canonical history)).link = ofHistory (canonical history) := by
      rw [canonical, ofHistory_link]
      rfl
    rw [← relinked, ← linked]
    exact sameLinks_link (files_canonical history).symm fun file => (markup file).symm
  · intro before after _
    exact (holding_ofHistory before).numberedBy
  · intro again repeats
    obtain ⟨files, markup⟩ := repeats_keep (holding_ofHistory history) repeats
    have same : ofHistory (history ++ again) = again.foldl Program.perform (ofHistory history) := by
      simp [ofHistory]
    have linked := sameLinks_link files fun file => by rw [markup]
    rwa [relinked, ← same, ← ofHistory_link] at linked

def draftGraph : FileGraph :=
  .assemble ((Arena.ofFile { sendingPage with
    program? := some { span := {}, body := [] } }).toOption.getD default) {}

-- The sender is merged before it sends anything, and again when it does.
def resent : List Operation :=
  [.merge draftGraph, .merge hearingGraph, .link,
    .attach 1 [⟨"app.html", "text", 1, "input", "text", none⟩], .merge sendingGraph, .link]

theorem files_resent : (ofHistory resent).files = (ofHistory relay).files := by
  have kept : draftGraph.file = sendingGraph.file := by decide +kernel
  have differ : ¬sendingGraph.file = hearingGraph.file := by decide +kernel
  rw [files_relay]
  simp [resent, ofHistory, perform, merge, fileId?, link, attach, findIdx?_cons, kept, differ]

theorem history_forgotten_replaced :
    (∃ before, resent = before ++ [.link]) ∧ AttachesMerged resent ∧
      SameLinks (ofHistory resent) (ofHistory (canonical resent)) ∧
      NumberedBy (ofHistory resent) ["sender.js", "receiver.js"] ∧
      ⟨⟨0, 8⟩, ⟨1, 11⟩, .callArg, some "news"⟩ ∈ (ofHistory resent).links ∧
      ⟨⟨"app.html", "text", 1, "input", "text", none⟩, ⟨1, 16⟩⟩ ∈
        (ofHistory resent).markupEdges := by
  have ends : ∃ before, resent = before ++ [.link] := ⟨resent.dropLast, rfl⟩
  have names : mergedNames resent = ["sender.js", "receiver.js"] := by
    have merged : (resent.filterMap Operation.merged?).map file =
        ["sender.js", "receiver.js", "sender.js"] := rfl
    rw [mergedNames, merged]
    decide
  have attaches : AttachesMerged resent := by
    intro before file bindings after same
    rcases before with _ | ⟨a, _ | ⟨b, _ | ⟨c, _ | ⟨d, _ | ⟨e, _ | ⟨f, before⟩⟩⟩⟩⟩⟩ <;>
      simp [resent] at same
    obtain ⟨rfl, rfl, rfl, ⟨rfl, -⟩, -⟩ := same
    have merged : ([.merge draftGraph, .merge hearingGraph, .link].filterMap
        Operation.merged?).map file = ["sender.js", "receiver.js"] := rfl
    rw [mergedNames, merged]
    decide
  have linked : (ofHistory resent).allLinks = (ofHistory relay).allLinks := by
    simp only [allLinks, channelLinks, channelEnds, numbered, files_resent]
  obtain ⟨same, numbered, -⟩ := history_forgotten resent ends attaches
  refine ⟨ends, attaches, same, names ▸ numbered resent [] (by simp), ?_, ?_⟩
  · exact (congrArg (_ ∈ ·) linked).mpr link_relay
  · change _ ∈ (ofHistory resent).allMarkupEdges
    refine mem_allMarkupEdges.mpr ⟨_, hearingGraph, ?_, ?_, mem_singleton_self _, by decide +kernel⟩
    · rw [(holding_ofHistory _).markup]
      rfl
    · simp [graph?, files_resent, files_relay]

end Seepage.Program

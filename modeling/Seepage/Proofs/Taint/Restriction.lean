import Seepage.Proofs.Taint.Exactness

set_option autoImplicit false

namespace Seepage

open List Taint.SourceFilter

variable {name api : String} {names : List String} {program : Program}

theorem isLE_total {α : Type} (cmp : α → α → Ordering) [Std.OrientedCmp cmp] (a b : α) :
    ((cmp a b).isLE || (cmp b a).isLE) = true := by
  cases direction : cmp a b with
  | lt | eq => simp
  | gt =>
    have reverse : cmp b a = .lt := Std.OrientedCmp.lt_of_gt direction
    simp [reverse]

namespace Adjacency

variable {κ α : Type} [Ord κ] [Std.TransOrd κ] [Std.LawfulEqOrd κ] [DecidableEq κ]

theorem toList_filter (keys : κ → Bool) (entries : List (κ × α)) :
    (ofList (entries.filter (keys ·.1))).toList = (ofList entries).toList.filter (keys ·.1) := by
  have sorted : ∀ map : Adjacency κ α, map.toList.Pairwise fun a b => compare a.1 b.1 = .lt :=
    fun map => map.ordered_keys_toList
  -- Keys come in order and once, so it is enough that both lists have the same members.
  refine List.Perm.eq_of_pairwise ?_ (sorted _) ((sorted _).filter _) ?_
  · intro a b _ _ less more
    rw [Std.OrientedCmp.gt_of_lt less] at more
    cases more
  · rw [perm_ext_iff_of_nodup (nodup_keys _).of_map ((nodup_keys _).of_map.filter _)]
    rintro ⟨key, values⟩
    rw [mem_filter, mem_toList_ofList, mem_toList_ofList, filter_filter]
    have kept : entries.filter (fun entry => decide (entry.1 = key) && keys entry.1) =
        if keys key then entries.filter (fun entry => decide (entry.1 = key)) else [] := by
      split
      next kept =>
        refine filter_congr fun entry _ => ?_
        by_cases same : entry.1 = key <;> simp [same, kept]
      next dropped =>
        refine filter_eq_nil_iff.mpr fun entry _ => ?_
        by_cases same : entry.1 = key <;> simp [same, dropped]
    rw [kept]
    by_cases kept : keys key = true
    · simp [kept]
    · simp only [kept, Bool.false_eq_true, if_false, map_nil, and_false, iff_false, not_and]
      exact fun some none => some none

end Adjacency

namespace Taint

variable {seed : Seed} {label : Label}

def Names (entry name : String) : Prop :=
  entry = name ∨ ∃ start, entry.toList = start ++ ['*'] ∧ start <+: name.toList

theorem entryMatches_iff {entry : String} : entryMatches entry name = true ↔ Names entry name := by
  unfold entryMatches Names
  split
  case h_1 start ends =>
    have shape : entry.toList = start.reverse ++ ['*'] := by
      rw [← reverse_reverse entry.toList, ends, reverse_cons]
    constructor
    · intro begins
      exact .inr ⟨_, shape, isPrefixOf_iff_prefix.mp begins⟩
    · rintro (rfl | ⟨start', shape', begins⟩)
      · rw [shape]
        exact isPrefixOf_iff_prefix.mpr (prefix_append _ _)
      · rw [shape, append_cancel_right_eq] at shape'
        exact isPrefixOf_iff_prefix.mpr (shape' ▸ begins)
  case h_2 other =>
    rw [beq_iff_eq]
    constructor
    · exact .inl
    · rintro (same | ⟨start, shape, -⟩)
      · exact same
      · exact absurd (by simp [shape]) (other start.reverse)

instance (entry name : String) : Decidable (Names entry name) :=
  decidable_of_iff _ entryMatches_iff

def Label.SelectedBy (names : List String) : Label → Prop
  | .api name _ => ∃ entry ∈ names, entry ≠ doubleBinding ∧ Names entry name
  | .markup _ => doubleBinding ∈ names

instance (names : List String) : DecidablePred (Label.SelectedBy names)
  | .api name _ => inferInstanceAs (Decidable (∃ entry ∈ names, entry ≠ doubleBinding ∧ Names entry name))
  | .markup _ => inferInstanceAs (Decidable (doubleBinding ∈ names))

def SinkSelected (names : List String) (api : String) : Prop :=
  names = [] ∨ ∃ entry ∈ names, Names entry api

instance (names : List String) : DecidablePred (SinkSelected names) :=
  fun api => inferInstanceAs (Decidable (names = [] ∨ ∃ entry ∈ names, Names entry api))

theorem admits_only {le : String → String → Bool} :
    (ApiFilter.only (sortDistinct le names)).admits api = true ↔ ∃ entry ∈ names, Names entry api := by
  simp [ApiFilter.admits, mem_sortDistinct, entryMatches_iff]

theorem admits_ofNames : (ApiFilter.ofNames names).admits api = true ↔ SinkSelected names api := by
  unfold ApiFilter.ofNames SinkSelected
  cases names with
  | nil => simp [ApiFilter.admits]
  | cons entry rest =>
    rw [isEmpty_cons, if_neg Bool.false_ne_true, admits_only]
    simp

section

variable {names : List String} (given : names ≠ [])

include given

theorem apis_ofNames : (ofNames names).apis.admits api = true ↔
    ∃ entry ∈ names, entry ≠ doubleBinding ∧ Names entry api := by
  rw [ofNames, if_neg (by simpa using given), admits_only]
  simp [and_assoc]

theorem isAll_ofNames : (ofNames names).apis.isAll = false := by
  rw [ofNames, if_neg (by simpa using given)]
  rfl

theorem doubleBinding_ofNames :
    (ofNames names).doubleBinding = true ↔ doubleBinding ∈ names := by
  rw [ofNames, if_neg (by simpa using given)]
  simp

end

theorem label_ne_of_sorted {rest : List Seed}
    {nodes : List GlobalNode} {groups : List (Label × List GlobalNode)}
    (sorted : (seed :: rest).Pairwise fun a b => (a.label.cmp b.label).isLE = true)
    (shape : groupSeeds rest = (label, nodes) :: groups) (differ : seed.label ≠ label) :
    ∀ group ∈ groupSeeds rest, seed.label ≠ group.1 := by
  intro group member same
  obtain ⟨least, later⟩ := pairwise_cons.mp sorted
  have labels : ((groupSeeds rest).map (·.1)).Pairwise fun a b => (a.cmp b).isLE = true := by
    rw [labels_groupSeeds]
    exact (pairwise_map.mpr later).sublist (dropRepeats_sublist _)
  have next : label ∈ rest.map Seed.label := by
    rw [← mem_dropRepeats, ← labels_groupSeeds, shape]
    simp
  obtain ⟨other, inside, rfl⟩ := mem_map.mp next
  rw [shape, map_cons, pairwise_cons] at labels
  rw [shape] at member
  rcases mem_cons.mp member with rfl | behind
  · exact differ same
  · have below := labels.1 group.1 (mem_map_of_mem behind)
    rw [← same] at below
    exact differ ((LinearTest.ofCmp Label.cmp).antisymm _ _ (least other inside) below)

theorem filter_groupSeeds (keep : Label → Bool) {seeds : List Seed}
    (sorted : seeds.Pairwise fun a b => (a.label.cmp b.label).isLE = true) :
    (groupSeeds seeds).filter (keep ·.1) = groupSeeds (seeds.filter (keep ·.label)) := by
  induction seeds with
  | nil => rfl
  | cons seed rest ih =>
    replace ih := ih (pairwise_cons.mp sorted).2
    rw [groupSeeds]
    by_cases kept : keep seed.label = true
    · have front : (seed :: rest).filter (keep ·.label) = seed :: rest.filter (keep ·.label) := by
        simp [kept]
      rw [front, groupSeeds, ← ih]
      cases shape : groupSeeds rest with
      | nil => simp [kept]
      | cons group groups =>
        obtain ⟨label, nodes⟩ := group
        by_cases same : seed.label = label
        · subst same
          simp [kept]
        · have differ := label_ne_of_sorted sorted shape same
          rw [shape] at differ
          simp only [same, if_false]
          rw [filter_cons_of_pos (by simpa using kept)]
          -- The next group that is kept still has another label.
          cases found : ((label, nodes) :: groups).filter (keep ·.1) with
          | nil => rfl
          | cons first others =>
            have member : first ∈ (label, nodes) :: groups :=
              (mem_filter.mp (found ▸ mem_cons_self)).1
            simp [differ first member]
    · have front : (seed :: rest).filter (keep ·.label) = rest.filter (keep ·.label) := by
        simp [kept]
      rw [front, ← ih]
      cases groupSeeds rest with
      | nil => simp [kept]
      | cons group groups =>
        obtain ⟨label, nodes⟩ := group
        by_cases same : seed.label = label
        · subst same
          simp [kept]
        · simp [same, kept]

section

variable {program : Program} {narrow wide : List String} (given : narrow ≠ []) (within : narrow ⊆ wide)

include given within

theorem sourceName_restrict {graph : FileGraph} {id : Nat} :
    sourceName? graph (ofNames narrow).apis id = some name ↔
      sourceName? graph (ofNames wide).apis id = some name ∧
        (ofNames narrow).apis.admits name = true := by
  have given' : wide ≠ [] := by
    rintro rfl
    exact given (subset_nil.mp within)
  have more : (ofNames narrow).apis.admits name = true →
      (ofNames wide).apis.admits name = true := by
    rw [apis_ofNames given, apis_ofNames given']
    rintro ⟨entry, member, other, named⟩
    exact ⟨entry, within member, other, named⟩
  unfold sourceName?
  rw [isAll_ofNames given, isAll_ofNames given']
  split
  · simp only [Option.filter_eq_some_iff]
    tauto
  · split
    · simp
    · simp only [Option.filter_eq_some_iff]
      tauto
  · simp

theorem mem_seeds_restrict :
    seed ∈ apiSeeds program (.ofNames narrow) ++ markupSeeds program (.ofNames narrow) ↔
      seed ∈ apiSeeds program (.ofNames wide) ++ markupSeeds program (.ofNames wide) ∧
        seed.label.SelectedBy narrow := by
  have given' : wide ≠ [] := by
    rintro rfl
    exact given (subset_nil.mp within)
  obtain ⟨label, node⟩ := seed
  rw [mem_append, mem_append, mem_apiSeeds, mem_apiSeeds, mem_markupSeeds, mem_markupSeeds,
    doubleBinding_ofNames given, doubleBinding_ofNames given', or_and_right]
  refine or_congr ?_ ?_
  · constructor
    · rintro ⟨graph, name, found, listed, named, rfl⟩
      obtain ⟨named', admitted⟩ := (sourceName_restrict given within).mp named
      exact ⟨⟨graph, name, found, listed, named', rfl⟩, (apis_ofNames given).mp admitted⟩
    · rintro ⟨⟨graph, name, found, listed, named, rfl⟩, selected⟩
      have admitted := (apis_ofNames given).mpr selected
      exact ⟨graph, name, found, listed,
        (sourceName_restrict given within).mpr ⟨named, admitted⟩, rfl⟩
  · constructor
    · rintro ⟨wanted, binding, member, rfl⟩
      exact ⟨⟨within wanted, binding, member, rfl⟩, wanted⟩
    · rintro ⟨⟨-, binding, member, rfl⟩, selected⟩
      exact ⟨selected, binding, member, rfl⟩

theorem seeds_restrict : seeds program (.ofNames narrow) =
    (seeds program (.ofNames wide)).filter fun group => group.1.SelectedBy narrow := by
  have sorted : (sortDistinct Seed.le (apiSeeds program (.ofNames wide) ++
      markupSeeds program (.ofNames wide))).Pairwise
        fun a b => (a.label.cmp b.label).isLE = true := by
    refine (pairwise_sortDistinct linear_seed _).imp ?_
    intro a b ordered
    simp only [Seed.le, Ordering.isLE_then_iff_and] at ordered
    exact ordered.1
  rw [seeds, seeds, filter_groupSeeds (fun label => label.SelectedBy narrow) sorted,
    filter_sortDistinct linear_seed]
  refine congrArg groupSeeds (sortDistinct_congr linear_seed fun seed => ?_)
  rw [mem_seeds_restrict given within, mem_filter, decide_eq_true_eq]

end

theorem sinkAt_ofNames (program : Program) (sinks : ApiFilter) (node : GlobalNode) :
    sinkAt? program sinks node =
      (sinkAt? program .all node).filter fun (_, api) => sinks.admits api := by
  ext ⟨call, api⟩
  simp only [sinkAt?, bind, pure, Option.bind_eq_some_iff, Option.filter_eq_some_iff,
    Option.some.injEq, Prod.mk.injEq]
  constructor
  · rintro ⟨graph, found, site, here, name, ⟨named, admitted⟩, rfl, rfl⟩
    exact ⟨⟨graph, found, site, here, name, ⟨named, rfl⟩, rfl, rfl⟩, admitted⟩
  · rintro ⟨⟨graph, found, site, here, name, ⟨named, -⟩, rfl, rfl⟩, admitted⟩
    exact ⟨graph, found, site, here, name, ⟨named, admitted⟩, rfl, rfl⟩

def calledAt? (program : Program) (call : GlobalNode) : Option String :=
  (program.graph? call).bind (hostCallName? · call.node)

theorem calledAt_of_sinkAt {sinks : ApiFilter} {node call : GlobalNode}
    (found : sinkAt? program sinks node = some (call, api)) :
    calledAt? program call = some api := by
  simp only [sinkAt?, bind, Option.bind_eq_some_iff, Option.filter_eq_some_iff, pure,
    Option.some.injEq, Prod.mk.injEq] at found
  obtain ⟨graph, here, site, -, _, ⟨named, -⟩, rfl, rfl⟩ := found
  have same : program.graph? ⟨node.file, site⟩ = some graph := here
  simp [calledAt?, same, named]

theorem hits_restrict (program : Program) (sinks : ApiFilter) (label : Label)
    (order : List GlobalNode) : hits program sinks label order =
      (hits program .all label order).filter fun hit => sinks.admits hit.api := by
  let found (sinks : ApiFilter) := order.filterMap fun node =>
    (sinkAt? program sinks node).bind fun sink =>
      if label.apiName? = some sink.2 then none else some (sink.1, sink.2, node)
  let keep (call : GlobalNode) : Bool := (calledAt? program call).any sinks.admits
  have names : ∀ call api node, (call, api, node) ∈ found .all → calledAt? program call = some api := by
    intro call api node member
    simp only [found, mem_filterMap, Option.bind_eq_some_iff, Prod.exists] at member
    obtain ⟨node', -, call', api', here, shape⟩ := member
    split at shape
    · cases shape
    · cases shape
      exact calledAt_of_sinkAt here
  have fewer : found sinks = (found .all).filter (keep ·.1) := by
    simp only [found, filter_filterMap]
    refine filterMap_congr fun node _ => ?_
    rw [sinkAt_ofNames]
    cases here : sinkAt? program .all node with
    | none => rfl
    | some sink =>
      obtain ⟨call, api⟩ := sink
      have called := calledAt_of_sinkAt here
      by_cases own : label.apiName? = some api <;> by_cases admitted : sinks.admits api = true <;>
        simp [Option.filter_some, own, admitted, keep, called]
  have table : ∀ sinks, hits program sinks label order =
      (Adjacency.ofList (found sinks)).toList.filterMap fun entry =>
        entry.2.head?.map fun first => ⟨entry.1, first.1, entry.2.map (·.2)⟩ := fun _ => rfl
  rw [table, table, fewer, Adjacency.toList_filter, filterMap_filter, filter_filterMap]
  refine filterMap_congr ?_
  rintro ⟨call, reached⟩ member
  cases reached with
  | nil => simp
  | cons first rest =>
    obtain ⟨api, node⟩ := first
    have listed := (Adjacency.mem_toList_ofList.mp member).2
    have given : (call, api, node) ∈ found .all := by
      have here : (api, node) ∈ ((found .all).filter (·.1 = call)).map (·.2) := by
        rw [← listed]
        simp
      obtain ⟨⟨call', _, _⟩, inside, same⟩ := mem_map.mp here
      obtain ⟨member, own⟩ := mem_filter.mp inside
      obtain rfl : call' = call := of_decide_eq_true own
      cases same
      exact member
    by_cases admitted : sinks.admits api = true <;>
      simp [Option.filter_some, keep, names call api node given, admitted]

theorem label_of_mem_findingsOf {settings : Settings} {trace : Trace} {finding : Finding}
    (member : finding ∈ findingsOf program settings label trace) : finding.label = label := by
  simp only [findingsOf, mem_flatMap, mem_map] at member
  obtain ⟨hit, -, way, -, rfl⟩ := member
  rfl

theorem findingsOf_restrict (program : Program) (sources wider : SourceFilter) (sinks : ApiFilter)
    (mode : PathMode) (label : Label) (trace : Trace) :
    findingsOf program ⟨sources, sinks, mode⟩ label trace =
      (findingsOf program ⟨wider, .all, mode⟩ label trace).filter fun finding =>
        sinks.admits finding.sink.api := by
  rw [findingsOf, findingsOf, hits_restrict]
  generalize hits program .all label trace.order = all
  induction all with
  | nil => rfl
  | cons hit rest ih =>
    have own : ((pathsOf program mode trace hit).map (findingOf program label hit)).filter
        (fun finding => sinks.admits finding.sink.api) =
        if sinks.admits hit.api then (pathsOf program mode trace hit).map (findingOf program label hit)
        else [] := by
      by_cases admitted : sinks.admits hit.api = true <;> simp [findingOf, admitted]
    rw [flatMap_cons, filter_append, own, ← ih]
    by_cases admitted : sinks.admits hit.api = true <;> simp [admitted]

instance : Std.TransCmp PathStep.cmp :=
  inferInstanceAs <| Std.TransCmp
    (compareLex (compareLex (compareLex (compareOn PathStep.file) (compareOn PathStep.node))
      (compareOn PathStep.kind)) (compareOn PathStep.line))

theorem comparePaths_eq (way other : List PathStep) :
    comparePaths way other = List.compareLex PathStep.cmp way other := by
  induction way generalizing other with
  | nil => cases other <;> rfl
  | cons step rest ih =>
    cases other with
    | nil => rfl
    | cons step' rest' =>
      rw [comparePaths, ih, List.compareLex_cons_cons]

instance : Std.TransCmp comparePaths := by
  have same : comparePaths = List.compareLex PathStep.cmp := by
    funext way other
    exact comparePaths_eq way other
  rw [same]
  infer_instance

def Finding.cmp : Finding → Finding → Ordering :=
  compareLex (compareLex (compareLex (compareLex (compareOn (·.sink.file)) (compareOn (·.sink.line)))
    (compareOn (·.sink.column))) fun a b => a.label.cmp b.label) fun a b => comparePaths a.path b.path

instance : Std.TransCmp Finding.cmp := by
  have labels : Std.TransCmp fun a b : Finding => a.label.cmp b.label :=
    transCmp_image Label.cmp Finding.label
  have paths : Std.TransCmp fun a b : Finding => comparePaths a.path b.path :=
    transCmp_image comparePaths Finding.path
  unfold Finding.cmp
  infer_instance

theorem filter_sorted (test : Finding → Bool) (findings : List Finding) :
    (findings.mergeSort Finding.le).filter test = (findings.filter test).mergeSort Finding.le := by
  exact filter_mergeSort (fun _ _ _ => Std.TransCmp.isLE_trans) (isLE_total Finding.cmp) test findings

theorem findings_restrict (program : Program) (mode : PathMode) (narrow wide sinkNames : List String)
    (given : narrow ≠ []) (within : narrow ⊆ wide) :
    (analyze program ⟨.ofNames narrow, .ofNames sinkNames, mode⟩).findings =
      (analyze program ⟨.ofNames wide, .ofNames [], mode⟩).findings.filter fun finding =>
        finding.label.SelectedBy narrow ∧ SinkSelected sinkNames finding.sink.api := by
  simp only [analyze, conclude]
  rw [filter_sorted, seeds_restrict given within]
  refine congrArg (List.mergeSort · Finding.le) ?_
  generalize seeds program (.ofNames wide) = groups
  induction groups with
  | nil => rfl
  | cons group rest ih =>
    obtain ⟨label, nodes⟩ := group
    -- All findings of a group have its label, so that only the sinks are left to select.
    have own : (findingsOf program ⟨.ofNames wide, .ofNames [], mode⟩ label
      (trace program nodes)).filter
        (fun finding => decide (finding.label.SelectedBy narrow ∧
          SinkSelected sinkNames finding.sink.api)) =
        if label.SelectedBy narrow then
          findingsOf program ⟨.ofNames narrow, .ofNames sinkNames, mode⟩ label (trace program nodes)
        else [] := by
      rw [findingsOf_restrict program (.ofNames narrow) (.ofNames wide) (.ofNames sinkNames)]
      split
      next selected =>
        refine List.filter_congr fun finding member => ?_
        simp [label_of_mem_findingsOf member, selected, ← admits_ofNames]
      next dropped =>
        refine List.filter_eq_nil_iff.mpr fun finding member => ?_
        simp [label_of_mem_findingsOf member, dropped]
    rw [List.map_cons, List.flatMap_cons, List.filter_append, own, ← ih]
    by_cases selected : label.SelectedBy narrow <;> simp [selected]

theorem findings_restrict_nestedCall :
    let program := Program.ofHistory [.merge nestedCallGraph, .link]
    let narrow := ["sour*", doubleBinding]
    let wide := ["wx.getLocation", doubleBinding, "sour*"]
    narrow ≠ [] ∧ narrow ⊆ wide ∧
      (analyze program ⟨.ofNames narrow, .ofNames ["sink"], .detailed⟩).findings =
        (analyze program ⟨.ofNames wide, .ofNames [], .detailed⟩).findings.filter fun finding =>
          finding.label.SelectedBy narrow ∧ SinkSelected ["sink"] finding.sink.api := by
  intro program narrow wide
  have given : narrow ≠ [] := by simp [narrow]
  have within : narrow ⊆ wide := by simp [narrow, wide]
  exact ⟨given, within, findings_restrict program .detailed narrow wide ["sink"] given within⟩

end Taint

end Seepage

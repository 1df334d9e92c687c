import Seepage.Proofs.Graph.Charging
import Seepage.Proofs.Sorting
import Seepage.Proofs.Tree.Arena

set_option autoImplicit false

namespace Seepage

open List

variable {edges : List Edge} {source target : Nat} {kind : DataKind}

namespace Adjacency

variable {κ α : Type} [Ord κ] [Std.TransOrd κ] [Std.LawfulEqOrd κ] [DecidableEq κ]

theorem mem_toList_ofList {entries : List (κ × α)} {key : κ} {values : List α} :
    (key, values) ∈ (ofList entries).toList ↔
      values ≠ [] ∧ values = (entries.filter (·.1 = key)).map (·.2) := by
  rw [Std.TreeMap.mem_toList_iff_getElem?_eq_some]
  induction entries generalizing values with
  | nil =>
    simp only [ofList, foldr_nil, Std.TreeMap.getElem?_emptyc, filter_nil, map_nil]
    simp
  | cons entry rest ih =>
    obtain ⟨first, value⟩ := entry
    have step : ofList ((first, value) :: rest) =
        (ofList rest).insert first (value :: (ofList rest).values first) := rfl
    rw [step, Std.TreeMap.getElem?_insert]
    by_cases same : first = key
    · subst same
      simp only [Std.ReflCmp.compare_self, if_true, values_ofList, Option.some.injEq,
        decide_true, filter_cons_of_pos, map_cons]
      constructor
      · rintro rfl
        exact ⟨cons_ne_nil _ _, rfl⟩
      · rintro ⟨-, rfl⟩
        rfl
    · have differ : compare first key ≠ .eq := fun h => same (Std.LawfulEqOrd.eq_of_compare h)
      simp [same, differ, ih]

theorem getElem?_foldl_insertIfNew (entries : List (κ × α)) (map : Std.TreeMap κ α) (key : κ) :
    (entries.foldl (fun found (key, value) => found.insertIfNew key value) map)[key]? =
      map[key]?.or ((entries.find? (·.1 = key)).map (·.2)) := by
  induction entries generalizing map with
  | nil => simp
  | cons entry rest ih =>
    obtain ⟨first, value⟩ := entry
    rw [foldl_cons, ih, Std.TreeMap.getElem?_insertIfNew]
    by_cases same : first = key
    · subst same
      by_cases present : first ∈ map <;> simp [present]
    · have differ : compare first key ≠ .eq := fun h => same (Std.LawfulEqOrd.eq_of_compare h)
      simp [same, differ]

omit [DecidableEq κ] in
theorem nodup_keys {β : Type} (map : Std.TreeMap κ β) : (map.toList.map (·.1)).Nodup := by
  rw [nodup_iff_pairwise_ne, pairwise_map]
  refine map.distinct_keys_toList.imp ?_
  intro a b differ same
  exact differ (by simp [same])

end Adjacency

namespace FileGraph

def Built (graph : FileGraph) : Prop :=
  ∃ file arena options budget rest,
    Arena.ofFile file = .ok arena ∧ build arena options budget = .ok (graph, rest)

theorem built_assemble {file : Script.File} {arena : Arena} (read : Arena.ofFile file = .ok arena)
    (options : Alias.Options) : (assemble arena options).Built :=
  ⟨file, arena, options, .unlimited, _, read, build_unlimited arena options rfl⟩

theorem Built.eq_assemble {graph : FileGraph} (built : graph.Built) :
    graph.arena.WellNumbered ∧ ∃ options, graph = assemble graph.arena options := by
  obtain ⟨file, arena, options, budget, rest, read, made⟩ := built
  obtain rfl := eq_assemble_of_build made
  exact ⟨Arena.wellNumbered_ofFile read, options, rfl⟩

theorem eq_data {edge : Edge} {kind : DataKind} (isData : edge.dataKind? = some kind) :
    Edge.data edge.source edge.target kind = edge := by
  obtain ⟨source, target, _ | own⟩ := edge <;> cases isData
  rfl

theorem mem_forward :
    (source, target, kind) ∈ forward edges ↔ Edge.data source target kind ∈ edges := by
  simp only [forward, mem_filterMap, Option.map_eq_some_iff]
  constructor
  · rintro ⟨edge, member, _, isData, ⟨⟩⟩
    rwa [eq_data isData]
  · exact fun member => ⟨_, member, _, rfl, rfl⟩

theorem mem_backward :
    (target, source, kind) ∈ backward edges ↔ Edge.data source target kind ∈ edges := by
  simp only [backward, mem_filterMap, Option.map_eq_some_iff]
  constructor
  · rintro ⟨edge, member, _, isData, ⟨⟩⟩
    rwa [eq_data isData]
  · exact fun member => ⟨_, member, _, rfl, rfl⟩

section

variable {graph : FileGraph} (built : graph.Built) {source target : Nat} {kind : DataKind}

include built

theorem mem_successors :
    (target, kind) ∈ graph.successors source ↔ Edge.data source target kind ∈ graph.edges := by
  obtain ⟨-, options, made⟩ := built.eq_assemble
  have kept : graph.outgoing = .ofList (forward graph.edges) := by rw [made]; rfl
  rw [successors, kept, Adjacency.values_ofList, ← mem_forward]
  simp

theorem mem_predecessors :
    (source, kind) ∈ graph.predecessors target ↔ Edge.data source target kind ∈ graph.edges := by
  obtain ⟨-, options, made⟩ := built.eq_assemble
  have kept : graph.incoming = .ofList (backward graph.edges) := by rw [made]; rfl
  rw [predecessors, kept, Adjacency.values_ofList, ← mem_backward]
  simp

end

end FileGraph

end Seepage

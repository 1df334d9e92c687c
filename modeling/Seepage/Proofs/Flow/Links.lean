import Seepage.Proofs.Flow.Reaching

set_option autoImplicit false

namespace Seepage

open List

variable {found : Std.TreeMap Nat NatSet} {node symbol : Nat}

theorem getD_foldl_insert {β : Type} (values : Nat → β) (keys : List Nat) (map : Std.TreeMap Nat β)
    (key : Nat) (default : β) :
    (keys.foldl (fun map key => map.insert key (values key)) map).getD key default =
      if key ∈ keys then values key else map.getD key default := by
  induction keys generalizing map with
  | nil => simp
  | cons first rest ih =>
    rw [foldl_cons, ih, Std.TreeMap.getD_insert]
    by_cases later : key ∈ rest
    · simp [later]
    · by_cases same : first = key
      · simp [same]
      · simp [later, same, Ne.symm same]

namespace VariableUse

def record (found : Std.TreeMap Nat NatSet) : Event → Std.TreeMap Nat NatSet
  | .use .. => found
  | .define node symbol => found.insert symbol (NatSet.insert node (found.getD symbol []))

theorem mem_record {event : Event} :
    node ∈ (record found event).getD symbol [] ↔
      node ∈ found.getD symbol [] ∨ event = .define node symbol := by
  cases event with
  | use => simp [record]
  | define other own =>
    rw [record, Std.TreeMap.getD_insert]
    by_cases same : own = symbol
    · subst same
      simp [NatSet.mem_insert, or_comm, eq_comm]
    · simp [same]

theorem mem_foldl_record {events : List Event} : node ∈ (events.foldl record found).getD symbol [] ↔
      node ∈ found.getD symbol [] ∨ .define node symbol ∈ events := by
  induction events generalizing found with
  | nil => simp
  | cons event rest ih => rw [foldl_cons, ih, mem_record, mem_cons, or_assoc, eq_comm]

theorem mem_definitions {use : VariableUse} :
    node ∈ use.definitions.getD symbol [] ↔
      ∃ vertex, .define node symbol ∈ use.eventsAt vertex := by
  have start : use.definitions =
      use.events.foldl (fun found _ events => events.foldl record found) ∅ := rfl
  have folded : ∀ (entries : List (Nat × List Event)) (found : Std.TreeMap Nat NatSet),
      node ∈ (entries.foldl (fun found entry => entry.2.foldl record found) found).getD symbol [] ↔
        node ∈ found.getD symbol [] ∨ ∃ entry ∈ entries, .define node symbol ∈ entry.2 := by
    intro entries
    induction entries with
    | nil => simp
    | cons entry rest ih =>
      intro found
      rw [foldl_cons, ih, mem_foldl_record]
      simp [or_assoc]
  rw [start, Std.TreeMap.foldl_eq_foldl_toList, folded]
  simp only [eventsAt, Std.TreeMap.getD_eq_getD_getElem?, Std.TreeMap.getElem?_emptyc,
    Option.getD_none, not_mem_nil, false_or, Prod.exists,
    Std.TreeMap.mem_toList_iff_getElem?_eq_some]
  constructor
  · rintro ⟨vertex, events, found, member⟩
    exact ⟨vertex, by simpa [found] using member⟩
  · rintro ⟨vertex, member⟩
    cases found : use.events[vertex]? with
    | none => simp [found] at member
    | some events => exact ⟨vertex, events, found, by simpa [found] using member⟩

end VariableUse

namespace Reaching

variable {arena : Arena} {use : VariableUse} {definitions : Std.TreeMap Nat NatSet} {owner : Nat}

theorem links_append (state : NatSet) (first second : List Event) :
    links arena use definitions owner state (first ++ second) =
      links arena use definitions owner state first ++
        links arena use definitions owner (first.foldl (after use) state) second := by
  induction first generalizing state with
  | nil => rfl
  | cons event rest ih => simp only [cons_append, links, ih, append_assoc, foldl_cons]

end Reaching

end Seepage

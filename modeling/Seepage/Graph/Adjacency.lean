import Std.Data.TreeMap

set_option autoImplicit false

namespace Seepage

abbrev Adjacency (κ : Type) (α : Type) [Ord κ] := Std.TreeMap κ (List α)

namespace Adjacency

variable {κ α : Type} [Ord κ]

def values (adjacency : Adjacency κ α) (key : κ) : List α :=
  adjacency.getD key []

def ofList (entries : List (κ × α)) : Adjacency κ α :=
  entries.foldr (fun (key, value) found => found.insert key (value :: found.getD key [])) ∅

theorem values_ofList [Std.TransOrd κ] [Std.LawfulEqOrd κ] [DecidableEq κ]
    (entries : List (κ × α)) (key : κ) :
    (ofList entries).values key = (entries.filter (·.1 = key)).map (·.2) := by
  induction entries with
  | nil => simp [ofList, values]
  | cons entry rest ih =>
    obtain ⟨first, value⟩ := entry
    have step : ofList ((first, value) :: rest) =
        (ofList rest).insert first (value :: (ofList rest).getD first []) := rfl
    unfold values at ih ⊢
    rw [step, Std.TreeMap.getD_insert]
    by_cases same : first = key
    · subst same
      simp [ih]
    · have differ : compare first key ≠ .eq := fun h => same (Std.LawfulEqOrd.eq_of_compare h)
      simp [same, differ, ih]

end Adjacency

end Seepage

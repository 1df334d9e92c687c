set_option autoImplicit false

namespace Seepage

abbrev NatSet := List Nat

namespace NatSet

def insert (x : Nat) : NatSet → NatSet
  | [] => [x]
  | y :: ys => if x < y then x :: y :: ys else if y < x then y :: insert x ys else y :: ys

def mergeHead (x : Nat) (rest : NatSet → NatSet) : NatSet → NatSet
  | [] => x :: rest []
  | y :: ys =>
    if x < y then x :: rest (y :: ys)
    else if y < x then y :: mergeHead x rest ys
    else x :: rest ys

def union : NatSet → NatSet → NatSet
  | [], ys => ys
  | x :: xs, ys => mergeHead x (union xs) ys

def ofList (xs : List Nat) : NatSet :=
  xs.foldr insert []

theorem mem_insert {z x : Nat} (ys : NatSet) : z ∈ insert x ys ↔ z = x ∨ z ∈ ys := by
  induction ys with
  | nil => simp [insert]
  | cons y ys ih =>
    unfold insert
    split
    · simp
    · split
      · simp only [List.mem_cons, ih]
        constructor <;> rintro (h | h | h) <;> simp [h]
      · have same : x = y := by omega
        simp [same]

theorem mem_mergeHead {z x : Nat} (rest : NatSet → NatSet) (xs : NatSet)
    (spec : ∀ ys, z ∈ rest ys ↔ z ∈ xs ∨ z ∈ ys) (ys : NatSet) :
    z ∈ mergeHead x rest ys ↔ z ∈ x :: xs ∨ z ∈ ys := by
  induction ys with
  | nil => simp [mergeHead, spec]
  | cons y ys ih =>
    unfold mergeHead
    split
    · simp [spec, or_assoc]
    · split
      · simp only [List.mem_cons, ih]
        constructor
        · rintro (h | (h | h) | h) <;> simp [h]
        · rintro ((h | h) | h | h) <;> simp [h]
      · have same : x = y := by omega
        simp only [List.mem_cons, spec, same]
        constructor
        · rintro (h | h | h) <;> simp [h]
        · rintro ((h | h) | h | h) <;> simp [h]

theorem mem_union {z : Nat} (xs ys : NatSet) : z ∈ union xs ys ↔ z ∈ xs ∨ z ∈ ys := by
  induction xs generalizing ys with
  | nil => simp [union]
  | cons x xs ih => exact mem_mergeHead _ xs ih ys

theorem mem_ofList {z : Nat} (xs : List Nat) : z ∈ ofList xs ↔ z ∈ xs := by
  induction xs with
  | nil => simp [ofList]
  | cons x xs ih =>
    have step : ofList (x :: xs) = insert x (ofList xs) := rfl
    rw [step, mem_insert, ih, List.mem_cons]

end NatSet

end Seepage

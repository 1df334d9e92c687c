import Seepage.NatSet

set_option autoImplicit false

namespace Seepage.NatSet

open List

variable {set xs ys : NatSet}

def Sorted (set : NatSet) : Prop :=
  set.Pairwise (· < ·)

theorem sorted_nil : Sorted [] :=
  .nil

theorem Sorted.nodup (sorted : Sorted set) : set.Nodup := by
  refine List.Pairwise.imp ?_ sorted
  omega

theorem Sorted.insert (sorted : Sorted set) (x : Nat) : Sorted (NatSet.insert x set) := by
  induction set with
  | nil => exact pairwise_singleton _ _
  | cons y ys ih =>
    obtain ⟨above, rest⟩ := pairwise_cons.mp sorted
    unfold NatSet.insert
    split
    case isTrue below =>
      refine pairwise_cons.mpr ⟨?_, sorted⟩
      intro z member
      rcases mem_cons.mp member with rfl | later
      · exact below
      · have := above z later
        omega
    case isFalse =>
      split
      case isTrue below =>
        refine pairwise_cons.mpr ⟨?_, ih rest⟩
        intro z member
        rcases (mem_insert ys).mp member with rfl | old
        · exact below
        · exact above z old
      case isFalse => exact sorted

theorem Sorted.mergeHead {x : Nat} {rest : NatSet → NatSet}
    (spec : ∀ ys z, z ∈ rest ys ↔ z ∈ xs ∨ z ∈ ys) (first : Sorted (x :: xs))
    (keeps : ∀ ys, Sorted ys → Sorted (rest ys)) (second : Sorted ys) :
    Sorted (NatSet.mergeHead x rest ys) := by
  have aboveX := (pairwise_cons.mp first).1
  induction ys with
  | nil =>
    refine pairwise_cons.mpr ⟨?_, keeps [] sorted_nil⟩
    intro z member
    rcases (spec [] z).mp member with inFirst | nothing
    · exact aboveX z inFirst
    · cases nothing
  | cons y ys ih =>
    obtain ⟨aboveY, restSorted⟩ := pairwise_cons.mp second
    unfold NatSet.mergeHead
    split
    case isTrue below =>
      refine pairwise_cons.mpr ⟨?_, keeps _ second⟩
      intro z member
      rcases (spec _ z).mp member with inFirst | inSecond
      · exact aboveX z inFirst
      · rcases mem_cons.mp inSecond with rfl | later
        · exact below
        · have := aboveY z later
          omega
    case isFalse =>
      split
      case isTrue below =>
        refine pairwise_cons.mpr ⟨?_, ih restSorted⟩
        intro z member
        rcases (mem_mergeHead rest xs (fun ys => spec ys z) ys).mp member with inFirst | inSecond
        · rcases mem_cons.mp inFirst with rfl | later
          · exact below
          · have := aboveX z later
            omega
        · exact aboveY z inSecond
      case isFalse =>
        have same : x = y := by omega
        refine pairwise_cons.mpr ⟨?_, keeps ys restSorted⟩
        intro z member
        rcases (spec ys z).mp member with inFirst | inSecond
        · exact aboveX z inFirst
        · exact same ▸ aboveY z inSecond

theorem Sorted.union (first : Sorted xs) (second : Sorted ys) : Sorted (NatSet.union xs ys) := by
  induction xs generalizing ys with
  | nil => exact second
  | cons x xs ih =>
    refine Sorted.mergeHead (fun ys z => mem_union xs ys) first ?_ second
    intro ys sorted
    exact ih (pairwise_cons.mp first).2 sorted

theorem Sorted.filter (sorted : Sorted set) (test : Nat → Bool) : Sorted (set.filter test) :=
  List.Pairwise.filter test sorted

theorem Sorted.ext (first : Sorted xs) (second : Sorted ys)
    (same : ∀ z, z ∈ xs ↔ z ∈ ys) : xs = ys := by
  induction xs generalizing ys with
  | nil =>
    symm
    rw [eq_nil_iff_forall_not_mem]
    intro z member
    exact not_mem_nil ((same z).mpr member)
  | cons x xs ih =>
    obtain ⟨aboveX, restX⟩ := pairwise_cons.mp first
    cases ys with
    | nil => exact absurd ((same x).mp mem_cons_self) not_mem_nil
    | cons y ys =>
      obtain ⟨aboveY, restY⟩ := pairwise_cons.mp second
      have heads : x = y := by
        rcases mem_cons.mp ((same x).mp mem_cons_self) with equal | later
        · exact equal
        · rcases mem_cons.mp ((same y).mpr mem_cons_self) with equal | later'
          · exact equal.symm
          · have := aboveX y later'
            have := aboveY x later
            omega
      congr 1
      refine ih restX restY fun z => ?_
      constructor
      · intro member
        rcases mem_cons.mp ((same z).mp (mem_cons_of_mem _ member)) with rfl | later
        · have := aboveX z member
          omega
        · exact later
      · intro member
        rcases mem_cons.mp ((same z).mpr (mem_cons_of_mem _ member)) with rfl | later
        · have := aboveY z member
          omega
        · exact later

theorem Sorted.length_lt (first : Sorted xs) (second : Sorted ys)
    (part : ∀ z ∈ xs, z ∈ ys) (differ : xs ≠ ys) : xs.length < ys.length := by
  apply Nat.lt_of_not_le
  intro long
  apply differ
  refine first.ext second fun z => ⟨part z, fun member => ?_⟩
  by_cases old : z ∈ xs
  · exact old
  · have larger : (z :: xs).length ≤ ys.length := by
      refine List.Nodup.length_le_of_subset (nodup_cons.mpr ⟨old, first.nodup⟩) ?_
      intro w inside
      rcases mem_cons.mp inside with rfl | later
      · exact member
      · exact part w later
    rw [length_cons] at larger
    omega

end Seepage.NatSet

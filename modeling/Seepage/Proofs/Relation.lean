import Mathlib.Algebra.BigOperators.Group.Finset.Piecewise
import Mathlib.Data.List.Nodup
import Seepage.Proofs.NatSet
import Seepage.Relation

set_option autoImplicit false

namespace Seepage

variable {set xs ys : NatSet} {bound x place : Nat}

section

variable {α β : Type} [Ord α] [Std.TransOrd α] [Std.LawfulEqOrd α] {table : Std.TreeMap α β}
  {key other : α} {entry item : β}

theorem getElem?_insert_of_some (missing : table[key]? = none) (known : table[other]? = some item) :
    (table.insert key entry)[other]? = some item := by
  have differ : key ≠ other := by
    rintro rfl
    simp [missing] at known
  simpa [Std.TreeMap.getElem?_insert, differ] using known

theorem eq_or_of_getElem?_insert (present : (table.insert key entry)[other]? = some item) :
    other = key ∧ item = entry ∨ table[other]? = some item := by
  rw [Std.TreeMap.getElem?_insert] at present
  split at present
  case isTrue same =>
    exact .inl ⟨(Std.LawfulEqOrd.eq_of_compare same).symm, (Option.some.inj present).symm⟩
  case isFalse => exact .inr present

end

namespace NatSet

theorem Sorted.singleton (x : Nat) : Sorted [x] :=
  List.pairwise_singleton _ _

theorem Sorted.length_le (sorted : Sorted set)
    (below : ∀ x ∈ set, x < bound) : set.length ≤ bound := by
  have part : set ⊆ List.range bound := fun x member => List.mem_range.mpr (below x member)
  simpa using List.Nodup.length_le_of_subset sorted.nodup part

theorem Sorted.union_eq (first : Sorted xs) (second : Sorted ys)
    (same : (NatSet.union xs ys).length = xs.length) : NatSet.union xs ys = xs := by
  by_contra differ
  have shorter := first.length_lt (first.union second)
    (fun z member => (mem_union xs ys).mpr (.inl member)) (Ne.symm differ)
  omega

theorem Sorted.length_le_union {xs ys : NatSet} (first : Sorted xs) :
    xs.length ≤ (NatSet.union xs ys).length :=
  List.Nodup.length_le_of_subset first.nodup fun _ member => (mem_union xs ys).mpr (.inl member)

def Below (bound : Nat) (set : NatSet) : Prop :=
  Sorted set ∧ ∀ x ∈ set, x < bound

theorem below_nil (bound : Nat) : Below bound [] :=
  ⟨sorted_nil, by simp⟩

theorem below_singleton (small : x < bound) : Below bound [x] :=
  ⟨.singleton x, by simpa using small⟩

theorem Below.mono {larger : Nat} (below : Below bound set)
    (le : bound ≤ larger) : Below larger set :=
  ⟨below.1, fun x member => Nat.lt_of_lt_of_le (below.2 x member) le⟩

theorem Below.union (first : Below bound xs)
    (second : Below bound ys) : Below bound (NatSet.union xs ys) := by
  refine ⟨first.1.union second.1, fun x member => ?_⟩
  rcases (mem_union xs ys).mp member with here | there
  · exact first.2 x here
  · exact second.2 x there

theorem Below.insert (below : Below bound set) (small : x < bound) :
    Below bound (NatSet.insert x set) := by
  refine ⟨below.1.insert x, fun y member => ?_⟩
  rcases (mem_insert set).mp member with rfl | old
  · exact small
  · exact below.2 y old

theorem mem_foldl_union {α : Type} (items : List α) (give : α → NatSet) (start : NatSet) :
    x ∈ items.foldl (fun found item => NatSet.union found (give item)) start ↔
      x ∈ start ∨ ∃ item ∈ items, x ∈ give item := by
  induction items generalizing start with
  | nil => simp
  | cons item rest ih => simp [ih, mem_union, or_assoc]

theorem below_foldl_union {α : Type} {items : List α} {give : α → NatSet}
    {start : NatSet} (first : Below bound start) (each : ∀ item ∈ items, Below bound (give item)) :
    Below bound (items.foldl (fun found item => NatSet.union found (give item)) start) := by
  induction items generalizing start with
  | nil => exact first
  | cons item rest ih =>
    exact ih (first.union (each item (by simp))) fun other member => each other (by simp [member])

end NatSet

namespace Relation

variable {relation : Relation} {key : Nat} {items : NatSet}

theorem below_imageAll (below : ∀ key, NatSet.Below bound (relation.image key))
    (keys : List Nat) : NatSet.Below bound (relation.imageAll keys) :=
  NatSet.below_foldl_union (NatSet.below_nil bound) fun key _ => below key

theorem image_insert (relation : Relation) (key other : Nat) (items : NatSet) :
    image (Std.TreeMap.insert relation key items) other =
      if key = other then items else relation.image other := by
  simp [image, Std.TreeMap.getD_insert]

section

variable (old : NatSet.Sorted (relation.image key)) (new : NatSet.Sorted items)

include old new

theorem image_extend (other : Nat) : (relation.extend key items).1.image other =
      if key = other then NatSet.union (relation.image key) items else relation.image other := by
  simp only [extend]
  split
  case isTrue same =>
    split
    · rename_i here
      subst here
      exact (old.union_eq new same).symm
    · rfl
  case isFalse => exact image_insert ..

theorem mem_image_extend {other : Nat} : x ∈ (relation.extend key items).1.image other ↔
      x ∈ relation.image other ∨ key = other ∧ x ∈ items := by
  rw [image_extend old new]
  by_cases here : key = other
  · subst here
    simp [NatSet.mem_union]
  · simp [here]

theorem length_image_extend (other : Nat) : ((relation.extend key items).1.image other).length =
      (relation.image other).length + if key = other then (relation.extend key items).2 else 0 := by
  rw [image_extend old new]
  by_cases here : key = other
  · subst here
    have grown := @NatSet.Sorted.length_le_union _ items old
    simp only [if_true, extend]
    split
    · omega
    · omega
  · simp [here]

theorem sum_extend {keys : Finset Nat} (member : key ∈ keys) :
    ∑ other ∈ keys, ((relation.extend key items).1.image other).length =
      ∑ other ∈ keys, (relation.image other).length + (relation.extend key items).2 := by
  simp only [length_image_extend old new, Finset.sum_add_distrib, Finset.sum_ite_eq, member, if_true]

theorem extend_quiet (quiet : (relation.extend key items).2 = 0) :
    (relation.extend key items).1 = relation ∧ ∀ x ∈ items, x ∈ relation.image key := by
  have grown := @NatSet.Sorted.length_le_union _ items old
  have same : (NatSet.union (relation.image key) items).length = (relation.image key).length := by
    simp only [extend] at quiet
    split at quiet
    · assumption
    · omega
  refine ⟨by simp [extend, same], fun x member => ?_⟩
  rw [← old.union_eq new same]
  exact (NatSet.mem_union _ _).mpr (.inr member)

end

theorem below_extend (old : ∀ key, NatSet.Below bound (relation.image key))
    (new : NatSet.Below bound items) (other : Nat) :
    NatSet.Below bound ((relation.extend key items).1.image other) := by
  rw [image_extend (old key).1 new.1]
  split
  · exact (old key).union new
  · exact old other

theorem mem_extend {other : Nat} (present : other ∈ (relation.extend key items).1) :
    other ∈ relation ∨ other = key := by
  simp only [extend] at present
  split at present
  · exact .inl present
  · rcases Std.TreeMap.mem_insert.mp present with same | old
    · exact .inr (Std.LawfulEqOrd.eq_of_compare same).symm
    · exact .inl old

end Relation

namespace Store

variable {store : Store} {owner : Nat} {key : String} {items : NatSet}

section

variable (old : NatSet.Sorted (store.get owner key)) (new : NatSet.Sorted items)

include old new

theorem get_extend (place : Nat) (name : String) : (store.extend owner key items).1.get place name =
      if owner = place ∧ key = name then NatSet.union (store.get owner key) items
      else store.get place name := by
  simp only [extend]
  split
  case isTrue same =>
    split
    · rename_i here
      obtain ⟨rfl, rfl⟩ := here
      exact (old.union_eq new same).symm
    · rfl
  case isFalse =>
    by_cases there : owner = place
    · subst there
      by_cases here : key = name
      · subst here
        simp [get]
      · simp [get, Std.TreeMap.getD_insert, here]
    · simp [get, Std.TreeMap.getD_insert, there]

theorem mem_get_extend {name : String} :
    x ∈ (store.extend owner key items).1.get place name ↔
      x ∈ store.get place name ∨ (owner = place ∧ key = name) ∧ x ∈ items := by
  rw [get_extend old new]
  by_cases here : owner = place ∧ key = name
  · obtain ⟨rfl, rfl⟩ := here
    simp [NatSet.mem_union]
  · simp [here]

theorem length_get_extend (place : Nat) (name : String) :
    ((store.extend owner key items).1.get place name).length = (store.get place name).length +
      if owner = place ∧ key = name then (store.extend owner key items).2 else 0 := by
  rw [get_extend old new]
  by_cases here : owner = place ∧ key = name
  · obtain ⟨rfl, rfl⟩ := here
    have grown := @NatSet.Sorted.length_le_union _ items old
    simp only [and_self, if_true, extend]
    split
    · omega
    · omega
  · simp [here]

theorem sum_extend {owners : Finset Nat} {keys : Finset String} (isOwner : owner ∈ owners)
    (isKey : key ∈ keys) :
    ∑ place ∈ owners, ∑ name ∈ keys, ((store.extend owner key items).1.get place name).length =
      ∑ place ∈ owners, ∑ name ∈ keys, (store.get place name).length +
        (store.extend owner key items).2 := by
  simp only [length_get_extend old new, Finset.sum_add_distrib, ite_and, Finset.sum_ite_irrel,
    Finset.sum_ite_eq, isKey, if_true, Finset.sum_const_zero, isOwner]

theorem extend_quiet (quiet : (store.extend owner key items).2 = 0) :
    (store.extend owner key items).1 = store ∧ ∀ x ∈ items, x ∈ store.get owner key := by
  have grown := @NatSet.Sorted.length_le_union _ items old
  have same : (NatSet.union (store.get owner key) items).length = (store.get owner key).length := by
    simp only [extend] at quiet
    split at quiet
    · assumption
    · omega
  refine ⟨by simp [extend, same], fun x member => ?_⟩
  rw [← old.union_eq new same]
  exact (NatSet.mem_union _ _).mpr (.inr member)

end

theorem below_extend (old : ∀ owner key, NatSet.Below bound (store.get owner key))
    (new : NatSet.Below bound items) (place : Nat) (name : String) :
    NatSet.Below bound ((store.extend owner key items).1.get place name) := by
  rw [get_extend (old owner key).1 new.1]
  split
  · exact (old owner key).union new
  · exact old place name

theorem mem_extend (present : place ∈ (store.extend owner key items).1) :
    place ∈ store ∨ place = owner := by
  simp only [extend] at present
  split at present
  · exact .inl present
  · rcases Std.TreeMap.mem_insert.mp present with same | old
    · exact .inr (Std.LawfulEqOrd.eq_of_compare same).symm
    · exact .inl old

theorem getAny_eq (store : Store) (owner : Nat) :
    store.getAny owner = (store.getD owner ∅).toList.foldl
      (fun found entry => NatSet.union found entry.2) [] := by
  rw [getAny, Std.TreeMap.foldl_eq_foldl_toList]

theorem mem_getAny (store : Store) (owner : Nat) :
    x ∈ store.getAny owner ↔ ∃ key, x ∈ store.get owner key := by
  rw [getAny_eq, NatSet.mem_foldl_union]
  simp only [List.not_mem_nil, false_or, Prod.exists, Std.TreeMap.mem_toList_iff_getElem?_eq_some,
    get, Std.TreeMap.getD_eq_getD_getElem?]
  constructor
  · rintro ⟨key, items, found, member⟩
    exact ⟨key, by simpa [found] using member⟩
  · rintro ⟨key, member⟩
    cases found : (store[owner]?.getD ∅)[key]? with
    | none => simp [found] at member
    | some items => exact ⟨key, items, found, by simpa [found] using member⟩

theorem below_getAny (below : ∀ key, NatSet.Below bound (store.get owner key)) :
    NatSet.Below bound (store.getAny owner) := by
  rw [getAny_eq]
  refine NatSet.below_foldl_union (NatSet.below_nil bound) ?_
  rintro ⟨key, items⟩ member
  rw [Std.TreeMap.mem_toList_iff_getElem?_eq_some] at member
  have here := below key
  rw [get, Std.TreeMap.getD_eq_getD_getElem? (a := key), member] at here
  exact here

end Store

end Seepage

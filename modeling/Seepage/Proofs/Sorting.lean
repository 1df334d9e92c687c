import Mathlib.Data.List.Perm.Basic
import Seepage.Graph.Edge

set_option autoImplicit false

namespace Seepage

open List

theorem filter_flatMap_of_mem {α β : Type} {items : List α} {values : α → List β} {test : β → Bool}
    {item : α} (distinct : items.Nodup) (member : item ∈ items)
    (others : ∀ other ∈ items, other ≠ item → ∀ value ∈ values other, test value = false) :
    (items.flatMap values).filter test = (values item).filter test := by
  induction items with
  | nil => cases member
  | cons first rest ih =>
    have later := nodup_cons.mp distinct
    rw [flatMap_cons, filter_append]
    rcases mem_cons.mp member with rfl | inRest
    · have none : (rest.flatMap values).filter test = [] := by
        simp only [filter_eq_nil_iff, mem_flatMap, Bool.not_eq_true]
        rintro value ⟨other, inside, given⟩
        refine others other (mem_cons_of_mem _ inside) ?_ value given
        rintro rfl
        exact later.1 inside
      rw [none, append_nil]
    · have none : (values first).filter test = [] := by
        simp only [filter_eq_nil_iff, Bool.not_eq_true]
        refine others first mem_cons_self ?_
        rintro rfl
        exact later.1 inRest
      rw [none]
      exact ih later.2 inRest fun other inside => others other (mem_cons_of_mem _ inside)

structure LinearTest {α : Type} (le : α → α → Bool) : Prop where
  trans : ∀ a b c, le a b = true → le b c = true → le a c = true
  total : ∀ a b, (le a b || le b a) = true
  antisymm : ∀ a b, le a b = true → le b a = true → a = b

theorem LinearTest.ofCmp {α : Type} (cmp : α → α → Ordering) [Std.TransCmp cmp]
    [Std.LawfulEqCmp cmp] : LinearTest fun a b => (cmp a b).isLE where
  trans _ _ _ first second := Std.TransCmp.isLE_trans first second
  total a b := by
    cases direction : cmp a b with
    | lt | eq => simp
    | gt =>
      have reverse : cmp b a = .lt := Std.OrientedCmp.lt_of_gt direction
      simp [reverse]
  antisymm a b first second :=
    Std.LawfulEqCmp.eq_of_compare (Std.OrientedCmp.isLE_antisymm first second)

section

variable {α : Type} [DecidableEq α]

theorem dropRepeats_sublist (items : List α) : (dropRepeats items).Sublist items := by
  induction items using dropRepeats.induct with
  | case1 | case2 => simp [dropRepeats]
  | case3 y rest ih =>
    rw [dropRepeats, if_pos rfl]
    exact ih.trans (sublist_cons_self _ _)
  | case4 x y rest differ ih =>
    rw [dropRepeats, if_neg differ]
    exact ih.cons_cons x

theorem mem_dropRepeats {x : α} (items : List α) : x ∈ dropRepeats items ↔ x ∈ items := by
  induction items using dropRepeats.induct with
  | case1 | case2 => simp [dropRepeats]
  | case3 y rest ih =>
    rw [dropRepeats, if_pos rfl, ih]
    simp
  | case4 a b rest differ ih =>
    rw [dropRepeats, if_neg differ, mem_cons, ih, ← mem_cons]

theorem head?_dropRepeats (items : List α) : (dropRepeats items).head? = items.head? := by
  induction items using dropRepeats.induct with
  | case1 | case2 => simp [dropRepeats]
  | case3 y rest ih =>
    rw [dropRepeats, if_pos rfl, ih]
    rfl
  | case4 x y rest differ _ =>
    rw [dropRepeats, if_neg differ]
    rfl

theorem nodup_dropRepeats {le : α → α → Bool} (linear : LinearTest le) (items : List α)
    (sorted : items.Pairwise (le · · = true)) : (dropRepeats items).Nodup := by
  induction items using dropRepeats.induct with
  | case1 | case2 => simp [dropRepeats]
  | case3 y rest ih =>
    rw [dropRepeats, if_pos rfl]
    exact ih (pairwise_cons.mp sorted).2
  | case4 x y rest differ ih =>
    obtain ⟨least, later⟩ := pairwise_cons.mp sorted
    rw [dropRepeats, if_neg differ, nodup_cons]
    refine ⟨?_, ih later⟩
    -- A second `x` behind `y` would put `y` on both sides of it.
    intro again
    rcases mem_cons.mp ((mem_dropRepeats _).mp again) with same | behind
    · exact differ same
    · have below : le y x = true := (pairwise_cons.mp later).1 x behind
      exact differ (linear.antisymm x y (least y (by simp)) below)

theorem mem_sortDistinct {x : α} (le : α → α → Bool) (items : List α) :
    x ∈ sortDistinct le items ↔ x ∈ items := by
  simp [sortDistinct, mem_dropRepeats]

section

variable {le : α → α → Bool} (linear : LinearTest le)

include linear

theorem pairwise_sortDistinct (items : List α) : (sortDistinct le items).Pairwise (le · · = true) :=
  (pairwise_mergeSort linear.trans linear.total items).sublist (dropRepeats_sublist _)

theorem nodup_sortDistinct (items : List α) : (sortDistinct le items).Nodup :=
  nodup_dropRepeats linear _ (pairwise_mergeSort linear.trans linear.total items)

theorem sortDistinct_congr {items others : List α} (same : ∀ x, x ∈ items ↔ x ∈ others) :
    sortDistinct le items = sortDistinct le others := by
  refine List.Perm.eq_of_pairwise (fun a b _ _ => linear.antisymm a b)
    (pairwise_sortDistinct linear items) (pairwise_sortDistinct linear others) ?_
  rw [perm_ext_iff_of_nodup (nodup_sortDistinct linear _) (nodup_sortDistinct linear _)]
  simpa [mem_sortDistinct] using same

theorem filter_sortDistinct (test : α → Bool) (items : List α) :
    (sortDistinct le items).filter test = sortDistinct le (items.filter test) := by
  refine List.Perm.eq_of_pairwise (fun a b _ _ => linear.antisymm a b)
    ((pairwise_sortDistinct linear items).filter _) (pairwise_sortDistinct linear _) ?_
  rw [perm_ext_iff_of_nodup ((nodup_sortDistinct linear _).filter _)
    (nodup_sortDistinct linear _)]
  simp [mem_sortDistinct]

end

end

section

variable {α : Type} {le : α → α → Bool}
  (trans : ∀ a b c, le a b = true → le b c = true → le a c = true)
  (total : ∀ a b, (le a b || le b a) = true)

include trans total

theorem exists_mergeSort_cons (item : α) (rest : List α) :
    ∃ smaller others, (item :: rest).mergeSort le = smaller ++ item :: others ∧
      rest.mergeSort le = smaller ++ others ∧ (∀ other ∈ smaller, (!le item other) = true) ∧
      ∀ other ∈ others, le item other = true := by
  obtain ⟨smaller, others, sorted, same, less⟩ := mergeSort_cons trans total item rest
  refine ⟨smaller, others, sorted, same, less, ?_⟩
  have ordered := pairwise_mergeSort trans total (item :: rest)
  rw [sorted, pairwise_append] at ordered
  exact (pairwise_cons.mp ordered.2.1).1

omit trans total in
theorem cut_unique {item : α} {smaller others smaller' others' : List α}
    (same : smaller ++ others = smaller' ++ others')
    (less : ∀ other ∈ smaller, (!le item other) = true) (more : ∀ other ∈ others, le item other = true)
    (less' : ∀ other ∈ smaller', (!le item other) = true)
    (more' : ∀ other ∈ others', le item other = true) : smaller = smaller' ∧ others = others' := by
  have cut : ∀ first last : List α, (∀ other ∈ first, (!le item other) = true) →
      (∀ other ∈ last, le item other = true) → (first ++ last).takeWhile (!le item ·) = first := by
    intro first last small large
    rw [takeWhile_append_of_pos small]
    cases last with
    | nil => simp
    | cons other others => simp [large other]
  have front : smaller = smaller' := by
    rw [← cut smaller others less more, same, cut smaller' others' less' more']
  subst front
  exact ⟨rfl, append_cancel_left same⟩

theorem filter_mergeSort (test : α → Bool) (items : List α) :
    (items.mergeSort le).filter test = (items.filter test).mergeSort le := by
  induction items with
  | nil => simp
  | cons item rest ih =>
    obtain ⟨smaller, others, sorted, same, less, more⟩ :=
      exists_mergeSort_cons trans total item rest
    rw [same, filter_append] at ih
    rw [sorted, filter_append]
    by_cases kept : test item = true
    · obtain ⟨smaller', others', sorted', same', less', more'⟩ :=
        exists_mergeSort_cons trans total item (rest.filter test)
      rw [filter_cons_of_pos kept, filter_cons_of_pos kept, sorted']
      obtain ⟨front, back⟩ := cut_unique (ih.trans same')
        (fun other member => less other (mem_filter.mp member).1)
        (fun other member => more other (mem_filter.mp member).1) less' more'
      rw [front, back]
    · rw [filter_cons_of_neg kept, filter_cons_of_neg kept, ih]

end

theorem nodup_eraseDups {α : Type} [BEq α] [LawfulBEq α] (items : List α) : items.eraseDups.Nodup := by
  induction size : items.length using Nat.strongRecOn generalizing items with
  | ind length ih =>
    cases items with
    | nil => simp
    | cons item rest =>
      rw [eraseDups_cons, nodup_cons]
      have shorter := length_filter_le (fun other => !other == item) rest
      refine ⟨by simp [mem_eraseDups], ih _ ?_ _ rfl⟩
      rw [← size, length_cons]
      omega

theorem eraseDups_eq_self {α : Type} [BEq α] [LawfulBEq α] {items : List α} (distinct : items.Nodup) :
    items.eraseDups = items := by
  induction items with
  | nil => rfl
  | cons item rest ih =>
    obtain ⟨fresh, later⟩ := nodup_cons.mp distinct
    have kept : rest.filter (fun other => !other == item) = rest := by
      refine filter_eq_self.mpr fun other member => ?_
      have differ : other ≠ item := by
        rintro rfl
        exact fresh member
      simpa using differ
    rw [eraseDups_cons, kept, ih later]

theorem mem_sortEdges {edge : Edge} (edges : List Edge) : edge ∈ sortEdges edges ↔ edge ∈ edges :=
  mem_sortDistinct _ _

end Seepage

import Seepage.Proofs.Sorting
import Seepage.Taint.Label

set_option autoImplicit false

namespace Seepage

open Taint Markup

instance : Std.TransCmp Binding.cmp :=
  inferInstanceAs <| Std.TransCmp
    (compareLex (compareLex (compareLex (compareLex (compareLex
      (compareOn Binding.file) (compareOn Binding.name))
      (compareOn Binding.line)) (compareOn Binding.element))
      (compareOn Binding.inputType)) (compareOn Binding.handler))

instance : Std.LawfulEqCmp Binding.cmp where
  eq_of_compare {a b} same := by
    simp only [Binding.cmp, Ordering.then_eq_eq, Std.LawfulEqOrd.compare_eq_iff_eq,
      and_assoc] at same
    cases a
    simp_all

theorem transCmp_image {α β : Type} (cmp : β → β → Ordering) [Std.TransCmp cmp] (f : α → β) :
    Std.TransCmp fun a b => cmp (f a) (f b) where
  eq_swap := Std.OrientedCmp.eq_swap
  isLE_trans := Std.TransCmp.isLE_trans

theorem linear_pair {α β γ : Type} (first : β → β → Ordering) (second : γ → γ → Ordering)
    [Std.TransCmp first] [Std.LawfulEqCmp first] [Std.TransCmp second] [Std.LawfulEqCmp second]
    (f : α → β) (g : α → γ) (determined : ∀ a b, f a = f b → g a = g b → a = b) :
    LinearTest fun a b => ((first (f a) (f b)).then (second (g a) (g b))).isLE := by
  have firstTrans := transCmp_image first f
  have secondTrans := transCmp_image second g
  have trans : Std.TransCmp fun a b => (first (f a) (f b)).then (second (g a) (g b)) :=
    inferInstanceAs <| Std.TransCmp
      (compareLex (fun a b => first (f a) (f b)) (fun a b => second (g a) (g b)))
  have lawful : Std.LawfulEqCmp fun a b => (first (f a) (f b)).then (second (g a) (g b)) := by
    refine ⟨fun {a b} same => ?_⟩
    obtain ⟨left, right⟩ := Ordering.then_eq_eq.mp same
    exact determined a b (Std.LawfulEqCmp.eq_of_compare left) (Std.LawfulEqCmp.eq_of_compare right)
  exact .ofCmp _

theorem linear_markupEdge : LinearTest MarkupEdge.le := by
  refine linear_pair Binding.cmp compare MarkupEdge.binding MarkupEdge.target ?_
  rintro ⟨_, _⟩ ⟨_, _⟩ rfl rfl
  rfl

namespace Taint

instance : Std.TransCmp Label.cmp where
  eq_swap {a b} := by
    cases a <;> cases b
    · simp only [Label.cmp, Ordering.swap_then]
      rw [@Std.OrientedCmp.eq_swap String compare, @Std.OrientedCmp.eq_swap GlobalNode compare]
    · rfl
    · rfl
    · exact @Std.OrientedCmp.eq_swap _ Binding.cmp _ _ _
  isLE_trans {a b c} first second := by
    cases a with
    | api name site =>
      cases c with
      | markup _ => rfl
      | api name' site' =>
        cases b with
        | markup _ => simp [Label.cmp] at second
        | api between place =>
          let sites : String × GlobalNode → String × GlobalNode → Ordering :=
            compareLex (compareOn Prod.fst) (compareOn Prod.snd)
          have trans : Std.TransCmp sites := inferInstance
          exact trans.isLE_trans (a := (name, site)) (b := (between, place)) (c := (name', site'))
            first second
    | markup _ =>
      cases b with
      | api _ _ => simp [Label.cmp] at first
      | markup _ =>
        cases c with
        | api _ _ => simp [Label.cmp] at second
        | markup _ => exact @Std.TransCmp.isLE_trans _ Binding.cmp _ _ _ _ first second

instance : Std.LawfulEqCmp Label.cmp where
  eq_of_compare {a b} same := by
    cases a <;> cases b <;> simp only [Label.cmp, Ordering.then_eq_eq, reduceCtorEq] at same
    · obtain ⟨name, site⟩ := same
      rw [Std.LawfulEqCmp.eq_of_compare name, Std.LawfulEqCmp.eq_of_compare site]
    · rw [Std.LawfulEqCmp.eq_of_compare same]

theorem linear_seed : LinearTest Seed.le := by
  refine linear_pair Label.cmp compare Seed.label Seed.node ?_
  rintro ⟨_, _⟩ ⟨_, _⟩ rfl rfl
  rfl

end Taint

end Seepage

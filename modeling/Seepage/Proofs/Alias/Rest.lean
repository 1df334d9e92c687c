import Seepage.Proofs.Alias.Solution

set_option autoImplicit false

namespace Seepage

namespace Alias

variable {problem : Problem} {state : State}

theorem apply_pass (coherent : problem.Coherent) (valid : Valid problem.arena state)
    (quiet : (pass problem state).facts = state.facts) {rule : Rule} (member : rule ∈ problem.rules)
    (steady : Steady problem (pass problem state) rule) :
    rule.apply problem (pass problem state) = pass problem state := by
  have kept := @adds_kept problem state Rule (fun state rule => rule.apply problem state)
    problem.rules.reverse
    (fun state rule => Steady problem state rule → Idle problem state (rule.apply problem))
    (fun held later idle steady => (idle ((later.same held).steady steady)).later later) valid
    fun middle held _ rule listed => by
      have member := List.mem_reverse.mp listed
      have steps := (adds_apply coherent held member).1
      refine ⟨steps, fun still steady => ?_⟩
      have earlier := (Steps.same steps held still).steady steady
      exact ((completes_apply coherent held member earlier).2 still).2
  rw [← List.foldr_eq_foldl_reverse] at kept
  exact kept.2 quiet rule (List.mem_reverse.mpr member) steady _ (.refl _)

theorem apply_solution {file : Script.File} {arena : Arena} (read : Arena.ofFile file = .ok arena)
    (options : Options) :
    let heap := Solution.onPage arena options
    ∀ rule ∈ heap.problem.rules, Steady heap.problem heap.state rule →
      rule.apply heap.problem heap.state = heap.state := by
  intro heap rule member steady
  have well := Arena.wellNumbered_ofFile read
  have coherent : heap.problem.Coherent := coherent_ofArena well (Resolution.ofArena arena) options
  obtain ⟨valid, facts, -⟩ := initial_spec well
  obtain ⟨before, steps, last, quiet⟩ := @iterate_last heap.problem _ coherent
    (heap.problem.factBound + 1) 0 valid (by simp [facts]) (by omega)
  have final : heap.state = pass heap.problem before := last
  rw [final] at steady ⊢
  exact apply_pass coherent (Steps.valid steps valid) quiet member steady

-- `o.f = o; o.g();`
def detached : Script.File := .sample [
  .expr (.assign "=" (.member (.ident "o") (.named "f") false {}) (.ident "o") {}) {},
  .expr (.call (.member (.ident "o") (.named "g") false {}) [] false {}) {}]

theorem apply_solution_detached : ∃ arena, Arena.ofFile detached = .ok arena ∧
      let heap := Solution.onPage arena { prototypeFallback := false }
      ∀ rule ∈ [Rule.write 5 6 (some "f") 7, Rule.read 11 (some "g") 10],
        rule ∈ heap.problem.rules ∧ Steady heap.problem heap.state rule ∧
          rule.apply heap.problem heap.state = heap.state := by
  obtain ⟨arena, read⟩ : ∃ arena, Arena.ofFile detached = .ok arena := ⟨_, rfl⟩
  refine ⟨arena, read, ?_⟩
  intro heap
  have listed : ∀ rule ∈ [Rule.write 5 6 (some "f") 7, Rule.read 11 (some "g") 10],
      rule ∈ heap.problem.rules := by
    cases read
    decide +kernel
  have steady : ∀ rule ∈ [Rule.write 5 6 (some "f") 7, Rule.read 11 (some "g") 10],
      Steady heap.problem heap.state rule := by
    intro rule member
    rcases List.mem_pair.mp member with rfl | rfl
    · trivial
    · exact .inr rfl
  exact fun rule member => ⟨listed rule member, steady rule member,
    apply_solution read _ rule (listed rule member) (steady rule member)⟩

end Alias

end Seepage

import Seepage.Graph.FileGraph

set_option autoImplicit false

namespace Seepage

open List

namespace Budget

variable {budget : Budget}

theorem check_of_charge {bytes : Nat} {next : Budget} (paid : budget.charge bytes = .ok next) :
    next.check = .ok () := by
  unfold charge at paid
  cases calm : (budget.add bytes).check with
  | error overrun => simp [calm, bind, Except.bind] at paid
  | ok =>
    simp only [calm, bind, Except.bind, pure, Except.pure, Except.ok.injEq] at paid
    rw [← paid]
    exact calm

theorem check_unlimited (unlimited : budget.ceiling = none) : budget.check = .ok () := by
  simp [check, overrun?, unlimited]

theorem check_of_le {ceiling : Nat} (limited : budget.ceiling = some ceiling)
    (inside : budget.charged ≤ ceiling) : budget.check = .ok () := by
  have calm : ¬ceiling < budget.charged := by omega
  simp [check, overrun?, limited, calm]

theorem checkEvery_of_check (calm : budget.check = .ok ()) (interval round : Nat) :
    budget.checkEvery interval round = .ok () := by
  rw [checkEvery, calm, ite_self]

def chargeAll (budget : Budget) (charges : List Nat) : Except Overrun Budget :=
  charges.foldlM charge budget

theorem chargeAll_unlimited (unlimited : budget.ceiling = none) (charges : List Nat) :
    budget.chargeAll charges = .ok (charges.foldl add budget) := by
  induction charges generalizing budget with
  | nil => rfl
  | cons bytes rest ih =>
    have calm : (budget.add bytes).check = .ok () := check_unlimited unlimited
    rw [chargeAll, foldlM_cons, charge, calm]
    exact @ih (budget.add bytes) unlimited

theorem ceiling_foldl_add (budget : Budget) (charges : List Nat) :
    (charges.foldl add budget).ceiling = budget.ceiling := by
  induction charges generalizing budget with
  | nil => rfl
  | cons bytes rest ih =>
    rw [foldl_cons, ih]
    rfl

end Budget

section

variable {budget : Budget} (calm : budget.check = .ok ())

include calm

namespace Reaching

theorem runWithin_of_check (use : VariableUse) (graph : ControlGraph) (earlier fuel : Nat)
    (progress : Progress) :
    runWithin budget use graph earlier fuel progress = .ok (run use graph fuel progress) := by
  induction fuel generalizing progress with
  | zero => rfl
  | succ fuel ih =>
    rw [runWithin, run]
    split
    case h_1 => rfl
    case h_2 vertex rest _ =>
      rw [Budget.checkEvery_of_check calm]
      exact ih _

theorem solveAll_of_check (use : VariableUse) (earlier : Nat) (graphs : List ControlGraph) :
    solveAll budget use earlier graphs = .ok (graphs.map fun graph => (graph, solve use graph)) := by
  induction graphs generalizing earlier with
  | nil => rfl
  | cons graph rest ih =>
    simp only [solveAll, runWithin_of_check calm, bind, Except.bind, ih]
    rfl

end Reaching

theorem DataFlow.build_of_check (arena : Arena) (resolution : Resolution) (control : ControlFlow) :
    build arena resolution control budget = .ok (ofArena arena resolution control) := by
  rw [build, Reaching.solveAll_of_check calm]
  rfl

namespace Alias

theorem iterateWithin_of_check (problem : Problem) (fuel passes : Nat) (state : State) :
    iterateWithin budget problem fuel passes state = .ok (iterate problem fuel passes state) := by
  induction fuel generalizing passes state with
  | zero => rfl
  | succ fuel ih =>
    simp only [iterateWithin, iterate, calm, bind, Except.bind]
    split
    · rfl
    · exact ih _ _

theorem Solution.build_of_check (arena : Arena) (resolution : Resolution)
    (copies : List (Nat × Nat)) (options : Options) :
    build arena resolution copies options budget =
      .ok (ofArena arena resolution copies options) := by
  rw [build, iterateWithin_of_check calm]
  rfl

end Alias

end

namespace FileGraph

def assemble (arena : Arena) (options : Alias.Options) : FileGraph :=
  let resolution := Resolution.ofArena arena
  let control := ControlFlow.ofArena arena
  let flow := DataFlow.ofArena arena resolution control
  let heap := Alias.Solution.ofArena arena resolution flow.copies options
  ofEdges arena resolution control heap
    (sortEdges (flow.edges ++ (heap.propertyEdges ++ heap.callEdges) ++ controlEdges control))

def charges (arena : Arena) (options : Alias.Options) : List Nat :=
  let resolution := Resolution.ofArena arena
  let control := ControlFlow.ofArena arena
  let flow := DataFlow.ofArena arena resolution control
  let heap := Alias.Solution.ofArena arena resolution flow.copies options
  [arena.size * nodeCost, control.edgeCount * edgeCost,
    (flow.edges.length + flow.copies.length) * edgeCost,
    heap.locationCount * locationCost + (heap.propertyEdges ++ heap.callEdges).length * edgeCost]

theorem build_eq (arena : Arena) (options : Alias.Options) (budget : Budget) :
    build arena options budget =
      (budget.chargeAll (charges arena options)).map (assemble arena options, ·) := by
  -- Every check stands behind a charge that went through.
  simp only [build, Budget.chargeAll, charges, foldlM_cons, foldlM_nil, bind, Except.bind]
  cases nodes : budget.charge (arena.size * nodeCost) with
  | error overrun => rfl
  | ok budget =>
  simp only
  cases control : budget.charge ((ControlFlow.ofArena arena).edgeCount * edgeCost) with
  | error overrun => rfl
  | ok budget =>
  simp only [DataFlow.build_of_check (Budget.check_of_charge control)]
  split
  · rfl
  case h_2 budget flow =>
  simp only [Alias.Solution.build_of_check (Budget.check_of_charge flow)]
  split
  · rfl
  · rfl

theorem eq_assemble_of_build {arena : Arena} {options : Alias.Options} {budget rest : Budget}
    {graph : FileGraph} (built : build arena options budget = .ok (graph, rest)) :
    graph = assemble arena options := by
  rw [build_eq] at built
  cases charged : budget.chargeAll (charges arena options) with
  | error overrun => simp [charged, Except.map] at built
  | ok paid =>
    rw [charged] at built
    cases built
    rfl

theorem build_unlimited (arena : Arena) (options : Alias.Options) {budget : Budget}
    (unlimited : budget.ceiling = none) : build arena options budget =
      .ok (assemble arena options, (charges arena options).foldl Budget.add budget) := by
  rw [build_eq, Budget.chargeAll_unlimited unlimited]
  rfl

end FileGraph

end Seepage

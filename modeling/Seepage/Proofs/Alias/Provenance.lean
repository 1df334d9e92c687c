import Seepage.Proofs.Alias.Lookup
import Seepage.Proofs.Alias.Range
import Seepage.Proofs.Tree.Positions

set_option autoImplicit false

namespace Seepage

open List Alias.Solution Arena

variable {items : NatSet} {call function owner writer : Nat} {arena : Arena} {key : Option String}

theorem Relation.ne_nil_of_extend {relation : Relation} {key item other : Nat}
    (filled : ∀ (key : Nat) items, relation[key]? = some items → items ≠ [])
    (found : (relation.extend key [item]).1[other]? = some items) : items ≠ [] := by
  simp only [extend] at found
  split at found
  · exact filled other items found
  · obtain ⟨-, rfl⟩ | old := eq_or_of_getElem?_insert found
    · exact ne_nil_of_mem ((NatSet.mem_union _ _).mpr (.inr mem_cons_self))
    · exact filled other items old

namespace Alias

variable {solution : Solution}

variable {problem : Problem} {state next : State}

structure Traced (problem : Problem) (state : State) : Prop where
  targets : ∀ call, ∀ function ∈ state.targets.image call, Calls problem state call function
  filled : ∀ (call : Nat) functions, state.targets[call]? = some functions → functions ≠ []
  stores : ∀ owner key, ∀ location ∈ state.stores.get owner key,
    ∃ writer ∈ state.writes.get owner key, Backs problem.arena state writer location

section

variable (traced : Traced problem state) (valid : Valid problem.arena state)

include traced valid

theorem Traced.grows (grows : Grows state next) (targets : next.targets = state.targets)
    (stores : next.stores = state.stores) : Traced problem next where
  targets call function member :=
    (traced.targets call function (targets ▸ member)).grows valid grows
  filled call functions found := traced.filled call functions (targets ▸ found)
  stores owner key location member := by
    obtain ⟨writer, known, backs⟩ := traced.stores owner key location (stores ▸ member)
    exact ⟨writer, grows.writes owner key writer known, backs.grows grows⟩

theorem Traced.addTarget (calls : Calls problem state call function) :
    Traced problem (state.addTarget call function) where
  targets other target member := by
    rcases (Relation.mem_image_extend (valid.targets call).1 (.singleton function)).mp member with
      old | ⟨rfl, new⟩
    · exact traced.targets other target old
    · obtain rfl := mem_singleton.mp new
      exact calls
  filled other functions found := Relation.ne_nil_of_extend traced.filled found
  stores := traced.stores

theorem Traced.addStore {key : String} (located : state.Located items)
    (backs : ∀ location ∈ items, Backs problem.arena state writer location) :
    Traced problem (state.addStore owner key items writer) where
  targets := traced.targets
  filled := traced.filled
  stores place name location member := by
    have writes : ∀ other, other ∈ (state.addStore owner key items writer).writes.get place name ↔
        other ∈ state.writes.get place name ∨ (owner = place ∧ key = name) ∧ other ∈ [writer] :=
      fun other => Store.mem_get_extend (valid.writes owner key).1 (.singleton writer)
    rcases (Store.mem_get_extend (valid.stores owner key).1 located.1).mp member with
      old | ⟨here, new⟩
    · obtain ⟨other, known, held⟩ := traced.stores place name location old
      exact ⟨other, (writes other).mpr (.inl known), held⟩
    · exact ⟨writer, (writes writer).mpr (.inr ⟨here, mem_cons_self⟩), backs location new⟩

end

theorem Step.traced (step : Step problem state next) (valid : Valid problem.arena state)
    (traced : Traced problem state) : Traced problem next := by
  have grows := step.grows valid
  cases step with
  | target isCall isFunction calls => exact traced.addTarget valid calls
  | store known listed located inside backs => exact traced.addStore valid located backs
  | unknownOwner isMember =>
    refine traced.grows valid grows ?_ ?_ <;> · unfold State.unknownOwner; split <;> rfl
  | external isCall =>
    refine traced.grows valid grows ?_ ?_ <;> · unfold State.external; split <;> rfl
  | _ => exact traced.grows valid grows rfl rfl

theorem Steps.traced (steps : Steps problem state next) (valid : Valid problem.arena state)
    (traced : Traced problem state) : Traced problem next := by
  induction steps with
  | refl => exact traced
  | tail earlier step ih => exact step.traced (Steps.valid earlier valid) ih

theorem traced_initial (problem : Problem) : Traced problem (.initial problem.arena) := by
  constructor <;> simp [targets_initial, stores_initial, Relation.image, Store.get]

theorem Reached.traced (reached : Reached problem state) (coherent : problem.Coherent) :
    Traced problem state := by
  induction reached with
  | start => exact traced_initial problem
  | apply earlier member ih =>
    have valid := earlier.valid coherent
    exact Steps.traced (adds_apply coherent valid member).1 valid ih

theorem Reached.recorded (reached : Reached problem state) (coherent : problem.Coherent) :
    Recorded state := by
  induction reached with
  | start => exact recorded_initial problem.arena
  | apply earlier member ih =>
    have valid := earlier.valid coherent
    exact Steps.recorded (adds_apply coherent valid member).1 valid ih

def IsConstructor (arena : Arena) (classNode function : Nat) : Prop :=
  (arena.kind function).isFunction ∧ ∃ before member after,
    arena.children classNode = before ++ member :: after ∧
      arena.kind member = .property (.named "constructor") ∧
      arena.propertyValue? member = some function ∧
      ∀ other ∈ before, arena.kind other = .property (.named "constructor") →
        arena.propertyValue? other = none

theorem constructorOf?_eq_some {classNode : Nat} :
    constructorOf? arena classNode = some function ↔ IsConstructor arena classNode function := by
  have named : ∀ member, ((arena.propertyKey? member).bind PropKey.name? == some "constructor") =
      true ↔ arena.kind member = .property (.named "constructor") := by
    intro member
    unfold propertyKey?
    split
    case h_1 key isProperty => cases key <;> simp [isProperty, PropKey.name?]
    case h_2 other =>
      refine ⟨by simp, fun isProperty => ?_⟩
      exact absurd isProperty (other _)
  have first : ∀ members : List Nat, (members.filter fun member =>
      (arena.propertyKey? member).bind PropKey.name? == some "constructor").findSome?
        arena.propertyValue? = members.findSome? fun member =>
          if arena.kind member = .property (.named "constructor") then arena.propertyValue? member
          else none := by
    intro members
    induction members with
    | nil => rfl
    | cons member rest ih =>
      simp only [filter_cons, named, findSome?_cons, ← ih]
      split <;> rfl
  simp only [constructorOf?, first, Option.filter_eq_some_iff, findSome?_eq_some_iff,
    Option.ite_none_right_eq_some, ite_eq_right_iff, IsConstructor]
  tauto

theorem targetOf?_eq_some {location : Location} :
    targetOf? arena location = some function ↔ location = ⟨.function, function⟩ ∨
      ∃ classNode, location = ⟨.classDef, classNode⟩ ∧ IsConstructor arena classNode function := by
  obtain ⟨kind, node⟩ := location
  cases kind <;> simp [targetOf?, constructorOf?_eq_some]

def MayCall (arena : Arena) (state : State) (callee function : Nat) : Prop :=
  ∃ id ∈ state.pointsTo callee, state.location id = ⟨.function, function⟩ ∨
    ∃ classNode, state.location id = ⟨.classDef, classNode⟩ ∧
      IsConstructor arena classNode function

theorem mem_targets_iff (coherent : problem.Coherent) (traced : Traced problem state)
    {callee : Nat} {isNew : Bool} (listed : .call call callee isNew ∈ problem.rules)
    (satisfied : Satisfied problem state (.call call callee isNew)) :
    function ∈ state.targets.image call ↔ MayCall problem.arena state callee function := by
  simp only [MayCall, ← targetOf?_eq_some]
  constructor
  · intro member
    obtain ⟨other, isNew', known, id, refers, target⟩ := traced.targets call function member
    have same := (coherent.within _ known).2.symm.trans (coherent.within _ listed).2
    obtain rfl := Option.some.inj same
    exact ⟨id, refers, target⟩
  · rintro ⟨id, refers, target⟩
    exact (satisfied.1 id refers function target).1

theorem exists_call_rule (well : arena.WellNumbered) (laid : arena.LaidOut)
    (resolution : Resolution) (copies : List (Nat × Nat)) (options : Options)
    (isCall : (arena.kind call).isCallLike) : ∃ callee isNew, arena.callee? call = some callee ∧
      .call call callee isNew ∈ (Problem.ofArena arena resolution copies options).rules := by
  obtain ⟨callee, -, found, -⟩ := exists_callee well laid isCall
  refine ⟨callee, arena.kind call = .new, found, ?_⟩
  have known : call < arena.size := by
    apply lt_size_of_kind
    intro isProgram
    rw [isProgram] at isCall
    cases isCall
  obtain ⟨tree, inside, rfl⟩ := well.exists_subtree known
  refine mem_append_right _ (mem_flatMap.mpr
    ⟨tree.label, (mem_nodes well).mpr ⟨tree, inside, rfl⟩, ?_⟩)
  rw [well.kind_eq inside] at isCall ⊢
  cases kind : tree.label.kind with
  | call | new => simp [Rule.ofNode, kind, found]
  | _ => simp [kind, Kind.isCallLike] at isCall

theorem callTargets_exact {file : Script.File} {arena : Arena}
    (read : Arena.ofFile file = .ok arena) (options : Options) :
    let heap := Solution.onPage arena options
    ∀ call, arena.kind call = .call ∨ arena.kind call = .new →
      ∃ callee, arena.callee? call = some callee ∧
        (∀ function, function ∈ heap.callTargets call ↔
          MayCall arena heap.state callee function) ∧
        (heap.state.targets[call]? = none ↔ ∀ function, ¬ MayCall arena heap.state callee function) := by
  intro heap call isCall
  have well := wellNumbered_ofFile read
  have sound : heap.Sound := sound_ofArena well (Resolution.ofArena arena) options
  have traced := sound.reached.traced sound.coherent
  have isCallLike : (arena.kind call).isCallLike := by
    rcases isCall with kind | kind <;> rw [kind] <;> rfl
  obtain ⟨callee, isNew, found, listed⟩ := exists_call_rule well (laidOut_ofFile read)
    (Resolution.ofArena arena) _ options isCallLike
  have exact : ∀ function, function ∈ heap.callTargets call ↔
      MayCall arena heap.state callee function := fun function =>
    mem_targets_iff sound.coherent traced listed
      (satisfied_solution well (Resolution.ofArena arena) options _ listed)
  refine ⟨callee, found, exact, ?_⟩
  simp only [← exact]
  constructor
  · intro absent function member
    simp [callTargets, Relation.image, Std.TreeMap.getD_eq_getD_getElem?, absent] at member
  · intro none
    cases present : heap.state.targets[call]? with
    | none => rfl
    | some functions =>
      obtain ⟨function, member⟩ := List.exists_mem_of_ne_nil _ (traced.filled call functions present)
      refine absurd ?_ (none function)
      simpa [callTargets, Relation.image, Std.TreeMap.getD_eq_getD_getElem?, present]
        using member

-- `class A { constructor() {} } var o = {a: A}; o.a = () => 0; new o.a();`
def replacedClass : Script.File := .sample [
  .classDecl (some "A") none [.constructor (.mk [] (.block (.mk [] {})) {})] {},
  .vars .varBinding [.mk (.ident "o") (some (.object [.keyed (.named "a") (.ident "A") {}] {})) {}]
    {},
  .expr (.assign "=" (.member (.ident "o") (.named "a") false {}) (.arrow (.mk [] (.expr (.literal
    (.number "0") {})) {})) {}) {},
  .expr (.new (.member (.ident "o") (.named "a") false {}) [] {}) {}]

theorem callTargets_exact_replacedClass : ∃ arena, Arena.ofFile replacedClass = .ok arena ∧
      let heap := Solution.onPage arena {}
      arena.kind 24 = .new ∧ arena.callee? 24 = some 25 ∧ heap.callTargets 24 = [5, 19] ∧
        MayCall arena heap.state 25 5 ∧ MayCall arena heap.state 25 19 ∧
        ¬ MayCall arena heap.state 25 3 := by
  obtain ⟨arena, read⟩ : ∃ arena, ofFile replacedClass = .ok arena := ⟨_, rfl⟩
  refine ⟨arena, read, ?_⟩
  intro heap
  obtain ⟨isNew, isCallee, targets⟩ : arena.kind 24 = .new ∧ arena.callee? 24 = some 25 ∧
      heap.callTargets 24 = [5, 19] := by
    cases read
    decide +kernel
  obtain ⟨callee, found, exact, -⟩ := callTargets_exact read {} 24 (.inr isNew)
  obtain rfl : 25 = callee := Option.some.inj (isCallee.symm.trans found)
  have listed : ∀ function, function ∈ [5, 19] ↔ MayCall arena heap.state 25 function :=
    fun function => targets ▸ exact function
  exact ⟨isNew, isCallee, targets, (listed 5).mp (by simp), (listed 19).mp (by simp),
    fun may => by simpa using (listed 3).mpr may⟩

theorem Traced.backed (traced : Traced problem state) {location : Nat}
    (stored : location ∈ state.stored owner key) :
    ∃ writer ∈ state.writers owner key, Backs problem.arena state writer location := by
  cases key with
  | some name =>
    rcases (NatSet.mem_union _ _).mp stored with here | anywhere
    · obtain ⟨writer, known, backs⟩ := traced.stores owner name location here
      exact ⟨writer, (NatSet.mem_union _ _).mpr (.inl known), backs⟩
    · obtain ⟨writer, known, backs⟩ := traced.stores owner anyKey location anywhere
      exact ⟨writer, (NatSet.mem_union _ _).mpr (.inr known), backs⟩
  | none =>
    obtain ⟨name, here⟩ := (Store.mem_getAny _ _).mp stored
    obtain ⟨writer, known, backs⟩ := traced.stores owner name location here
    exact ⟨writer, (Store.mem_getAny _ _).mpr ⟨name, known⟩, backs⟩

theorem Solution.mem_readEdges {object target : Nat} :
    .data writer target .propertyRead ∈
        solution.readEdges (.read object key target) ↔
      writer ≠ target ∧ ∃ owner ∈ (solution.readOwners object key).resolved,
        writer ∈ solution.state.writers owner key := by
  constructor
  · intro member
    obtain ⟨owner, resolved, found⟩ := mem_flatMap.mp member
    obtain ⟨other, kept, same⟩ := mem_map.mp found
    obtain rfl : other = writer := congrArg Edge.source same
    obtain ⟨known, differ⟩ := mem_filter.mp kept
    exact ⟨bne_iff_ne.mp differ, owner, resolved, known⟩
  · rintro ⟨differ, owner, resolved, known⟩
    exact mem_flatMap.mpr ⟨owner, resolved, mem_map.mpr
      ⟨writer, mem_filter.mpr ⟨known, bne_iff_ne.mpr differ⟩, rfl⟩⟩

theorem Solution.mem_propertyEdges_of_readEdges {rule : Rule} {edge : Edge}
    (listed : rule ∈ solution.problem.rules) (member : edge ∈ solution.readEdges rule) :
    edge ∈ solution.propertyEdges :=
  (mem_sortEdges _).mpr (mem_append_right _ (mem_flatMap.mpr ⟨rule, listed, member⟩))

theorem stored_backed {file : Script.File} {arena : Arena} (read : Arena.ofFile file = .ok arena)
    (options : Options) :
    let heap := Solution.onPage arena options
    (∀ reached, Reached heap.problem reached → ∀ state, Steps heap.problem reached state →
      ∀ owner key, ∀ location ∈ state.stores.get owner key,
        ∃ writer ∈ state.writes.get owner key, Backs arena state writer location) ∧
    Reached heap.problem heap.state ∧
    ∀ object key target, .read object key target ∈ heap.problem.rules →
      ∀ owner ∈ (heap.readOwners object key).resolved, ∀ location ∈ heap.state.stored owner key,
        ∃ writer ∈ heap.state.writers owner key, Backs arena heap.state writer location ∧
          (writer ≠ target → .data writer target .propertyRead ∈ heap.propertyEdges) := by
  intro heap
  have well := wellNumbered_ofFile read
  have sound : heap.Sound := sound_ofArena well (Resolution.ofArena arena) options
  refine ⟨fun reached known state steps => ?_, sound.reached, ?_⟩
  · exact (Steps.traced steps (known.valid sound.coherent) (known.traced sound.coherent)).stores
  · intro object key target listed owner resolved location stored
    obtain ⟨writer, known, backs⟩ := (sound.reached.traced sound.coherent).backed stored
    refine ⟨writer, known, backs, fun differ => ?_⟩
    exact mem_propertyEdges_of_readEdges listed
      (mem_readEdges.mpr ⟨differ, owner, resolved, known⟩)

theorem stored_backed_replacedClass : ∃ arena, Arena.ofFile replacedClass = .ok arena ∧
      let heap := Solution.onPage arena {}
      .read 26 (some "a") 25 ∈ heap.problem.rules ∧
        3 ∈ (heap.readOwners 26 (some "a")).resolved ∧
        heap.state.stored 3 (some "a") = [1, 4] ∧ heap.state.writers 3 (some "a") = [13, 17] ∧
        written? arena 13 = some 14 ∧ written? arena 17 = some 19 ∧
        ∀ location ∈ [1, 4], ∃ writer ∈ [13, 17], Backs arena heap.state writer location ∧
          .data writer 25 .propertyRead ∈ heap.propertyEdges := by
  obtain ⟨arena, read⟩ : ∃ arena, ofFile replacedClass = .ok arena := ⟨_, rfl⟩
  refine ⟨arena, read, ?_⟩
  intro heap
  obtain ⟨listed, resolved, stored, writers, property, member⟩ :
      .read 26 (some "a") 25 ∈ heap.problem.rules ∧
      3 ∈ (heap.readOwners 26 (some "a")).resolved ∧
      heap.state.stored 3 (some "a") = [1, 4] ∧ heap.state.writers 3 (some "a") = [13, 17] ∧
      written? arena 13 = some 14 ∧ written? arena 17 = some 19 := by
    cases read
    decide +kernel
  refine ⟨listed, resolved, stored, writers, property, member, fun location known => ?_⟩
  obtain ⟨writer, writes, backs, edge⟩ := (stored_backed read {}).2.2 26 (some "a") 25 listed 3
    resolved location (stored ▸ known)
  rw [writers] at writes
  refine ⟨writer, writes, backs, edge ?_⟩
  rintro rfl
  simp at writes

theorem readEdges_everywhere {file : Script.File} {arena : Arena}
    (read : Arena.ofFile file = .ok arena) (options : Options)
    (everywhere : options.prototypeFallback = true) (unlimited : options.maxFallbackOwners = none) :
    let heap := Solution.onPage arena options
    ∀ object key target, .read object key target ∈ heap.problem.rules →
      heap.pointsTo object = [] → ∀ writer,
        (.data writer target .propertyRead ∈ heap.readEdges (.read object key target) ↔
          writer ≠ target ∧ ∃ owner, writer ∈ heap.state.writers owner key ∧
            ∀ name, key = some name → heap.state.writes.get owner name ≠ []) ∧
        (.data writer target .propertyRead ∈ heap.readEdges (.read object key target) →
          .data writer target .propertyRead ∈ heap.propertyEdges) := by
  intro heap object key target listed nothing writer
  have well := wellNumbered_ofFile read
  have sound : heap.Sound := sound_ofArena well (Resolution.ofArena arena) options
  have recorded := sound.reached.recorded sound.coherent
  refine ⟨?_, mem_propertyEdges_of_readEdges listed⟩
  have owners : (heap.readOwners object key).resolved = heap.state.ownersWriting key := by
    have resolved := @resolved_of_nothing heap.state options object key nothing
    rw [everywhere, unlimited] at resolved
    exact resolved
  rw [mem_readEdges, owners]
  refine and_congr_right fun _ => exists_congr fun owner => ?_
  rw [and_comm, and_congr_right_iff]
  intro writes
  rw [recorded.mem_ownersWriting]
  cases key with
  | some name => simp
  | none =>
    obtain ⟨name, known⟩ := (Store.mem_getAny _ _).mp writes
    refine ⟨fun _ => by simp, fun _ => ⟨name, by simp, List.ne_nil_of_mem known⟩⟩

theorem readEdges_everywhere_knownWriter : ∃ arena, Arena.ofFile knownWriter = .ok arena ∧
      let heap := Solution.onPage arena {}
      .read 17 (some "a") 16 ∈ heap.problem.rules ∧ heap.pointsTo 17 = [] ∧
        heap.state.writers 1 (some "a") = [7, 12] ∧ heap.state.writes.get 1 "a" = [12] ∧
        ∀ writer ∈ [7, 12], .data writer 16 .propertyRead ∈ heap.propertyEdges := by
  obtain ⟨arena, read⟩ : ∃ arena, ofFile knownWriter = .ok arena := ⟨_, rfl⟩
  refine ⟨arena, read, ?_⟩
  intro heap
  obtain ⟨listed, nothing, writers, named⟩ :
      .read 17 (some "a") 16 ∈ heap.problem.rules ∧ heap.pointsTo 17 = [] ∧
      heap.state.writers 1 (some "a") = [7, 12] ∧ heap.state.writes.get 1 "a" = [12] := by
    cases read
    decide +kernel
  refine ⟨listed, nothing, writers, named, fun writer known => ?_⟩
  obtain ⟨exact, edge⟩ := readEdges_everywhere read {} rfl rfl 17 (some "a") 16 listed nothing writer
  refine edge (exact.mpr ⟨?_, 1, writers ▸ known, ?_⟩)
  · rintro rfl
    simp at known
  · intro name isName
    obtain rfl := Option.some.inj isName
    exact List.ne_nil_of_mem (named ▸ List.mem_cons_self : 12 ∈ heap.state.writes.get 1 "a")

-- `var o = {}; o[x] = y; u.a;`
def computedWriter : Script.File := .sample [
  .vars .varBinding [.mk (.ident "o") (some (.object [] {})) {}] {},
  .expr (.assign "=" (.member (.ident "o") (.computed (.ident "x")) false {}) (.ident "y") {}) {},
  .expr (.member (.ident "u") (.named "a") false {}) {}]

theorem readEdges_everywhere_computedWriter :
    ∃ arena, Arena.ofFile computedWriter = .ok arena ∧
      let heap := Solution.onPage arena {}
      .read 15 (some "a") 14 ∈ heap.problem.rules ∧ heap.pointsTo 15 = [] ∧
        9 ∈ heap.state.writers 1 (some "a") ∧ .data 9 14 .propertyRead ∉ heap.propertyEdges := by
  refine ⟨_, rfl, ?_⟩
  decide +kernel

end Alias

end Seepage

import Seepage.Proofs.Alias.Termination

set_option autoImplicit false

namespace Seepage

variable {owner value : Nat} {new : Nat → String → Nat → Prop} {name : Option String}

theorem Store.mem_of_mem_extend {store : Store} {place item : Nat} {key name : String}
    {items : NatSet} (member : item ∈ (store.extend owner key items).1.get place name) :
    item ∈ store.get place name ∨ owner = place ∧ key = name ∧ item ∈ items := by
  simp only [extend] at member
  split at member
  case isTrue => exact .inl member
  case isFalse =>
    by_cases there : owner = place
    · subst there
      by_cases here : key = name
      · subst here
        simpa [get, NatSet.mem_union] using member
      · simp_all [get, Std.TreeMap.getD_insert]
    · simp_all [get, Std.TreeMap.getD_insert]

namespace Alias

inductive Fills (problem : Problem) (state : State) (owner : Nat) (key : String) (location : Nat) :
    Prop where
  | write {left object value : Nat} {name : Option String}
    (listed : .write left object name value ∈ problem.rules) (isKey : name.getD anyKey = key)
    (refers : owner ∈ state.pointsTo object) (holds : location ∈ state.pointsTo value)
  | deposit {call callee arg : Nat} {isNew : Bool} {deposit : Deposit}
    (listed : .call call callee isNew ∈ problem.rules)
    (found : Deposit.of? problem.arena call callee = some deposit) (isKey : deposit.key = key)
    (refers : owner ∈ state.pointsTo deposit.receiver) (member : arg ∈ deposit.args)
    (holds : location ∈ state.pointsTo arg)

def OwnsMembers (problem : Problem) (state : State) (owner : Nat) : Prop :=
  (∃ left : Nat, state.unknownOwners[left]? = some owner) ∨
    ∃ holder property name value, .member holder property name value ∈ problem.rules ∧
      state.locationOf[holder]? = some owner

variable {problem : Problem} {state next : State}

theorem Fills.grows {owner location : Nat} {key : String}
    (fills : Fills problem state owner key location) (grows : Grows state next) :
    Fills problem next owner key location := by
  cases fills with
  | write listed isKey refers holds =>
    exact .write listed isKey (grows.nodes _ _ refers) (grows.nodes _ _ holds)
  | deposit listed found isKey refers member holds =>
    exact .deposit listed found isKey (grows.nodes _ _ refers) member (grows.nodes _ _ holds)

theorem OwnsMembers.grows {owner : Nat} (owns : OwnsMembers problem state owner)
    (grows : Grows state next) : OwnsMembers problem next owner := by
  rcases owns with ⟨left, known⟩ | ⟨holder, property, name, value, listed, known⟩
  · exact .inl ⟨left, grows.unknownOwners left owner known⟩
  · exact .inr ⟨holder, property, name, value, listed, grows.locationOf holder owner known⟩

def Gains (before after : State) (new : Nat → String → Nat → Prop) : Prop :=
  after.nodes = before.nodes ∧ ∀ owner key, ∀ location ∈ after.stores.get owner key,
    location ∈ before.stores.get owner key ∨ new owner key location

theorem gains_addStore (state : State) (owner : Nat) (key : String) (items : NatSet)
    (writer : Nat) (each : ∀ item ∈ items, new owner key item) :
    Gains state (state.addStore owner key items writer) new := by
  refine ⟨rfl, fun place name location member => ?_⟩
  rcases Store.mem_of_mem_extend member with old | ⟨rfl, rfl, item⟩
  · exact .inl old
  · exact .inr (each location item)

theorem gains_foldl {α : Type} {act : State → α → State} {items : List α}
    (each : ∀ middle, middle.nodes = state.nodes →
      ∀ item ∈ items, Gains middle (act middle item) new) :
    Gains state (items.foldl act state) new := by
  induction items generalizing state with
  | nil => exact ⟨rfl, fun _ _ _ member => .inl member⟩
  | cons item rest ih =>
    obtain ⟨same, first⟩ := each state rfl item List.mem_cons_self
    obtain ⟨kept, later⟩ := ih fun middle nodes other listed =>
      each middle (nodes.trans same) other (List.mem_cons_of_mem _ listed)
    refine ⟨kept.trans same, fun owner key location member => ?_⟩
    rcases later owner key location member with here | new
    · exact first owner key location here
    · exact .inr new

theorem gains_deposit (deposit : Deposit) (state : State) : Gains state (deposit.store state)
    fun owner key location => deposit.key = key ∧ owner ∈ state.pointsTo deposit.receiver ∧
      ∃ arg ∈ deposit.args, location ∈ state.pointsTo arg := by
  refine gains_foldl fun middle same arg listed => gains_foldl fun later nodes owner refers => ?_
  refine gains_addStore later owner _ _ arg fun location item => ⟨rfl, ?_, arg, listed, ?_⟩
  · rwa [State.pointsTo, ← same]
  · rwa [State.pointsTo, ← same, ← nodes]

section

variable {owner location : Nat} {key : String}

theorem filled_write {left object : Nat} (listed : .write left object name value ∈ problem.rules)
    (member : location ∈ (applyWrite left object name value state).stores.get owner key) :
    location ∈ state.stores.get owner key ∨
      Fills problem (applyWrite left object name value state) owner key location ∨
      OwnsMembers problem (applyWrite left object name value state) owner := by
  have stores : ∀ (middle : State) (owners : NatSet), Gains middle (owners.foldl (fun state owner =>
      state.addStore owner (name.getD anyKey) (middle.pointsTo value) left) middle)
      fun owner key location =>
        owner ∈ owners ∧ name.getD anyKey = key ∧ location ∈ middle.pointsTo value :=
    fun middle owners => gains_foldl fun later _ owner listed =>
      gains_addStore later owner _ _ left fun location item => ⟨listed, rfl, item⟩
  unfold applyWrite at member ⊢
  cases found : state.pointsTo object with
  | nil =>
    simp only [found] at member ⊢
    rcases (stores (state.unknownOwner left).1 [(state.unknownOwner left).2]).2 owner key location
      member with old | ⟨isOwner, -⟩
    · refine .inl ?_
      unfold State.unknownOwner at old
      split at old <;> exact old
    · refine .inr (.inr (.inl ⟨left, ?_⟩))
      change (state.unknownOwner left).1.unknownOwners[left]? = some owner
      rw [List.mem_singleton.mp isOwner]
      unfold State.unknownOwner
      split <;> simp_all
  | cons first others =>
    simp only [found] at member ⊢
    obtain ⟨same, gained⟩ := stores state (first :: others)
    rcases gained owner key location member with old | ⟨isOwner, isKey, holds⟩
    · exact .inl old
    · rw [← found] at isOwner
      refine .inr (.inl (.write listed isKey ?_ ?_)) <;> rwa [State.pointsTo, same]

theorem filled_call {call callee : Nat} {isNew : Bool}
    (listed : .call call callee isNew ∈ problem.rules)
    (member : location ∈ (applyCall problem call callee isNew state).stores.get owner key) :
    location ∈ state.stores.get owner key ∨
      Fills problem (applyCall problem call callee isNew state) owner key location := by
  let prepared := Prepared.of problem call callee isNew state
  have before : (prepared.enterAll problem (prepared.answer (prepared.inherit state))).stores =
      state.stores := by
    refine (keeps_foldl (·.stores) (keeps_enter (·.stores) (fun _ _ _ => rfl) (fun _ _ _ => rfl)
      (fun _ _ _ => rfl) _) _ _).trans (Eq.trans ?_
        (keeps_inherit (·.stores) (fun _ _ _ => rfl) prepared state))
    unfold Prepared.answer State.external
    split <;> [split <;> rfl; rfl]
  rw [applyCall_eq, Prepared.store_eq] at member ⊢
  cases found : Deposit.of? problem.arena call callee with
  | none => exact .inl (by simpa [found, before, prepared] using member)
  | some deposit =>
    simp only [found, Option.map_some, Option.getD_some] at member ⊢
    obtain ⟨same, gained⟩ := gains_deposit deposit
      (prepared.enterAll problem (prepared.answer (prepared.inherit state)))
    rcases gained owner key location member with old | ⟨isKey, refers, arg, given, holds⟩
    · exact .inl (before ▸ old)
    · refine .inr (.deposit listed found isKey ?_ given ?_) <;> rwa [State.pointsTo, same]

theorem filled_member {holder property : Nat}
    (listed : .member holder property name (some value) ∈ problem.rules) (member : location ∈
      (applyMember problem.arena holder property name value state).stores.get owner key) :
    location ∈ state.stores.get owner key ∨
      OwnsMembers problem (applyMember problem.arena holder property name value state) owner := by
  unfold applyMember at member ⊢
  cases found : state.locationOf[holder]? with
  | none => exact .inl (by simpa [found] using member)
  | some own =>
    simp only [found] at member ⊢
    have stored : location ∈ (state.addStore own (name.getD anyKey) (state.pointsTo value)
        property).stores.get owner key := by
      split at member <;> [split at member; skip] <;> exact member
    rcases Store.mem_of_mem_extend stored with old | ⟨rfl, -⟩
    · exact .inl old
    · refine .inr (.inr ⟨holder, property, name, some value, listed, ?_⟩)
      split <;> [split; skip] <;> exact found

end

theorem Reached.filled (reached : Reached problem state) (coherent : problem.Coherent) :
    ∀ owner key, ∀ location ∈ state.stores.get owner key,
      Fills problem state owner key location ∨ OwnsMembers problem state owner := by
  induction reached with
  | start => simp [stores_initial, Store.get]
  | @apply state rule reached listed ih =>
    have grows := (Steps.both (adds_apply coherent (reached.valid coherent) listed).1
      (reached.valid coherent)).1
    intro owner key location member
    have before : location ∈ state.stores.get owner key →
        Fills problem (rule.apply problem state) owner key location ∨
          OwnsMembers problem (rule.apply problem state) owner := fun old =>
      (ih owner key location old).imp (·.grows grows) (·.grows grows)
    cases rule with
    | write left object name value =>
      rcases filled_write listed member with old | new
      · exact before old
      · exact new
    | member holder property name value =>
      cases value with
      | none => exact before member
      | some value =>
        rcases filled_member listed member with old | new
        · exact before old
        · exact .inr new
    | call call callee isNew =>
      rcases filled_call listed member with old | new
      · exact before old
      · exact .inl new
    | _ => exact before member

theorem not_ownsMembers (coherent : problem.Coherent) (valid : Valid problem.arena state)
    {array : Nat} (isArray : problem.arena.kind array = .array)
    (located : state.locationOf[array]? = some owner) : ¬OwnsMembers problem state owner := by
  obtain ⟨⟨kind, here⟩, -⟩ := valid.assigned.allocated array owner located
  rintro (⟨left, known⟩ | ⟨holder, property, name, value, listed, known⟩)
  · obtain ⟨⟨kind', there⟩, key, isMember⟩ := valid.assigned.unknown left owner known
    cases here.symm.trans there
    rw [isArray] at isMember
    cases isMember
  · obtain ⟨⟨kind', there⟩, -⟩ := valid.assigned.allocated holder owner known
    cases here.symm.trans there
    exact (coherent.within _ listed).1 isArray

theorem array_read_back {file : Script.File} {arena : Arena} (read : Arena.ofFile file = .ok arena)
    (options : Options) :
    let heap := Solution.onPage arena options
    ∀ array owner, arena.kind array = .array → heap.state.locationOf[array]? = some owner →
      (∀ key location, location ∈ heap.state.stores.get owner key ↔
        Fills heap.problem heap.state owner key location) ∧
      ∀ object key target, .read object key target ∈ heap.problem.rules →
        owner ∈ heap.pointsTo object → ∀ name, key = none ∨ key = some name ∨ name = anyKey →
          ∀ location, Fills heap.problem heap.state owner name location →
            location ∈ heap.pointsTo target := by
  intro heap array owner isArray located
  have well := Arena.wellNumbered_ofFile read
  have sound : heap.Sound := Solution.sound_ofArena well (Resolution.ofArena arena) options
  have satisfied : ∀ rule ∈ heap.problem.rules, Satisfied heap.problem heap.state rule :=
    satisfied_solution well (Resolution.ofArena arena) options
  have filled : ∀ key location, location ∈ heap.state.stores.get owner key ↔
      Fills heap.problem heap.state owner key location := by
    intro key location
    constructor
    · intro member
      refine (sound.reached.filled sound.coherent owner key location member).resolve_right ?_
      exact not_ownsMembers sound.coherent sound.valid isArray located
    · rintro (⟨listed, rfl, refers, holds⟩ | ⟨listed, found, rfl, refers, member, holds⟩)
      · exact satisfied _ listed owner refers location holds
      · exact (satisfied _ listed).2 _ found _ member owner refers location holds
  refine ⟨filled, fun object key target listed refers name wanted location fills => ?_⟩
  have stored := (filled name location).mpr fills
  refine satisfied _ listed owner refers location ?_
  rcases key with _ | key
  · exact (Store.mem_getAny _ _).mpr ⟨name, stored⟩
  · rcases wanted with wanted | wanted | rfl
    · cases wanted
    · cases wanted
      exact (NatSet.mem_union _ _).mpr (.inl stored)
    · exact (NatSet.mem_union _ _).mpr (.inr stored)

-- `var a = [{}]; a.push({}); a[0];`
def extendedArray : Script.File := .sample [
  .vars .varBinding [.mk (.ident "a") (some (.array [.object [] {}] {})) {}] {},
  .expr (.call (.member (.ident "a") (.named "push") false {}) [.object [] {}] false {}) {},
  .expr (.member (.ident "a") (.computed (.literal (.number "0") {})) false {}) {}]

theorem array_read_back_extendedArray : ∃ arena, Arena.ofFile extendedArray = .ok arena ∧
      let heap := Solution.onPage arena {}
      arena.kind 6 = .array ∧ heap.state.locationOf[6]? = some 1 ∧
        Fills heap.problem heap.state 1 anyKey 3 ∧ .read 15 (some "0") 14 ∈ heap.problem.rules ∧
        1 ∈ heap.pointsTo 15 ∧ 3 ∈ heap.state.stores.get 1 anyKey ∧ 3 ∈ heap.pointsTo 14 := by
  obtain ⟨arena, read⟩ : ∃ arena, Arena.ofFile extendedArray = .ok arena := ⟨_, rfl⟩
  refine ⟨arena, read, ?_⟩
  intro heap
  obtain ⟨⟨isArray, located, reads, refers⟩, calls, pushes, receiver, holds⟩ :
      (arena.kind 6 = .array ∧ heap.state.locationOf[6]? = some 1 ∧
      .read 15 (some "0") 14 ∈ heap.problem.rules ∧ 1 ∈ heap.pointsTo 15) ∧
      .call 9 10 false ∈ heap.problem.rules ∧ Deposit.of? arena 9 10 = some ⟨11, anyKey, [12]⟩ ∧
      1 ∈ heap.pointsTo 11 ∧ 3 ∈ heap.pointsTo 12 := by
    cases read
    decide +kernel
  have fills : Fills heap.problem heap.state 1 anyKey 3 :=
    .deposit calls pushes rfl receiver List.mem_cons_self holds
  obtain ⟨stored, found⟩ := array_read_back read {} 6 1 isArray located
  exact ⟨isArray, located, fills, reads, refers, (stored anyKey 3).mpr fills,
    found 15 (some "0") 14 reads refers anyKey (.inr (.inr rfl)) 3 fills⟩

theorem literal_element_not_read_back : ∃ arena, Arena.ofFile extendedArray = .ok arena ∧
      let heap := Solution.onPage arena {}
      arena.kind 6 = .array ∧ heap.state.locationOf[6]? = some 1 ∧ 7 ∈ arena.children 6 ∧
        2 ∈ heap.pointsTo 7 ∧ .read 15 (some "0") 14 ∈ heap.problem.rules ∧
        1 ∈ heap.pointsTo 15 ∧ 2 ∉ heap.pointsTo 14 := by
  refine ⟨_, rfl, ?_⟩
  decide +kernel

end Alias

end Seepage

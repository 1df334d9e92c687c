import Seepage.Proofs.Alias.Growth

set_option autoImplicit false

namespace Seepage

open List Seepage.Relation NatSet

variable {items : NatSet} {owner call function node inst arg callee value : Nat} {isNew : Bool}
  {known known' : Prop} {parts : FunctionParts}

theorem Relation.extend_of_subset {relation : Relation} {key : Nat}
    (old : NatSet.Sorted (relation.image key)) (new : NatSet.Sorted items)
    (part : ∀ x ∈ items, x ∈ relation.image key) : relation.extend key items = (relation, 0) := by
  have same : union (relation.image key) items = relation.image key :=
    (old.union new).ext old fun x => by
      rw [mem_union]
      exact ⟨fun either => either.elim id (part x), .inl⟩
  simp [extend, same]

theorem Store.extend_of_subset {store : Store} {key : String}
    (old : NatSet.Sorted (store.get owner key)) (new : NatSet.Sorted items)
    (part : ∀ x ∈ items, x ∈ store.get owner key) : store.extend owner key items = (store, 0) := by
  have same : union (store.get owner key) items = store.get owner key :=
    (old.union new).ext old fun x => by
      rw [mem_union]
      exact ⟨fun either => either.elim id (part x), .inl⟩
  simp [extend, same]

namespace Alias

variable {act : State → State} {other : State} {rule : Rule}

def Entered (problem : Problem) (state : State) (call : Nat) (isNew : Bool) (function : Nat) :
    Prop :=
  function ∈ state.targets.image call ∧
    ∀ parts, problem.arena.functionParts? function = some parts →
      (∀ pair ∈ parts.params.zip (problem.arena.callArgs call),
        ∀ location ∈ state.pointsTo pair.2, location ∈ state.pointsTo pair.1) ∧
      (isNew = false → ∀ location ∈ results problem state function,
        location ∈ state.pointsTo call)

structure Deposit where
  receiver : Nat
  key : String
  args : List Nat
deriving DecidableEq

namespace Deposit

def of? (arena : Arena) (call callee : Nat) : Option Deposit :=
  match arena.kind callee, arena.child? callee 0 with
  | .member method, some receiver =>
    if method = .named "setData" then some ⟨receiver, "data", (arena.callArgs call).take 1⟩
    else if method = .named "push" ∨ method = .named "unshift" then
      some ⟨receiver, anyKey, arena.callArgs call⟩
    else none
  | _, _ => none

def store (deposit : Deposit) (state : State) : State :=
  deposit.args.foldl (storeArg deposit.receiver deposit.key) state

def Kept (state : State) (deposit : Deposit) : Prop :=
  ∀ arg ∈ deposit.args, ∀ owner ∈ state.pointsTo deposit.receiver,
    ∀ location ∈ state.pointsTo arg, location ∈ state.stores.get owner deposit.key

end Deposit

def Satisfied (problem : Problem) (state : State) : Rule → Prop
  | .copy source target => ∀ location ∈ state.pointsTo source, location ∈ state.pointsTo target
  | .identRead node symbol =>
    ∀ location ∈ state.symbols.image symbol, location ∈ state.pointsTo node
  | .identWrite node symbol =>
    ∀ location ∈ state.pointsTo node, location ∈ state.symbols.image symbol
  | .declaration node symbol =>
    ∀ location, state.locationOf[node]? = some location → location ∈ state.symbols.image symbol
  | .this node owner => ∀ location ∈ state.receivers.image owner, location ∈ state.pointsTo node
  | .read object key target => ∀ owner ∈ state.pointsTo object,
    ∀ location ∈ state.stored owner key, location ∈ state.pointsTo target
  | .write _ object key value => ∀ owner ∈ state.pointsTo object,
    ∀ location ∈ state.pointsTo value, location ∈ state.stores.get owner (key.getD anyKey)
  | .member holder _ key (some value) => ∀ owner, state.locationOf[holder]? = some owner →
    ∀ location ∈ state.pointsTo value, location ∈ state.stores.get owner (key.getD anyKey)
  | .member _ _ _ none => True
  | .call call callee isNew =>
    (∀ id ∈ state.pointsTo callee, ∀ function,
      targetOf? problem.arena (state.location id) = some function →
        Entered problem state call isNew function) ∧
    ∀ deposit ∈ Deposit.of? problem.arena call callee, deposit.Kept state

section

variable {deposit : Deposit}

variable {problem : Problem} {state other next : State}

section

variable (same : Same state other)

include same

theorem Same.pointsTo_eq (node : Nat) : other.pointsTo node = state.pointsTo node := by
  rw [State.pointsTo, same.nodes, State.pointsTo]

theorem Same.results_eq (function : Nat) :
    results problem other function = results problem state function := by
  simp only [results, State.pointsTo, same.nodes]

theorem Same.entered_iff :
    Entered problem other call isNew function ↔ Entered problem state call isNew function := by
  simp only [Entered, same.results_eq, same.pointsTo_eq, same.targets]

theorem Same.kept_iff : deposit.Kept other ↔ deposit.Kept state := by
  simp only [Deposit.Kept, same.pointsTo_eq, same.stores]

theorem Same.location {id : Nat} (known : id < state.locations.size) :
    other.location id = state.location id := by
  have found := same.locations id _ (Array.getElem?_eq_getElem known)
  simp [State.location, Array.getD_eq_getD_getElem?, found, known]

theorem Same.satisfied_iff (valid : Valid problem.arena state) (rule : Rule) :
    Satisfied problem other rule ↔ Satisfied problem state rule := by
  cases rule with
  | member holder property key value =>
    cases value <;>
      simp only [Satisfied, State.pointsTo, same.nodes, same.stores, same.locationOf]
  | read object key target =>
    cases key <;> simp only [Satisfied, State.pointsTo, State.stored, same.nodes, same.stores]
  | call call callee isNew =>
    simp only [Satisfied, State.pointsTo, same.nodes, same.entered_iff, same.kept_iff]
    refine and_congr_left' (forall₂_congr fun id member => ?_)
    rw [same.location ((valid.nodes callee).2 id member)]
  | _ =>
    simp only [Satisfied, State.pointsTo, same.nodes, same.symbols, same.receivers, same.stores,
      same.locationOf]

end

section

variable (valid : Valid problem.arena state)

include valid

theorem Valid.stored (owner : Nat) (key : Option String) :
    state.Located (state.stored owner key) := by
  cases key with
  | none => exact Store.below_getAny (valid.stores owner)
  | some key => exact (valid.stores owner key).union (valid.stores owner anyKey)

theorem Valid.lt_of_locationOf {location : Nat}
    (found : state.locationOf[node]? = some location) : location < state.locations.size := by
  obtain ⟨⟨kind, known⟩, -⟩ := valid.assigned.allocated node location found
  exact (Array.getElem?_eq_some_iff.mp known).1

theorem Valid.created (node : Nat) : state.Located state.locationOf[node]?.toList := by
  cases found : state.locationOf[node]? with
  | none => exact below_nil _
  | some location => exact below_singleton (valid.lt_of_locationOf found)

theorem Valid.results (function : Nat) : state.Located (results problem state function) := by
  have returned := below_imageAll valid.nodes (problem.returns.getD function [])
  unfold Alias.results
  split
  · exact returned.union (valid.nodes _)
  · exact returned

theorem Valid.receiversFrom (holder : Nat) (above : List Nat) :
    state.Located (receiversFrom problem.arena state holder above) := by
  fun_induction Alias.receiversFrom problem.arena state holder above with
  | case1 holder property outer above own isGroup inner ih => exact (valid.created holder).union ih
  | case2 holder => exact valid.created holder
  | case3 above holder => exact valid.created holder

theorem Valid.receiversOf (holder : Nat) :
    state.Located (Alias.receivers problem.arena state holder) := by
  unfold Alias.receivers
  split
  · split
    case h_1 own found =>
      refine NatSet.Below.insert ⟨?_, ?_⟩ (valid.lt_of_locationOf found)
      · rw [NatSet.Sorted, pairwise_map]
        refine List.Pairwise.filter _ ?_
        refine List.Pairwise.imp ?_ state.prototypes.ordered_keys_toList
        intro first second below
        exact Nat.compare_eq_lt.mp below
      · intro inst member
        obtain ⟨⟨key, parents⟩, held, rfl⟩ := mem_map.mp member
        have listed := (mem_filter.mp held).1
        rw [Std.TreeMap.mem_toList_iff_getElem?_eq_some] at listed
        refine valid.instances key ?_
        rw [Std.TreeMap.mem_iff_isSome_getElem?, listed]
        rfl
    case h_2 => exact below_nil _
  · exact valid.receiversFrom holder _
  · exact valid.created holder

theorem Valid.node_lt {id : Nat} (other : (state.location id).kind ≠ .global) :
    (state.location id).node < problem.arena.size := by
  cases found : state.locations[id]? with
  | none => simp [State.location, Array.getD_eq_getD_getElem?, found] at other
  | some location =>
    have same : state.location id = location := by
      simp [State.location, Array.getD_eq_getD_getElem?, found]
    rw [same] at other ⊢
    rcases Nat.eq_zero_or_pos id with rfl | positive
    · rw [valid.assigned.first] at found
      obtain rfl := Option.some.inj found
      exact absurd rfl other
    · exact valid.assigned.node_lt positive found

theorem Valid.lt_of_target {id : Nat}
    (target : targetOf? problem.arena (state.location id) = some function) :
    function < problem.arena.size := by
  unfold targetOf? at target
  split at target
  case h_1 isFunction =>
    obtain rfl := Option.some.inj target
    exact valid.node_lt (by simp [isFunction])
  case h_2 =>
    have isFunction := (Option.filter_eq_some_iff.mp target).2
    apply Arena.lt_size_of_kind
    intro isProgram
    simp [isProgram, Kind.isFunction] at isFunction
  case h_3 => cases target

end

def Later (problem : Problem) (before after : State) : Prop :=
  Steps problem before after ∧ after.facts = before.facts

theorem Later.refl (state : State) : Later problem state state :=
  ⟨.refl, rfl⟩

theorem Later.trans {first second third : State} (early : Later problem first second)
    (late : Later problem second third) : Later problem first third :=
  ⟨early.1.trans late.1, late.2.trans early.2⟩

theorem Later.same (later : Later problem state next) (valid : Valid problem.arena state) :
    Same state next :=
  Steps.same later.1 valid later.2

def Idle (problem : Problem) (state : State) (act : State → State) : Prop :=
  ∀ later, Later problem state later → act later = later

theorem Idle.later {act : State → State} (idle : Idle problem state act)
    (later : Later problem state next) : Idle problem next act :=
  fun final more => idle final (later.trans more)

def Completes (problem : Problem) (state : State) (act : State → State) (known : Prop) : Prop :=
  Adds problem state (act state) (known ∧ Idle problem (act state) act)

theorem completes_nothing (problem : Problem) (state : State) : Completes problem state id True :=
  ⟨.refl, fun _ => ⟨trivial, fun _ _ => rfl⟩⟩

theorem Completes.imp (completes : Completes problem state act known) (weaker : known → known') :
    Completes problem state act known' :=
  Adds.imp completes (.imp_left weaker)

theorem Completes.of_eq {other : State → State} (completes : Completes problem state act known)
    (agree : ∀ later, Later problem state later → other later = act later) :
    Completes problem state other known := by
  unfold Completes
  rw [agree state (.refl state)]
  refine ⟨completes.1, fun quiet => ⟨(completes.2 quiet).1, fun later more => ?_⟩⟩
  rw [agree later (.trans ⟨completes.1, quiet⟩ more)]
  exact (completes.2 quiet).2 later more

theorem adds_kept {α : Type} {act : State → α → State} {items : List α} (known : State → α → Prop)
    (persists : ∀ {before after item}, Valid problem.arena before → Later problem before after →
      known before item → known after item) (valid : Valid problem.arena state)
    (each : ∀ middle, Valid problem.arena middle → Grows state middle →
      ∀ item ∈ items, Adds problem middle (act middle item) (known (act middle item) item)) :
    Adds problem state (items.foldl act state)
      (∀ item ∈ items, known (items.foldl act state) item) := by
  induction items generalizing state with
  | nil => exact ⟨.refl, by simp⟩
  | cons first rest ih =>
    have start := each state valid (.refl state) first mem_cons_self
    obtain ⟨grows, held⟩ := Steps.both start.1 valid
    have finish := ih held fun middle good more item member =>
      each middle good (grows.trans more) item (mem_cons_of_mem _ member)
    have early := grows.facts
    have late := (Steps.grows finish.1 held).facts
    rw [foldl_cons]
    refine ⟨start.1.trans finish.1, fun quiet item member => ?_⟩
    rcases mem_cons.mp member with rfl | member
    · exact persists held ⟨finish.1, by omega⟩ (start.2 (by omega))
    · exact finish.2 (by omega) item member

theorem completes_foldl {α : Type} {act : State → α → State} {items : List α}
    {known : State → α → Prop} (valid : Valid problem.arena state)
    (each : ∀ middle, Valid problem.arena middle → Grows state middle →
      ∀ item ∈ items, Completes problem middle (act · item) (known middle item)) :
    Completes problem state (fun state => items.foldl act state)
      (∀ item ∈ items, ∃ middle, Same state middle ∧ known middle item) := by
  have reached := adds_foldl valid fun middle held more item member =>
    Adds.imp (each middle held more item member) And.left
  have kept := adds_kept (fun state item => Idle problem state (act · item))
    (fun _ later idle => idle.later later) valid fun middle held more item member =>
      Adds.imp (each middle held more item member) And.right
  refine ⟨reached.1, fun quiet => ⟨reached.2 quiet, fun later more => ?_⟩⟩
  apply List.foldlRecOn items act (motive := (· = later)) rfl
  rintro _ rfl item member
  exact kept.2 quiet item member _ more

theorem Completes.seq {other : State → State}
    (valid : Valid problem.arena state) (first : Completes problem state act known)
    (second : Completes problem (act state) other known') :
    Completes problem state (fun state => other (act state))
      (known ∧ Same state (act state) ∧ known') := by
  obtain ⟨grows, held⟩ := Steps.both first.1 valid
  have early := grows.facts
  have late := (Steps.grows second.1 held).facts
  refine ⟨first.1.trans second.1, fun quiet => ?_⟩
  simp only at quiet
  obtain ⟨here, still⟩ := first.2 (by omega)
  obtain ⟨there, final⟩ := second.2 (by omega)
  refine ⟨⟨here, Steps.same first.1 valid (by omega), there⟩, fun later more => ?_⟩
  simp only [still later (.trans ⟨second.1, by omega⟩ more)]
  exact final later more

section

variable (valid : Valid problem.arena state)

include valid

theorem completes_extend (part : State → Relation) {key : Nat} (items : State → NatSet)
    (step : Step problem state (act state))
    (sorted : ∀ {state}, Valid problem.arena state → NatSet.Sorted ((part state).image key))
    (new : NatSet.Sorted (items state)) (grows : ∀ {before after}, Grows before after →
      ∀ x ∈ (part before).image key, x ∈ (part after).image key)
    (added : part (act state) = ((part state).extend key (items state)).1)
    (counted : (act state).facts = state.facts + ((part state).extend key (items state)).2)
    (stable : ∀ later, Later problem state later → items later = items state)
    (rests : ∀ later, (part later).extend key (items later) = (part later, 0) → act later = later) :
    Completes problem state act (∀ x ∈ items state, x ∈ (part state).image key) := by
  refine ⟨.single step, fun quiet => ⟨?_, fun later more => rests later ?_⟩⟩
  · rw [counted] at quiet
    exact (extend_quiet (sorted valid) new (Nat.add_eq_left.mp quiet)).2
  · obtain ⟨growth, good⟩ := Steps.both more.1 (step.valid valid)
    rw [stable later (.trans ⟨.single step, quiet⟩ more)]
    refine extend_of_subset (sorted good) new fun x member => grows growth x ?_
    rw [added]
    exact (mem_image_extend (sorted valid) new).mpr (.inr ⟨rfl, member⟩)

theorem completes_node (items : State → NatSet) (inside : node < problem.arena.size)
    (located : state.Located (items state))
    (stable : ∀ later, Later problem state later → items later = items state) :
    Completes problem state (fun state => state.addNode node (items state))
      (∀ location ∈ items state, location ∈ state.pointsTo node) :=
  completes_extend valid State.nodes items (.node inside located) (fun good => (good.nodes _).1)
    located.1 (fun growth => growth.nodes node) rfl rfl stable
    fun later rest => by simp [State.addNode, rest]

theorem completes_symbol {symbol : Nat} (items : State → NatSet)
    (written : symbol ∈ problem.symbols) (located : state.Located (items state))
    (stable : ∀ later, Later problem state later → items later = items state) :
    Completes problem state (fun state => state.addSymbol symbol (items state))
      (∀ location ∈ items state, location ∈ state.symbols.image symbol) :=
  completes_extend valid State.symbols items (.symbol written located)
    (fun good => (good.symbols _).1) located.1 (fun growth => growth.symbols symbol) rfl rfl stable
    fun later rest => by simp [State.addSymbol, rest]

theorem completes_receiver (items : State → NatSet)
    (inside : function < problem.arena.size) (located : state.Located (items state))
    (stable : ∀ later, Later problem state later → items later = items state) :
    Completes problem state (fun state => state.addReceiver function (items state))
      (∀ location ∈ items state, location ∈ state.receivers.image function) :=
  completes_extend valid State.receivers items (.receiver inside located)
    (fun good => (good.receivers _).1) located.1 (fun growth => growth.receivers function) rfl rfl
    stable fun later rest => by simp [State.addReceiver, rest]

theorem completes_prototype {location : Nat} (isInst : inst < state.locations.size)
    (known : location < state.locations.size) :
    Completes problem state (·.addPrototype inst location)
      (∀ x ∈ [location], x ∈ state.prototypes.image inst) :=
  completes_extend valid State.prototypes (fun _ => [location]) (.prototype isInst known)
    (fun good => (good.prototypes _).1) (.singleton location)
    (fun growth => growth.prototypes inst) rfl rfl (fun _ _ => rfl)
    fun later rest => by simp [State.addPrototype, rest]

theorem completes_target (isCall : call < problem.arena.size)
    (isFunction : function < problem.arena.size) (calls : Calls problem state call function) :
    Completes problem state (·.addTarget call function)
      (∀ x ∈ [function], x ∈ state.targets.image call) :=
  completes_extend valid State.targets (fun _ => [function]) (.target isCall isFunction calls)
    (fun good => (good.targets _).1) (.singleton function) (fun growth => growth.targets call) rfl rfl
    (fun _ _ => rfl) fun later rest => by simp [State.addTarget, rest]

theorem completes_store {writer : Nat} {key : String} (items : State → NatSet)
    (known : owner < state.locations.size) (listed : key ∈ problem.keys)
    (located : state.Located (items state)) (inside : writer < problem.arena.size)
    (backs : ∀ location ∈ items state, Backs problem.arena state writer location)
    (stable : ∀ later, Later problem state later → items later = items state) :
    Completes problem state (fun state => state.addStore owner key (items state) writer)
      (∀ location ∈ items state, location ∈ state.stores.get owner key) := by
  have step : Step problem state (state.addStore owner key (items state) writer) :=
    .store known listed located inside backs
  have fixed : Completes problem state (·.addStore owner key (items state) writer)
      (∀ location ∈ items state, location ∈ state.stores.get owner key) := by
    refine ⟨.single step, fun quiet => ⟨?_, fun later more => ?_⟩⟩
    · exact (Store.extend_quiet (valid.stores owner key).1 located.1 (Nat.add_eq_left.mp quiet)).2
    obtain ⟨growth, good⟩ := Steps.both more.1 (step.valid valid)
    have stored : later.stores.extend owner key (items state) = (later.stores, 0) :=
      Store.extend_of_subset (good.stores _ _).1 located.1 fun x member =>
        growth.stores _ _ x ((Store.mem_get_extend (valid.stores _ _).1 located.1).mpr
          (.inr ⟨⟨rfl, rfl⟩, member⟩))
    have recorded : later.writes.extend owner key [writer] = (later.writes, 0) :=
      Store.extend_of_subset (good.writes _ _).1 (.singleton writer) fun x member =>
        growth.writes _ _ x ((Store.mem_get_extend (valid.writes _ _).1 (.singleton writer)).mpr
          (.inr ⟨⟨rfl, rfl⟩, member⟩))
    simp [State.addStore, stored, recorded]
  exact fixed.of_eq fun later more => by rw [stable later more]

theorem completes_external (isCall : problem.arena.kind call = .call) :
    Completes problem state
      (fun state => (state.external call).1.addNode call [(state.external call).2]) True := by
  have step : Step problem state ((state.external call).1.addNode call [(state.external call).2]) :=
    .external isCall
  refine ⟨.single step, fun _ => ⟨trivial, fun later more => ?_⟩⟩
  obtain ⟨growth, good⟩ := Steps.both more.1 (step.valid valid)
  obtain ⟨-, held, located⟩ := valid.external isCall
  have assigned : (state.external call).1.locationOf[call]? = some (state.external call).2 := by
    unfold State.external
    split
    · assumption
    · simp
  have found := growth.locationOf call _ assigned
  have present : (state.external call).2 ∈ later.nodes.image call :=
    growth.nodes call _ ((mem_image_extend (held.nodes call).1 located.1).mpr
      (.inr ⟨rfl, mem_cons_self⟩))
  have again : later.external call = (later, (state.external call).2) := by
    simp [State.external, found]
  have kept := extend_of_subset (good.nodes call).1 located.1 (by simpa using present)
  simp [again, State.addNode, kept]

end

namespace CallSite

def pass (site : CallSite) (params : List Nat) (state : State) : State :=
  (params.zip site.args).foldl
    (fun state (param, arg) => state.addNode param (state.pointsTo arg)) state

def giveBack (site : CallSite) (problem : Problem) (function : Nat) (state : State) : State :=
  if site.isNew then state else state.addNode site.call (results problem state function)

def bindThis (site : CallSite) (function : Nat) (state : State) : State :=
  match site.inst, site.receiver with
  | some inst, _ => state.addReceiver function [inst]
  | none, some receiver => state.addReceiver function (state.pointsTo receiver)
  | none, none => state

end CallSite

theorem enter_eq {site : CallSite}
    (isFunction : problem.arena.functionParts? function = some parts) (state : State) :
    enter problem site state function =
      site.bindThis function (site.giveBack problem function
        (site.pass parts.params (state.addTarget site.call function))) := by
  unfold enter
  rw [isFunction]
  rfl

structure Prepared where
  site : CallSite
  parents : List Nat
  targets : NatSet

def Prepared.of (problem : Problem) (call callee : Nat) (isNew : Bool) (state : State) :
    Prepared where
  site :=
    { call
      args := problem.arena.callArgs call
      isNew
      inst := if isNew then state.locationOf[call]? else none
      receiver := match problem.arena.kind callee with
        | .member _ => problem.arena.child? callee 0
        | _ => none }
  parents := (state.pointsTo callee).filter fun id => (state.location id).isCallable
  targets := NatSet.ofList ((state.pointsTo callee).filterMap fun id =>
    targetOf? problem.arena (state.location id))

namespace Prepared

def inherit (prepared : Prepared) (state : State) : State :=
  match prepared.site.inst with
  | some inst => prepared.parents.foldl (·.addPrototype inst ·) state
  | none => state

def answer (prepared : Prepared) (state : State) : State :=
  if prepared.targets.isEmpty && !prepared.site.isNew then
    (state.external prepared.site.call).1.addNode prepared.site.call
      [(state.external prepared.site.call).2]
  else state

def enterAll (problem : Problem) (prepared : Prepared) (state : State) : State :=
  prepared.targets.foldl (enter problem prepared.site) state

def store (prepared : Prepared) (callee : Kind) (state : State) : State :=
  match callee with
  | .member method => storeArgs prepared.site method state
  | _ => state

end Prepared

theorem applyCall_eq (problem : Problem) (call callee : Nat) (isNew : Bool) (state : State) :
    let prepared := Prepared.of problem call callee isNew state
    applyCall problem call callee isNew state =
      prepared.store (problem.arena.kind callee)
        (prepared.enterAll problem (prepared.answer (prepared.inherit state))) := rfl

section

variable {call callee : Nat} {isNew : Bool}

theorem lt_size_of_call (isCall : problem.arena.kind call = if isNew then .new else .call) :
    call < problem.arena.size := by
  apply Arena.lt_size_of_kind
  cases isNew <;> simp [isCall]

theorem Valid.lt_of_inst (valid : Valid problem.arena state)
    (found : (Prepared.of problem call callee isNew state).site.inst = some inst) :
    inst < state.locations.size := by
  cases isNew with
  | true => exact valid.lt_of_locationOf found
  | false => cases found

theorem Valid.lt_of_mem_targets (valid : Valid problem.arena state)
    (member : function ∈ (Prepared.of problem call callee isNew state).targets) :
    function < problem.arena.size := by
  obtain ⟨id, -, target⟩ := mem_filterMap.mp ((mem_ofList _).mp member)
  exact valid.lt_of_target target

theorem calls_of_mem_targets (listed : .call call callee isNew ∈ problem.rules)
    (member : function ∈ (Prepared.of problem call callee isNew state).targets) :
    Calls problem state call function := by
  obtain ⟨id, known, target⟩ := mem_filterMap.mp ((mem_ofList _).mp member)
  exact ⟨callee, isNew, listed, id, known, target⟩

theorem Prepared.notNew_of_answers {prepared : Prepared}
    (host : (prepared.targets.isEmpty && !prepared.site.isNew) = true) :
    prepared.site.isNew = false := by
  simpa using (Bool.and_eq_true_iff.mp host).2

end

theorem Problem.Coherent.written?_arg (coherent : problem.Coherent)
    (member : arg ∈ problem.arena.callArgs call) :
    arg < problem.arena.size ∧ written? problem.arena arg = some arg := by
  unfold Arena.callArgs at member
  split at member
  case isTrue isCall =>
    have below := mem_of_mem_drop member
    refine ⟨coherent.numbered.lt_of_mem_children below, ?_⟩
    rw [written?, coherent.numbered.parent_of_mem_children below]
    cases kind : problem.arena.kind call with
    | call | new => simp [kind]
    | _ => simp [kind, Kind.isCallLike] at isCall
  case isFalse => cases member

theorem Problem.Coherent.lt_of_mem_params (coherent : problem.Coherent) {param : Nat}
    (isFunction : problem.arena.functionParts? function = some parts)
    (member : param ∈ parts.params) : param < problem.arena.size := by
  unfold Arena.functionParts? at isFunction
  split at isFunction
  case h_1 children =>
    obtain rfl := Option.some.inj isFunction
    apply coherent.numbered.lt_of_mem_children
    rw [children]
    exact mem_cons_of_mem _ (mem_cons_of_mem _ (mem_of_mem_take member))
  case h_2 => cases isFunction

section

variable (site : CallSite) {function : Nat}

theorem completes_pass (coherent : problem.Coherent) (valid : Valid problem.arena state)
    (isFunction : problem.arena.functionParts? function = some parts) :
    Completes problem state (site.pass parts.params)
      (∀ pair ∈ parts.params.zip site.args, ∀ location ∈ state.pointsTo pair.2,
        location ∈ state.pointsTo pair.1) := by
  have each := @completes_foldl problem state (Nat × Nat)
    (fun state pair => state.addNode pair.1 (state.pointsTo pair.2)) (parts.params.zip site.args) _ valid
    fun middle held _ pair member =>
      completes_node held (fun state => state.pointsTo pair.2)
        (coherent.lt_of_mem_params isFunction (of_mem_zip member).1) (held.nodes pair.2)
        fun later more => (more.same held).pointsTo_eq pair.2
  refine each.imp fun all pair member location present => ?_
  obtain ⟨middle, same, holds⟩ := all pair member
  rw [← same.pointsTo_eq] at present ⊢
  exact holds location present

theorem completes_giveBack (function : Nat) (valid : Valid problem.arena state)
    (isCall : site.call < problem.arena.size) :
    Completes problem state (site.giveBack problem function)
      (site.isNew = false → ∀ location ∈ results problem state function,
        location ∈ state.pointsTo site.call) := by
  unfold CallSite.giveBack
  split
  case isTrue new => exact (completes_nothing problem state).imp (by simp [new])
  case isFalse =>
    exact (completes_node valid (fun state => results problem state function) isCall
      (valid.results function) fun later more => (more.same valid).results_eq function).imp
        fun holds _ => holds

theorem completes_bindThis (valid : Valid problem.arena state)
    (created : ∀ inst, site.inst = some inst → inst < state.locations.size)
    (inside : function < problem.arena.size) :
    Completes problem state (site.bindThis function) True := by
  unfold CallSite.bindThis
  split
  case h_1 inst isInst =>
    exact (completes_receiver valid (fun _ => [inst]) inside
      (below_singleton (created inst isInst)) fun _ _ => rfl).imp fun _ => trivial
  case h_2 receiver _ _ =>
    exact (completes_receiver valid (fun state => state.pointsTo receiver) inside
      (valid.nodes receiver) fun later more => (more.same valid).pointsTo_eq receiver).imp
        fun _ => trivial
  case h_3 => exact completes_nothing problem state

theorem completes_enter (coherent : problem.Coherent) (valid : Valid problem.arena state)
    (isCall : site.call < problem.arena.size)
    (created : ∀ inst, site.inst = some inst → inst < state.locations.size)
    (args : site.args = problem.arena.callArgs site.call)
    (inside : function < problem.arena.size) (calls : Calls problem state site.call function) :
    Completes problem state (enter problem site · function)
      (Entered problem state site.call site.isNew function) := by
  have found := completes_target valid isCall inside calls
  cases isParts : problem.arena.functionParts? function with
  | none =>
    refine (found.imp fun target => ?_).of_eq fun later _ => by simp [enter, isParts]
    exact ⟨target function mem_cons_self, by simp [isParts]⟩
  | some parts =>
    have passed := found.seq valid
      (completes_pass site coherent (Steps.valid found.1 valid) isParts)
    have returned := passed.seq valid
      (completes_giveBack site function (Steps.valid passed.1 valid) isCall)
    obtain ⟨grows, held⟩ := Steps.both returned.1 valid
    have bound := returned.seq valid (completes_bindThis site held
      (fun inst isInst => Nat.lt_of_lt_of_le (created inst isInst) grows.size_le) inside)
    refine (bound.imp ?_).of_eq fun later _ => enter_eq isParts later
    rintro ⟨⟨⟨target, same, arguments⟩, samePassed, holds⟩, -⟩
    refine ⟨target function mem_cons_self, fun other isOther => ?_⟩
    obtain rfl : parts = other := Option.some.inj (isParts.symm.trans isOther)
    rw [← args]
    simp only [samePassed.results_eq, samePassed.pointsTo_eq] at holds
    exact ⟨arguments, holds⟩

end

theorem Prepared.store_eq (before state : State) :
    (Prepared.of problem call callee isNew before).store (problem.arena.kind callee) state =
      ((Deposit.of? problem.arena call callee).map (·.store state)).getD state := by
  unfold Prepared.store storeArgs Deposit.of?
  cases kind : problem.arena.kind callee with
  | member method =>
    simp only [Prepared.of, kind]
    cases problem.arena.child? callee 0 with
    | none => rfl
    | some receiver => split <;> simp_all [Deposit.store]
  | _ => rfl

theorem completes_storeArg (valid : Valid problem.arena state) {key : String}
    (listed : key ∈ problem.keys) (receiver : Nat)
    (inside : arg < problem.arena.size ∧ written? problem.arena arg = some arg) :
    Completes problem state (storeArg receiver key · arg) (∀ owner ∈ state.pointsTo receiver,
      ∀ location ∈ state.pointsTo arg, location ∈ state.stores.get owner key) := by
  have each := @completes_foldl problem state Nat
    (fun state owner => state.addStore owner key (state.pointsTo arg) arg)
    (state.pointsTo receiver) _ valid fun middle held more owner member =>
      completes_store held (fun state => state.pointsTo arg)
        (Nat.lt_of_lt_of_le ((valid.nodes receiver).2 owner member) more.size_le) listed
        (held.nodes arg) inside.1 (fun location stored => ⟨arg, inside.2, stored⟩)
        fun later after => (after.same held).pointsTo_eq arg
  refine (each.imp fun all owner member => ?_).of_eq fun later more => by
    simp only [storeArg, (more.same valid).pointsTo_eq receiver]
  obtain ⟨middle, same, holds⟩ := all owner member
  rwa [same.stores, same.pointsTo_eq] at holds

theorem completes_deposit (valid : Valid problem.arena state)
    (listed : deposit.key ∈ problem.keys) (inside : ∀ arg ∈ deposit.args,
      arg < problem.arena.size ∧ written? problem.arena arg = some arg) :
    Completes problem state deposit.store (deposit.Kept state) := by
  refine (completes_foldl valid fun middle held _ arg member =>
    completes_storeArg held listed deposit.receiver (inside arg member)).imp fun all arg member => ?_
  obtain ⟨middle, same, holds⟩ := all arg member
  simpa only [same.pointsTo_eq, same.stores] using holds

theorem Deposit.of?_eq_some (found : Deposit.of? problem.arena call callee = some deposit) :
    deposit.key ∈ problem.keys ∧ deposit.args ⊆ problem.arena.callArgs call := by
  unfold Deposit.of? at found
  split at found
  · split_ifs at found <;> cases found <;> simp [Problem.keys, take_subset]
  · cases found

section

variable {call callee : Nat} {isNew : Bool}

theorem Same.prepared_eq (same : Same state other)
    (valid : Valid problem.arena state) (call callee : Nat) (isNew : Bool) :
    Prepared.of problem call callee isNew other = Prepared.of problem call callee isNew state := by
  have known : ∀ id ∈ state.pointsTo callee, other.location id = state.location id :=
    fun id member => same.location ((valid.nodes callee).2 id member)
  have parents : (state.pointsTo callee).filter (fun id => (other.location id).isCallable) =
      (state.pointsTo callee).filter fun id => (state.location id).isCallable :=
    filter_congr fun id member => by rw [known id member]
  have targets : (state.pointsTo callee).filterMap
      (fun id => targetOf? problem.arena (other.location id)) =
      (state.pointsTo callee).filterMap fun id => targetOf? problem.arena (state.location id) :=
    filterMap_congr fun id member => by rw [known id member]
  simp only [Prepared.of, same.pointsTo_eq, same.locationOf, parents, targets]

theorem completes_call (coherent : problem.Coherent) (valid : Valid problem.arena state)
    (listed : .call call callee isNew ∈ problem.rules) :
    Completes problem state (applyCall problem call callee isNew)
      (Satisfied problem state (.call call callee isNew)) := by
  let prepared := Prepared.of problem call callee isNew state
  have isCall := (coherent.within _ listed).1
  have inside := lt_size_of_call isCall
  have created : ∀ inst, prepared.site.inst = some inst → inst < state.locations.size :=
    fun _ => valid.lt_of_inst
  have inherits : Completes problem state prepared.inherit True := by
    unfold Prepared.inherit
    split
    case h_1 inst found =>
      refine (@completes_foldl problem state Nat (·.addPrototype inst ·) prepared.parents
        (fun _ _ => True) valid fun middle held more location member => ?_).imp fun _ => trivial
      have known := (valid.nodes callee).2 location (mem_of_mem_filter member)
      exact (completes_prototype held (Nat.lt_of_lt_of_le (created inst found) more.size_le)
        (Nat.lt_of_lt_of_le known more.size_le)).imp fun _ => trivial
    case h_2 => exact completes_nothing problem state
  have answers : ∀ middle, Valid problem.arena middle →
      Completes problem middle prepared.answer True := by
    intro middle held
    unfold Prepared.answer
    split
    case isTrue host =>
      obtain rfl : isNew = false := Prepared.notNew_of_answers host
      exact completes_external held isCall
    case isFalse => exact completes_nothing problem middle
  have enters : ∀ middle, Valid problem.arena middle → Grows state middle →
      Completes problem middle (prepared.enterAll problem)
        (∀ function ∈ prepared.targets, Entered problem middle call isNew function) := by
    intro middle held more
    refine (completes_foldl held fun later good grows function member =>
      completes_enter prepared.site coherent good inside (fun inst found => ?_) rfl
        (valid.lt_of_mem_targets member)
        ((calls_of_mem_targets listed member).grows valid (more.trans grows))).imp ?_
    · exact Nat.lt_of_lt_of_le (created inst found) (more.trans grows).size_le
    · intro all function member
      obtain ⟨later, same, entered⟩ := all function member
      exact same.entered_iff.mp entered
  have stores : ∀ middle, Valid problem.arena middle →
      Completes problem middle (prepared.store (problem.arena.kind callee))
        (∀ deposit ∈ Deposit.of? problem.arena call callee, deposit.Kept middle) := by
    intro middle held
    cases found : Deposit.of? problem.arena call callee with
    | none =>
      refine ((completes_nothing problem middle).imp (by simp)).of_eq fun later _ => ?_
      rw [Prepared.store_eq, found]
      rfl
    | some deposit =>
      obtain ⟨key, args⟩ := Deposit.of?_eq_some found
      refine ((completes_deposit held key fun arg member =>
        coherent.written?_arg (args member)).imp (by simp)).of_eq fun later _ => ?_
      rw [Prepared.store_eq, found]
      rfl
  have first := inherits.seq valid (answers _ (Steps.valid inherits.1 valid))
  obtain ⟨grows, held⟩ := Steps.both first.1 valid
  have second := first.seq valid (enters _ held grows)
  have third := second.seq valid (stores _ (Steps.valid second.1 valid))
  refine (third.imp ?_).of_eq fun later more => by
    rw [applyCall_eq, (more.same valid).prepared_eq valid]
  rintro ⟨⟨-, same, entered⟩, whole, kept⟩
  refine ⟨fun id member function target => ?_, fun deposit found => whole.kept_iff.mp (kept deposit found)⟩
  rw [← same.entered_iff]
  exact entered function ((mem_ofList _).mpr (mem_filterMap.mpr ⟨id, member, target⟩))

end

def Steady (problem : Problem) (state : State) : Rule → Prop
  | .read object _ _ => state.pointsTo object ≠ [] ∨ problem.options.prototypeFallback = false
  | _ => True

section

variable {other : State} (same : Same state other)

include same

theorem Same.steady {rule : Rule} (steady : Steady problem other rule) :
    Steady problem state rule := by
  cases rule with
  | read object key target => simpa only [Steady, same.pointsTo_eq] using steady
  | _ => trivial

theorem Same.stored_eq (owner : Nat) (key : Option String) :
    other.stored owner key = state.stored owner key := by
  cases key <;> simp only [State.stored, same.stores]

theorem Same.readOwners_eq {object target : Nat} {key : Option String}
    (steady : Steady problem state (.read object key target)) :
    other.readOwners problem.options object key = state.readOwners problem.options object key := by
  simp only [State.readOwners, same.pointsTo_eq, State.withPrototypes, same.prototypes]
  rcases steady with known | exact
  · have some : (state.pointsTo object).isEmpty = false := by simpa using known
    simp [some]
  · simp [exact]

end

def State.found (options : Options) (object : Nat) (key : Option String) (state : State) : NatSet :=
  (state.readOwners options object key).resolved.foldl
    (fun found owner => NatSet.union found (state.stored owner key)) []

section

variable (valid : Valid problem.arena state) (object : Nat) (key : Option String) {target : Nat}
  (inside : target < problem.arena.size)

include valid inside

theorem completes_found : Completes problem state
    (·.addNode target (state.found problem.options object key))
    (Satisfied problem state (.read object key target)) := by
  have located : state.Located (state.found problem.options object key) :=
    below_foldl_union (below_nil state.locations.size)
      (fun owner _ => valid.stored owner key)
  refine (completes_node valid (fun _ => state.found problem.options object key) inside located
    fun _ _ => rfl).imp fun all owner member location held => ?_
  refine all location ((mem_foldl_union _ _ _).mpr (.inr ⟨owner, ?_, held⟩))
  have known : (state.pointsTo object).isEmpty = false := by
    cases found : state.pointsTo object with
    | nil => simp [found] at member
    | cons => rfl
  simp only [State.readOwners, known, Bool.not_false, if_true, ReadOwners.resolved,
    State.withPrototypes]
  exact (mem_union _ _).mpr (.inl member)

theorem completes_read (steady : Steady problem state (.read object key target)) :
    Completes problem state (applyRead problem.options object key target)
      (Satisfied problem state (.read object key target)) := by
  refine (completes_found valid object key inside).of_eq fun later more => ?_
  have same := more.same valid
  simp only [applyRead, State.found, same.readOwners_eq steady, same.stored_eq]

end

theorem Valid.lt_of_unknownOwner (valid : Valid problem.arena state) (left : Nat) :
    (state.unknownOwner left).2 < (state.unknownOwner left).1.locations.size := by
  unfold State.unknownOwner
  split
  case h_1 location found =>
    obtain ⟨⟨kind, known⟩, -⟩ := valid.assigned.unknown left location found
    exact (Array.getElem?_eq_some_iff.mp known).1
  case h_2 => simp [State.addLocation]

theorem completes_write (valid : Valid problem.arena state) {left object : Nat}
    {key : Option String} (isMember : ∃ name, problem.arena.kind left = .member name)
    (writes : written? problem.arena left = some value) (listed : key.getD anyKey ∈ problem.keys) :
    Completes problem state (applyWrite left object key value)
      (Satisfied problem state (.write left object key value)) := by
  have inside : left < problem.arena.size := by
    obtain ⟨name, kind⟩ := isMember
    exact Arena.lt_size_of_kind (by simp [kind])
  cases found : state.pointsTo object with
  | nil =>
    -- The unknown owner is looked up by the left side, so it is the same one the next time.
    let middle := (state.unknownOwner left).1
    let owner := (state.unknownOwner left).2
    have made : Step problem state middle := .unknownOwner isMember
    have held := made.valid valid
    have stored := completes_store held (fun state => state.pointsTo value)
      (valid.lt_of_unknownOwner left) listed (held.nodes value) inside
      (fun location stored => ⟨value, writes, stored⟩)
      fun later more => (more.same held).pointsTo_eq value
    have applied : applyWrite left object key value state =
        middle.addStore owner (key.getD anyKey) (middle.pointsTo value) left := by
      simp [applyWrite, found, middle, owner]
    unfold Completes
    rw [applied]
    refine ⟨.head made stored.1, fun quiet => ⟨fun _ member => ?_, fun later more => ?_⟩⟩
    · rw [found] at member
      cases member
    have same : middle.facts = state.facts := by
      have early := (made.grows valid).facts
      have late : middle.facts ≤
          (middle.addStore owner (key.getD anyKey) (middle.pointsTo value) left).facts :=
        (Steps.grows stored.1 held).facts
      omega
    have assigned : middle.unknownOwners[left]? = some owner := by
      simp only [middle, owner]
      unfold State.unknownOwner
      split
      · assumption
      · simp
    have growth := (Steps.grows stored.1 held).trans (Steps.grows more.1 (Steps.valid stored.1 held))
    have again : later.unknownOwner left = (later, owner) := by
      simp [State.unknownOwner, growth.unknownOwners left owner assigned]
    have nothing : later.pointsTo object = [] := by
      rw [← found]
      exact ((Later.trans ⟨.head made stored.1, quiet⟩ more).same valid).pointsTo_eq object
    have still := (stored.2 (quiet.trans same.symm)).2 later more
    simpa [applyWrite, nothing, again] using still
  | cons first others =>
    have each := @completes_foldl problem state Nat
      (fun middle owner => middle.addStore owner (key.getD anyKey) (state.pointsTo value) left)
      (state.pointsTo object) _ valid fun middle held more owner member =>
        completes_store held (fun _ => state.pointsTo value)
          (Nat.lt_of_lt_of_le ((valid.nodes object).2 owner member) more.size_le) listed
          ((valid.nodes value).mono more.size_le) inside
          (fun location stored => ⟨value, writes, more.nodes value location stored⟩) fun _ _ => rfl
    refine (each.imp fun all owner member => ?_).of_eq fun later more => ?_
    · obtain ⟨middle, same, holds⟩ := all owner member
      rwa [same.stores] at holds
    · simp only [applyWrite, (more.same valid).pointsTo_eq, found]

theorem Same.receiversFrom_eq (same : Same state other) (arena : Arena)
    (holder : Nat) (above : List Nat) :
    receiversFrom arena other holder above = receiversFrom arena state holder above := by
  fun_induction receiversFrom arena state holder above with
  | case1 holder property outer above own isGroup inner ih =>
    rw [receiversFrom, ih, same.locationOf]
    exact if_pos inner
  | case2 holder property outer above own isGroup plain =>
    rw [receiversFrom, same.locationOf]
    exact if_neg plain
  | case3 above holder short => rw [receiversFrom.eq_2 _ _ _ _ short, same.locationOf]

theorem Same.receiversOf_eq (same : Same state other) (arena : Arena)
    (holder : Nat) : Alias.receivers arena other holder = Alias.receivers arena state holder := by
  unfold Alias.receivers
  rw [same.locationOf, same.prototypes, same.receiversFrom_eq]

theorem completes_member (valid : Valid problem.arena state) {holder property : Nat}
    {key : Option String} (listed : key.getD anyKey ∈ problem.keys)
    (isProperty : property < problem.arena.size)
    (writes : written? problem.arena property = some value) :
    Completes problem state (applyMember problem.arena holder property key value)
      (Satisfied problem state (.member holder property key (some value))) := by
  cases found : state.locationOf[holder]? with
  | none =>
    refine ((completes_nothing problem state).imp fun _ => ?_).of_eq fun later more => ?_
    · simp [Satisfied, found]
    · simp [applyMember, (more.same valid).locationOf, found]
  | some owner =>
    have stored := (completes_store valid (fun state => state.pointsTo value)
      (valid.lt_of_locationOf found) listed (valid.nodes value) isProperty
      (fun location stored => ⟨value, writes, stored⟩)
      fun later more => (more.same valid).pointsTo_eq value).imp fun all =>
        show Satisfied problem state (.member holder property key (some value)) from
          fun other isOther => Option.some.inj (found.symm.trans isOther) ▸ all
    cases kind : problem.arena.kind value with
    | function name form paramCount exprBody =>
      by_cases arrow : form = .arrow
      · refine stored.of_eq fun later more => ?_
        simp only [applyMember, (more.same valid).locationOf, found, kind, if_pos arrow]
      · have inside : value < problem.arena.size := Arena.lt_size_of_kind (by simp [kind])
        have held := Steps.valid stored.1 valid
        have bound := completes_receiver held
          (fun state => Alias.receivers problem.arena state holder) inside
          (held.receiversOf holder)
          fun later more => (more.same held).receiversOf_eq problem.arena holder
        refine ((stored.seq valid bound).imp And.left).of_eq fun later more => ?_
        simp only [applyMember, (more.same valid).locationOf, found, kind, if_neg arrow]
    | _ =>
      refine stored.of_eq fun later more => ?_
      simp only [applyMember, (more.same valid).locationOf, found, kind]

theorem completes_apply (coherent : problem.Coherent) (valid : Valid problem.arena state)
    (member : rule ∈ problem.rules) (steady : Steady problem state rule) :
    Completes problem state (rule.apply problem) (Satisfied problem state rule) := by
  have within := coherent.within rule member
  have written : ∀ symbol, rule.symbol? = some symbol → symbol ∈ problem.symbols :=
    fun symbol => problem.mem_symbols member
  have listed : ∀ key, rule.key? = some key → key ∈ problem.keys :=
    fun key => problem.mem_keys member
  cases rule with
  | copy source target =>
    exact completes_node valid (fun state => state.pointsTo source) within
      (valid.nodes source) fun later more => (more.same valid).pointsTo_eq source
  | identRead node symbol =>
    exact completes_node valid (fun state => state.symbols.image symbol) within
      (valid.symbols symbol) fun later more => by rw [(more.same valid).symbols]
  | identWrite node symbol =>
    exact completes_symbol valid (fun state => state.pointsTo node) (written symbol rfl)
      (valid.nodes node) fun later more => (more.same valid).pointsTo_eq node
  | declaration node symbol =>
    refine (completes_symbol valid (fun state => state.locationOf[node]?.toList)
      (written symbol rfl) (valid.created node) fun later more => by
        rw [(more.same valid).locationOf]).imp fun all location found => ?_
    exact all location (by simp [found])
  | this node owner =>
    exact completes_node valid (fun state => state.receivers.image owner) within
      (valid.receivers owner) fun later more => by rw [(more.same valid).receivers]
  | read object key target => exact completes_read valid object key within steady
  | write left object key value => exact completes_write valid within.2.1 within.2.2 (listed _ rfl)
  | member holder property key value =>
    cases value with
    | none => exact completes_nothing problem state
    | some value => exact completes_member valid (listed _ rfl) within.2.1 within.2.2
  | call call callee isNew => exact completes_call coherent valid member

theorem adds_apply (coherent : problem.Coherent) (valid : Valid problem.arena state)
    (member : rule ∈ problem.rules) :
    Adds problem state (rule.apply problem state) (Satisfied problem state rule) := by
  by_cases steady : Steady problem state rule
  · exact Adds.imp (completes_apply coherent valid member steady) And.left
  · cases rule with
    | read object key target =>
      exact Adds.imp (completes_found valid object key (coherent.within _ member)) And.left
    | _ => exact absurd trivial steady

end

end Alias

end Seepage

import Seepage.Proofs.Alias.Rest

set_option autoImplicit false

namespace Seepage.Alias

open List

variable {owner object location target : Nat} {key : Option String}

variable {problem : Problem} {state next : State}

structure Recorded (state : State) : Prop where
  stored : ∀ owner key, state.stores.get owner key ≠ [] → state.writes.get owner key ≠ []
  named : ∀ (owner : Nat) keys, state.writes[owner]? = some keys → ∃ key, key ∈ keys
  written : ∀ (owner : Nat) keys, state.writes[owner]? = some keys → ∀ key ∈ keys,
    state.writes.get owner key ≠ []

theorem Recorded.addStore (recorded : Recorded state) (valid : Valid problem.arena state)
    {writer : Nat} {key : String} {items : NatSet} (located : state.Located items) :
    Recorded (state.addStore owner key items writer) := by
  have stores : ∀ place name, (state.addStore owner key items writer).stores.get place name =
      if owner = place ∧ key = name then NatSet.union (state.stores.get owner key) items
      else state.stores.get place name :=
    Store.get_extend (valid.stores _ _).1 located.1
  have writes : ∀ place name, (state.addStore owner key items writer).writes.get place name =
      if owner = place ∧ key = name then NatSet.union (state.writes.get owner key) [writer]
      else state.writes.get place name :=
    Store.get_extend (valid.writes _ _).1 (.singleton writer)
  have filled : NatSet.union (state.writes.get owner key) [writer] ≠ [] :=
    ne_nil_of_mem ((NatSet.mem_union _ _).mpr (.inr mem_cons_self))
  have kept : ∀ place name, state.writes.get place name ≠ [] →
      (state.addStore owner key items writer).writes.get place name ≠ [] := by
    intro place name old
    rw [writes]
    split
    · exact filled
    · exact old
  have inner : ∀ place keys, (state.addStore owner key items writer).writes[place]? = some keys →
      state.writes[place]? = some keys ∨ place = owner ∧ ∃ set, keys =
        (state.writes.getD owner ∅).insert key set := by
    intro place keys found
    simp only [State.addStore, Store.extend] at found
    split at found
    · exact .inl found
    · exact (eq_or_of_getElem?_insert found).symm.imp_right fun new => ⟨new.1, _, new.2⟩
  constructor
  · intro place name
    rw [stores, writes]
    split
    · exact fun _ => filled
    · exact recorded.stored place name
  · intro place keys found
    rcases inner place keys found with old | ⟨-, set, rfl⟩
    · exact recorded.named place keys old
    · exact ⟨key, by simp⟩
  · intro place keys found name member
    rcases inner place keys found with old | ⟨rfl, set, rfl⟩
    · exact kept _ _ (recorded.written place keys old name member)
    · rw [writes]
      split
      · exact filled
      case isFalse differ =>
        have other : name ∈ state.writes.getD place ∅ := by
          rcases Std.TreeMap.mem_insert.mp member with same | other
          · exact absurd ⟨rfl, Std.LawfulEqOrd.eq_of_compare same⟩ differ
          · exact other
        cases known : state.writes[place]? with
        | none => simp [Std.TreeMap.getD_eq_getD_getElem?, known] at other
        | some old =>
          rw [Std.TreeMap.getD_eq_getD_getElem?, known] at other
          exact recorded.written place old known name other

theorem Step.recorded (step : Step problem state next) (valid : Valid problem.arena state)
    (recorded : Recorded state) : Recorded next := by
  cases step with
  | store known listed located inside => exact recorded.addStore valid located
  | unknownOwner isMember =>
    unfold State.unknownOwner
    split <;> exact ⟨recorded.stored, recorded.named, recorded.written⟩
  | external isCall =>
    unfold State.external
    split <;> exact ⟨recorded.stored, recorded.named, recorded.written⟩
  | _ => exact ⟨recorded.stored, recorded.named, recorded.written⟩

theorem Steps.recorded (steps : Steps problem state next) (valid : Valid problem.arena state)
    (recorded : Recorded state) : Recorded next := by
  induction steps with
  | refl => exact recorded
  | tail earlier step ih => exact step.recorded (Steps.valid earlier valid) ih

theorem recorded_initial (arena : Arena) : Recorded (.initial arena) := by
  constructor <;> simp [stores_initial, writes_initial, Store.get]

theorem Recorded.mem_ownersWriting (recorded : Recorded state) : owner ∈ state.ownersWriting key ↔
      ∃ name, (∀ wanted ∈ key, name = wanted) ∧ state.writes.get owner name ≠ [] := by
  have listed : owner ∈ state.ownersWriting key ↔
      ∃ keys, state.writes[owner]? = some keys ∧ key.all keys.contains = true := by
    simp [State.ownersWriting, Std.TreeMap.mem_toList_iff_getElem?_eq_some]
  rw [listed]
  constructor
  · rintro ⟨keys, found, wanted⟩
    cases key with
    | none =>
      obtain ⟨name, member⟩ := recorded.named owner keys found
      exact ⟨name, by simp, recorded.written owner keys found name member⟩
    | some name =>
      have member : name ∈ keys := by simpa using wanted
      exact ⟨name, by simp, recorded.written owner keys found name member⟩
  · rintro ⟨name, wanted, filled⟩
    cases found : state.writes[owner]? with
    | none => simp [Store.get, Std.TreeMap.getD_eq_getD_getElem?, found] at filled
    | some keys =>
      refine ⟨keys, rfl, ?_⟩
      have member : name ∈ keys := by
        by_contra absent
        apply filled
        simp [Store.get, Std.TreeMap.getD_eq_getD_getElem? (a := owner), found,
          Std.TreeMap.getD_eq_fallback absent]
      cases key with
      | none => rfl
      | some other =>
        obtain rfl := wanted other rfl
        simpa using member

theorem nodup_ownersWriting (state : State) (key : Option String) :
    (state.ownersWriting key).Nodup := by
  have distinct : (state.writes.toList.map (·.1)).Nodup := by
    rw [Std.TreeMap.map_fst_toList_eq_keys]
    exact Std.TreeMap.nodup_keys
  exact distinct.sublist (filter_sublist.map _)

theorem ownersWriting_subset (key : Option String) (early : Recorded state) (late : Recorded next)
    (grows : Grows state next) : state.ownersWriting key ⊆ next.ownersWriting key := by
  intro owner member
  obtain ⟨name, wanted, filled⟩ := early.mem_ownersWriting.mp member
  refine late.mem_ownersWriting.mpr ⟨name, wanted, ?_⟩
  obtain ⟨writer, known⟩ := exists_mem_of_ne_nil _ filled
  exact ne_nil_of_mem (grows.writes owner name writer known)

theorem resolved_of_nothing {options : Options} {object : Nat} (key : Option String)
    (nothing : state.pointsTo object = []) : (state.readOwners options object key).resolved =
      if options.prototypeFallback && !options.maxFallbackOwners.any
        ((state.ownersWriting key).length > ·) then state.ownersWriting key else [] := by
  rw [State.readOwners, nothing]
  cases options.prototypeFallback with
  | false => rfl
  | true =>
    change (if options.maxFallbackOwners.any ((state.ownersWriting key).length > ·) then
      ReadOwners.givenUp else .fallback (state.ownersWriting key)).resolved = _
    cases options.maxFallbackOwners.any ((state.ownersWriting key).length > ·) <;> rfl

theorem resolved_before (early : Recorded state) (late : Recorded next) (grows : Grows state next)
    (same : Same state next) (options : Options)
    (found : owner ∈ (next.readOwners options object key).resolved)
    (stored : location ∈ next.stored owner key) :
    owner ∈ (state.readOwners options object key).resolved ∨
      next.pointsTo object = [] ∧ ∃ name, key = some name ∧ next.stores.get owner name = [] ∧
        owner ∉ state.ownersWriting key := by
  have objects : next.pointsTo object = state.pointsTo object := same.pointsTo_eq object
  by_cases nothing : next.pointsTo object = []
  case neg =>
    left
    have known : (next.pointsTo object).isEmpty = false := by simpa using nothing
    simp only [State.readOwners, known, ← objects, State.withPrototypes, same.prototypes] at found ⊢
    exact found
  case pos =>
    rw [resolved_of_nothing key nothing] at found
    rw [resolved_of_nothing key (objects ▸ nothing)]
    by_cases looked : owner ∈ state.ownersWriting key
    · -- A look-up that is not given up now was not given up with fewer owners.
      left
      have fewer := List.Nodup.length_le_of_subset (nodup_ownersWriting state key)
        (ownersWriting_subset key early late grows)
      cases limit : options.maxFallbackOwners with
      | none => simp_all
      | some most =>
        simp only [limit, Option.any_some] at found ⊢
        split at found
        case isTrue within =>
          rw [if_pos ?_]
          · exact looked
          · simp only [Bool.and_eq_true, Bool.not_eq_true', decide_eq_false_iff_not] at within ⊢
            exact ⟨within.1, by omega⟩
        case isFalse => cases found
    · right
      have unwritten : ∀ name, (∀ wanted ∈ key, name = wanted) →
          next.stores.get owner name = [] := by
        intro name wanted
        by_contra filled
        rw [same.stores] at filled
        exact looked (early.mem_ownersWriting.mpr ⟨name, wanted, early.stored owner name filled⟩)
      refine ⟨nothing, ?_⟩
      cases key with
      | none =>
        obtain ⟨name, member⟩ := (Store.mem_getAny _ _).mp stored
        rw [unwritten name (by simp)] at member
        cases member
      | some name => exact ⟨name, rfl, unwritten name (by simp), looked⟩

theorem steps_rules (coherent : problem.Coherent) (valid : Valid problem.arena state)
    {rules : List Rule} (part : ∀ rule ∈ rules, rule ∈ problem.rules) :
    Steps problem state (rules.foldr (Rule.apply problem) state) := by
  rw [foldr_eq_foldl_reverse]
  exact (adds_each valid fun middle held _ rule member =>
    (adds_apply coherent held (part rule (mem_reverse.mp member))).imp fun _ => trivial).1

theorem mem_pointsTo_read (valid : Valid problem.arena state) {options : Options}
    (found : owner ∈ (state.readOwners options object key).resolved)
    (stored : location ∈ state.stored owner key) :
    location ∈ (applyRead options object key target state).pointsTo target := by
  have located := NatSet.below_foldl_union (NatSet.below_nil state.locations.size)
    (fun owner (_ : owner ∈ (state.readOwners options object key).resolved) =>
      valid.stored owner key)
  refine (Relation.mem_image_extend (valid.nodes target).1 located.1).mpr (.inr ⟨rfl, ?_⟩)
  rw [NatSet.mem_foldl_union]
  exact .inr ⟨owner, found, stored⟩

theorem stored_of_pass (coherent : problem.Coherent) (valid : Valid problem.arena state)
    (recorded : Recorded state) (quiet : (pass problem state).facts = state.facts)
    (member : .read object key target ∈ problem.rules)
    (found : owner ∈ ((pass problem state).readOwners problem.options object key).resolved)
    (stored : location ∈ (pass problem state).stored owner key) :
    location ∈ (pass problem state).pointsTo target ∨
      (pass problem state).pointsTo object = [] ∧ ∃ name, key = some name ∧
        (pass problem state).stores.get owner name = [] ∧ owner ∉ state.ownersWriting key := by
  obtain ⟨front, back, split⟩ := append_of_mem member
  have within : ∀ rule ∈ front ++ .read object key target :: back, rule ∈ problem.rules := by
    simp [split]
  -- The heap when the look-up has its turn in the pass, and right after it.
  let middle := back.foldr (Rule.apply problem) state
  let after := applyRead problem.options object key target middle
  have whole : pass problem state = front.foldr (Rule.apply problem) after := by
    simp only [pass, split, foldr_append, foldr_cons]
    rfl
  have first : Steps problem state middle :=
    steps_rules coherent valid fun rule inside => within rule (by simp [inside])
  obtain ⟨early, held⟩ := Steps.both first valid
  have second : Steps problem middle after := (adds_apply coherent held member).1
  obtain ⟨turn, good⟩ := Steps.both second held
  have third : Steps problem after (pass problem state) := by
    rw [whole]
    exact steps_rules coherent good fun rule inside => within rule (by simp [inside])
  have late := Steps.grows third good
  have rest := turn.trans late
  have kept : (pass problem state).facts = middle.facts := by
    have before := early.facts
    have behind := rest.facts
    omega
  have same := Steps.same (second.trans third) held kept
  have known := Steps.recorded first valid recorded
  rcases resolved_before known (Steps.recorded (second.trans third) held known) rest same
      problem.options found stored with looked | ⟨nothing, name, named, empty, unwritten⟩
  · left
    rw [same.stored_eq] at stored
    exact late.nodes target location (mem_pointsTo_read held looked stored)
  · refine .inr ⟨nothing, name, named, empty, fun written => unwritten ?_⟩
    exact ownersWriting_subset key recorded known early written

def Solution.beforeLast (solution : Solution) : State :=
  (pass solution.problem)^[solution.passes - 1] (.initial solution.problem.arena)

theorem stored_mem_pointsTo {file : Script.File} {arena : Arena}
    (read : Arena.ofFile file = .ok arena) (options : Options) :
    let heap := Solution.onPage arena options
    heap.state = pass heap.problem heap.beforeLast ∧
      ∀ object key target, .read object key target ∈ heap.problem.rules →
        ∀ owner ∈ (heap.readOwners object key).resolved,
          heap.pointsTo object ≠ [] ∨ (∀ name, key = some name →
            heap.state.stores.get owner name ≠ [] ∨ owner ∈ heap.beforeLast.ownersWriting key) →
          ∀ location ∈ heap.state.stored owner key, location ∈ heap.pointsTo target := by
  intro heap
  have well := Arena.wellNumbered_ofFile read
  have coherent : heap.problem.Coherent := coherent_ofArena well (Resolution.ofArena arena) options
  obtain ⟨valid, facts, -⟩ := initial_spec well
  obtain ⟨earlier, steps, last, quiet, -⟩ := @iterate_passes heap.problem _ coherent
    (heap.problem.factBound + 1) 0 valid (by simp [facts]) (by omega)
  have final : heap.state = pass heap.problem ((pass heap.problem)^[earlier] (.initial arena)) :=
    congrArg Prod.fst last
  have passes : heap.passes = earlier + 1 := (congrArg Prod.snd last).trans (by omega)
  have before : heap.beforeLast = (pass heap.problem)^[earlier] (.initial arena) := by
    rw [Solution.beforeLast, passes]
    rfl
  rw [← before] at steps final quiet
  refine ⟨final, fun object key target member owner found settled location stored => ?_⟩
  have recorded := Steps.recorded steps valid (recorded_initial arena)
  rw [Solution.readOwners, final] at found
  rw [final] at stored
  rw [Solution.pointsTo, final] at settled ⊢
  rcases stored_of_pass coherent (Steps.valid steps valid) recorded quiet member found stored with
    known | ⟨nothing, name, named, empty, unwritten⟩
  · exact known
  · rcases settled with known | written
    · exact absurd nothing known
    · rcases written name named with filled | looked
      · exact absurd empty filled
      · exact absurd looked unwritten

-- `var o = {[k]: {}}; o.a = o; u.a;`
def knownWriter : Script.File := .sample [
  .vars .varBinding [.mk (.ident "o") (some (.object [.keyed (.computed (.ident "k")) (.object []
    {}) {}] {})) {}] {},
  .expr (.assign "=" (.member (.ident "o") (.named "a") false {}) (.ident "o") {}) {},
  .expr (.member (.ident "u") (.named "a") false {}) {}]

theorem stored_mem_pointsTo_knownWriter : ∃ arena, Arena.ofFile knownWriter = .ok arena ∧
      let heap := Solution.onPage arena {}
      .read 17 (some "a") 16 ∈ heap.problem.rules ∧ heap.pointsTo 17 = [] ∧
        1 ∈ (heap.readOwners 17 (some "a")).resolved ∧ heap.state.stores.get 1 "a" ≠ [] ∧
        2 ∈ heap.state.stored 1 (some "a") ∧ 2 ∈ heap.pointsTo 16 := by
  obtain ⟨arena, read⟩ : ∃ arena, Arena.ofFile knownWriter = .ok arena := ⟨_, rfl⟩
  refine ⟨arena, read, ?_⟩
  intro heap
  obtain ⟨listed, nothing, resolved, filled, stored⟩ :
      .read 17 (some "a") 16 ∈ heap.problem.rules ∧ heap.pointsTo 17 = [] ∧
      1 ∈ (heap.readOwners 17 (some "a")).resolved ∧ heap.state.stores.get 1 "a" ≠ [] ∧
      2 ∈ heap.state.stored 1 (some "a") := by
    cases read
    decide +kernel
  refine ⟨listed, nothing, resolved, filled, stored, ?_⟩
  refine (stored_mem_pointsTo read {}).2 17 (some "a") 16 listed 1 resolved (.inr ?_) 2 stored
  intro name named
  cases named
  exact .inl filled

-- `var o = {[k]: {}}; (0, o).a = 0; u.a;`
def lateWriter : Script.File := .sample [
  .vars .varBinding [.mk (.ident "o") (some (.object [.keyed (.computed (.ident "k")) (.object []
    {}) {}] {})) {}] {},
  .expr (.assign "=" (.member (.paren (.sequence [.literal (.number "0") {}, .ident "o"] {}) {})
    (.named "a") false {}) (.literal (.number "0") {}) {}) {},
  .expr (.member (.ident "u") (.named "a") false {}) {}]

theorem stored_notMem_pointsTo_lateWriter : ∃ arena, Arena.ofFile lateWriter = .ok arena ∧
      let heap := Solution.onPage arena {}
      .read 19 (some "a") 18 ∈ heap.problem.rules ∧
        1 ∈ (heap.readOwners 19 (some "a")).resolved ∧
        2 ∈ heap.state.stored 1 (some "a") ∧ 2 ∉ heap.pointsTo 18 := by
  refine ⟨_, rfl, ?_⟩
  decide +kernel

end Seepage.Alias

import Seepage.Flow.Control

set_option autoImplicit false

namespace Seepage

open List

variable {id inner depth least finalizer : Nat} {aim : Aim} {label : Option String} {exits : Exits}

structure Bounds where
  placed : Nat → Prop
  left : Nat → Prop
  aimed : Nat → Prop
  drawn : ControlEdge → Prop
  leads : ∀ edge : ControlEdge, left edge.source → aimed edge.target → drawn edge
  turns : Nat → Prop := aimed
  aimed_of_turns : ∀ id, turns id → aimed id := by exact fun _ known => known

def Aim.Tied (turns : Nat → Prop) (floor : Nat) : Aim → Prop
  | .leave depth => depth + 1 < floor ∨ floor ≤ depth
  | .again depth target => depth + 1 < floor ∨ floor ≤ depth ∧ turns target

def FrameKind.Tied (bounds : Bounds) : FrameKind → Prop
  | .loop continueTo => bounds.turns continueTo
  | .guarded handler finalizer handling =>
    (handling = false → ∀ id ∈ handler, bounds.aimed id) ∧ ∀ id ∈ finalizer, bounds.aimed id
  | _ => True

inductive Around (bounds : Bounds) (exit floor : Nat) : List Frame → Prop where
  | ground (none : floor = 0) (last : bounds.aimed exit) : Around bounds exit floor []
  | wall {frame : Frame} {outer : List Frame} (here : outer.length + 1 = floor)
    (tied : frame.kind.Tied bounds) (final : frame.finalizer?.isSome) (plain : frame.labels = []) :
    Around bounds exit floor (frame :: outer)
  | inside {frame : Frame} {outer : List Frame} (tied : frame.kind.Tied bounds)
    (around : Around bounds exit floor outer) : Around bounds exit floor (frame :: outer)

def Exits.Tied (left : Nat → Prop) (exits : Exits) : Prop :=
  ∀ exit ∈ exits, left exit.1

structure Emitted.Tied (bounds : Bounds) (floor count : Nat) (emitted : Emitted) : Prop where
  vertices : ∀ vertex ∈ emitted.vertices, bounds.placed vertex
  edges : ∀ edge ∈ emitted.edges, bounds.drawn edge
  breaks : ∀ jump ∈ emitted.breaks, floor ≤ jump.1 ∧ (jump.1 < count → bounds.left jump.2)
  resumes : ∀ jump ∈ emitted.resumes, jump.2.depth < jump.1 ∧ jump.2.Tied bounds.turns floor

structure Piece.Tied (bounds : Bounds) (floor count : Nat) (piece : Piece) : Prop where
  emitted : piece.emitted.Tied bounds floor count
  exits : Exits.Tied bounds.left piece.exits

section

variable {bounds : Bounds} {floor count : Nat}

theorem Exits.tied_append {left : Nat → Prop} {first second : Exits} :
    Exits.Tied left (first ++ second) ↔ Exits.Tied left first ∧ Exits.Tied left second :=
  forall_mem_append

variable {source : Nat}

theorem Exits.tied_singleton {left : Nat → Prop} {label : ControlLabel} (known : left source) :
    Exits.Tied left [(source, label)] := by
  simpa [Exits.Tied] using known

namespace Emitted

@[simp] theorem vertices_append (first second : Emitted) :
    (first ++ second).vertices = first.vertices ++ second.vertices := rfl

@[simp] theorem edges_append (first second : Emitted) :
    (first ++ second).edges = first.edges ++ second.edges := rfl

@[simp] theorem breaks_append (first second : Emitted) :
    (first ++ second).breaks = first.breaks ++ second.breaks := rfl

@[simp] theorem resumes_append (first second : Emitted) :
    (first ++ second).resumes = first.resumes ++ second.resumes := rfl

theorem tied_append {first second : Emitted} : (first ++ second).Tied bounds floor count ↔
    first.Tied bounds floor count ∧ second.Tied bounds floor count := by
  constructor
  · rintro ⟨vertices, edges, breaks, resumes⟩
    simp only [vertices_append, edges_append, breaks_append, resumes_append,
      forall_mem_append] at vertices edges breaks resumes
    exact ⟨⟨vertices.1, edges.1, breaks.1, resumes.1⟩, ⟨vertices.2, edges.2, breaks.2, resumes.2⟩⟩
  · rintro ⟨first, second⟩
    constructor <;> simp only [vertices_append, edges_append, breaks_append, resumes_append,
      forall_mem_append]
    · exact ⟨first.vertices, second.vertices⟩
    · exact ⟨first.edges, second.edges⟩
    · exact ⟨first.breaks, second.breaks⟩
    · exact ⟨first.resumes, second.resumes⟩

theorem tied_nothing : Tied bounds floor count {} := by
  constructor <;> simp

theorem tied_concat {parts : List Emitted} (each : ∀ part ∈ parts, part.Tied bounds floor count) :
    (concat parts).Tied bounds floor count := by
  induction parts with
  | nil => exact tied_nothing
  | cons part rest ih =>
    obtain ⟨here, there⟩ := forall_mem_cons.mp each
    exact tied_append.mpr ⟨here, ih there⟩

theorem tied_vertex (known : bounds.placed id) : (vertex id).Tied bounds floor count := by
  constructor <;> simp [vertex, known]

theorem tied_ofEdges {edges : List ControlEdge} (each : ∀ edge ∈ edges, bounds.drawn edge) :
    (ofEdges edges).Tied bounds floor count := by
  constructor <;> simp [ofEdges]
  exact each

variable {emitted : Emitted}

theorem Tied.close (tied : emitted.Tied bounds floor inner) (closes : count ≤ inner) :
    emitted.Tied bounds floor count where
  vertices := tied.vertices
  edges := tied.edges
  breaks jump listed :=
    ⟨(tied.breaks jump listed).1, fun out =>
      (tied.breaks jump listed).2 (Nat.lt_of_lt_of_le out closes)⟩
  resumes := tied.resumes

theorem Tied.breaksAt (tied : emitted.Tied bounds floor count)
    (closes : depth < count) : Exits.Tied bounds.left (emitted.breaksAt depth) := by
  intro exit member
  obtain ⟨jump, listed, rfl⟩ := mem_map.mp member
  obtain ⟨known, here⟩ := mem_filter.mp listed
  exact (tied.breaks jump known).2 (by rwa [beq_iff_eq.mp here])

theorem Tied.resumesAt (tied : emitted.Tied bounds floor count)
    (member : aim ∈ emitted.resumesAt depth) : aim.depth < depth ∧ aim.Tied bounds.turns floor := by
  have listed := mem_eraseDups.mp member
  obtain ⟨jump, found, rfl⟩ := mem_map.mp listed
  obtain ⟨known, here⟩ := mem_filter.mp found
  rw [← beq_iff_eq.mp here]
  exact tied.resumes jump known

end Emitted

variable {preds : Exits}

theorem drawn_connect {target : Nat} (sources : preds.Tied bounds.left)
    (known : bounds.aimed target) : ∀ edge ∈ connect preds target, bounds.drawn edge := by
  intro edge member
  obtain ⟨exit, listed, rfl⟩ := mem_map.mp member
  exact bounds.leads _ (sources exit listed) known

theorem drawn_connectAs {target : Nat} (label : ControlLabel) (sources : preds.Tied bounds.left)
    (known : bounds.aimed target) : ∀ edge ∈ connectAs label preds target, bounds.drawn edge := by
  intro edge member
  obtain ⟨exit, listed, rfl⟩ := mem_map.mp member
  exact bounds.leads _ (sources exit listed) known

theorem getElem?_reverse_innermost (frame : Frame) (outer : List Frame) :
    (frame :: outer).reverse[outer.length]? = some frame := by
  simp

theorem getElem?_reverse_outer {outer : List Frame} {found : Frame} (frame : Frame)
    (here : outer.reverse[depth]? = some found) :
    (frame :: outer).reverse[depth]? = some found := by
  have known := (List.getElem?_eq_some_iff.mp here).1
  rw [reverse_cons, getElem?_append_left known, here]

variable {frames : List Frame}

theorem exists_of_finalizerFrom?
    (found : finalizerFrom? least frames = some (depth, finalizer)) : least ≤ depth ∧
      ∃ frame, frames.reverse[depth]? = some frame ∧ frame.finalizer? = some finalizer := by
  induction frames with
  | nil => cases found
  | cons frame outer ih =>
    rw [finalizerFrom?, Option.ite_none_left_eq_some] at found
    obtain ⟨deep, found⟩ := found
    cases isFinal : frame.finalizer? with
    | some own =>
      simp only [isFinal, Option.some.injEq, Prod.mk.injEq] at found
      obtain ⟨rfl, rfl⟩ := found
      exact ⟨Nat.le_of_not_lt deep, frame, getElem?_reverse_innermost frame outer, isFinal⟩
    | none =>
      simp only [isFinal] at found
      obtain ⟨above, other, here, known⟩ := ih found
      exact ⟨above, other, getElem?_reverse_outer frame here, known⟩

variable {aim : Aim}

theorem exists_of_breakAim? (found : breakAim? label frames = some aim) :
    ∃ depth frame, aim = .leave depth ∧ frames.reverse[depth]? = some frame ∧
      frame.takesBreak label := by
  induction frames with
  | nil => cases found
  | cons frame outer ih =>
    rw [breakAim?] at found
    by_cases takes : frame.takesBreak label
    · rw [if_pos takes, Option.some.injEq] at found
      exact ⟨_, frame, found.symm, getElem?_reverse_innermost frame outer, takes⟩
    · rw [if_neg takes] at found
      obtain ⟨depth, other, isAim, here, known⟩ := ih found
      exact ⟨depth, other, isAim, getElem?_reverse_outer frame here, known⟩

theorem exists_of_continueAim? (found : continueAim? label frames = some aim) :
    ∃ depth target frame, aim = .again depth target ∧ frames.reverse[depth]? = some frame ∧
      frame.continueTo? label = some target := by
  induction frames with
  | nil => cases found
  | cons frame outer ih =>
    rw [continueAim?] at found
    cases isLoop : frame.continueTo? label with
    | some target =>
      simp only [isLoop, Option.some.injEq] at found
      exact ⟨_, target, frame, found.symm, getElem?_reverse_innermost frame outer, isLoop⟩
    | none =>
      simp only [isLoop] at found
      obtain ⟨depth, target, other, isAim, here, known⟩ := ih found
      exact ⟨depth, target, other, isAim, getElem?_reverse_outer frame here, known⟩

namespace Frame

variable {frame : Frame}

theorem aimed_of_finalizer? (tied : frame.kind.Tied bounds)
    (found : frame.finalizer? = some finalizer) : bounds.aimed finalizer := by
  unfold Frame.finalizer? at found
  split at found
  case h_1 isGuarded =>
    rw [isGuarded] at tied
    exact tied.2 finalizer found
  case h_2 => cases found

theorem turns_of_continueTo? {target : Nat} (tied : frame.kind.Tied bounds)
    (found : frame.continueTo? label = some target) : bounds.turns target := by
  unfold Frame.continueTo? at found
  split at found
  case h_1 isLoop =>
    rw [isLoop] at tied
    rw [Option.ite_none_right_eq_some, Option.some.injEq] at found
    exact found.2 ▸ tied
  case h_2 => cases found

theorem takesBreak_of_finalizer? (final : frame.finalizer?.isSome) (plain : frame.labels = [])
    (label : Option String) : frame.takesBreak label = false := by
  unfold Frame.finalizer? at final
  split at final
  case h_1 isGuarded => cases label <;> simp [Frame.takesBreak, plain, isGuarded]
  case h_2 => cases final

theorem continueTo?_of_finalizer? (final : frame.finalizer?.isSome) (label : Option String) :
    frame.continueTo? label = none := by
  unfold Frame.finalizer? at final
  split at final
  case h_1 isGuarded => simp [Frame.continueTo?, isGuarded]
  case h_2 => cases final

end Frame

namespace Around

theorem anywhere (all : ∀ id, bounds.turns id) (exit : Nat) (frames : List Frame) :
    Around bounds exit 0 frames := by
  have aimed (id : Nat) : bounds.aimed id := bounds.aimed_of_turns id (all id)
  induction frames with
  | nil => exact .ground rfl (aimed exit)
  | cons frame outer ih =>
    refine .inside ?_ ih
    cases frame.kind <;> simp [FrameKind.Tied, all, aimed]

variable {exit : Nat} {frames : List Frame} (around : Around bounds exit floor frames)

include around

theorem floor_le : floor ≤ frames.length := by
  induction around with
  | ground none => exact Nat.le_of_eq none
  | wall here => exact Nat.le_of_eq here.symm
  | inside _ _ ih => exact Nat.le_succ_of_le ih

theorem aimed_of_finalizerFrom?
    (found : finalizerFrom? least frames = some (depth, finalizer)) : bounds.aimed finalizer := by
  induction around with
  | ground => cases found
  | @wall frame outer _ tied final =>
    obtain ⟨own, isFinal⟩ := Option.isSome_iff_exists.mp final
    rw [finalizerFrom?, Option.ite_none_left_eq_some, isFinal] at found
    cases found.2
    exact frame.aimed_of_finalizer? tied isFinal
  | @inside frame outer tied _ ih =>
    rw [finalizerFrom?, Option.ite_none_left_eq_some] at found
    cases isFinal : frame.finalizer? with
    | some own =>
      simp only [isFinal] at found
      cases found.2
      exact frame.aimed_of_finalizer? tied isFinal
    | none =>
      simp only [isFinal] at found
      exact ih found.2

theorem floor_le_of_finalizerFrom? (none : finalizerFrom? least frames = none) : floor ≤ least := by
  induction around with
  | ground isZero => exact isZero ▸ Nat.zero_le least
  | @wall frame outer here _ final =>
    obtain ⟨own, isFinal⟩ := Option.isSome_iff_exists.mp final
    simp only [finalizerFrom?, isFinal, ite_eq_left_iff, reduceCtorEq, imp_false,
      Decidable.not_not] at none
    exact here ▸ none
  | @inside frame outer _ around ih =>
    rw [finalizerFrom?] at none
    by_cases deep : outer.length < least
    · exact Nat.le_trans around.floor_le (Nat.le_of_lt deep)
    · rw [if_neg deep] at none
      cases isFinal : frame.finalizer? with
      | some own => simp [isFinal] at none
      | none => exact ih (by simpa [isFinal] using none)

theorem aimed_exit (open_ : floor = 0) : bounds.aimed exit := by
  induction around with
  | ground _ last => exact last
  | wall here => omega
  | inside _ _ ih => exact ih

theorem tied_breakAim?
    (found : breakAim? label frames = some aim) : aim.Tied bounds.turns floor := by
  induction around with
  | ground => cases found
  | @wall frame outer here _ final plain =>
    rw [breakAim?, frame.takesBreak_of_finalizer? final plain] at found
    obtain ⟨depth, _, rfl, above, -⟩ := exists_of_breakAim? found
    have known := (List.getElem?_eq_some_iff.mp above).1
    rw [length_reverse] at known
    exact .inl (by omega)
  | @inside frame outer _ around ih =>
    rw [breakAim?] at found
    by_cases takes : frame.takesBreak label
    · rw [if_pos takes, Option.some.injEq] at found
      exact found ▸ .inr around.floor_le
    · rw [if_neg takes] at found
      exact ih found

theorem tied_continueAim?
    (found : continueAim? label frames = some aim) : aim.Tied bounds.turns floor := by
  induction around with
  | ground => cases found
  | @wall frame outer here _ final =>
    rw [continueAim?, frame.continueTo?_of_finalizer? final] at found
    obtain ⟨depth, _, _, rfl, above, -⟩ := exists_of_continueAim? found
    have known := (List.getElem?_eq_some_iff.mp above).1
    rw [length_reverse] at known
    exact .inl (by omega)
  | @inside frame outer tied around ih =>
    rw [continueAim?] at found
    cases isLoop : frame.continueTo? label with
    | some target =>
      simp only [isLoop, Option.some.injEq] at found
      exact found ▸ .inr ⟨around.floor_le, frame.turns_of_continueTo? tied isLoop⟩
    | none =>
      simp only [isLoop] at found
      exact ih found

theorem loop {continueTo : Nat} (again : bounds.turns continueTo) (labels : List String) :
    Around bounds exit floor (⟨.loop continueTo, labels⟩ :: frames) :=
  .inside again around

theorem choice (labels : List String) : Around bounds exit floor (⟨.choice, labels⟩ :: frames) :=
  .inside trivial around

theorem guarded (handler finalizer : Option Nat) (handling : Bool)
    (catches : handling = false → ∀ id ∈ handler, bounds.aimed id)
    (ends : ∀ id ∈ finalizer, bounds.aimed id) :
    Around bounds exit floor (⟨.guarded handler finalizer handling, []⟩ :: frames) :=
  .inside ⟨catches, ends⟩ around

end Around

variable {exit : Nat} {frames : List Frame} (around : Around bounds exit floor frames)

include around

theorem tied_jump (known : bounds.left source) (aims : aim.Tied bounds.turns floor) :
    (jump frames source aim).Tied bounds floor count := by
  unfold jump
  split
  case h_1 depth finalizer found =>
    have inner : aim.depth < depth := (exists_of_finalizerFrom? found).1
    have edge := bounds.leads ⟨source, finalizer, .jump⟩ known
      (around.aimed_of_finalizerFrom? found)
    constructor <;> simp [edge, inner, aims]
  case h_2 none =>
    have deep := around.floor_le_of_finalizerFrom? none
    cases aim with
    | leave depth =>
      simp only [Aim.depth] at deep
      have deep : floor ≤ depth := by rcases aims with past | here <;> omega
      constructor <;> simp [known, deep]
    | again depth target =>
      simp only [Aim.depth] at deep
      rcases aims with past | ⟨-, turns⟩
      · omega
      · have edge := bounds.leads ⟨source, target, .jump⟩ known (bounds.aimed_of_turns _ turns)
        constructor <;> simp [edge]

theorem aimed_departure : bounds.aimed (departure frames exit).1 := by
  unfold departure
  split
  case h_1 found => exact around.aimed_of_finalizerFrom? found
  case h_2 none =>
    exact around.aimed_exit (Nat.le_zero.mp (around.floor_le_of_finalizerFrom? none))

theorem tied_depart (known : bounds.left source) :
    (depart frames exit source).Tied bounds floor count := by
  have edge := bounds.leads ⟨source, _, .jump⟩ known (aimed_departure around)
  constructor <;> simp [depart, edge]

theorem tied_departAll (sources : exits.Tied bounds.left) :
    (departAll frames exit exits).Tied bounds floor count := by
  have edges := drawn_connectAs .jump sources (aimed_departure around)
  constructor <;> simp [departAll]
  exact edges

theorem tied_raise (known : bounds.left source) :
    (raise exit source frames).Tied bounds floor count := by
  have edge (target : Nat) := bounds.leads ⟨source, target, .exception⟩ known
  -- An exception gets past a construct only if it has neither handler nor finalizer.
  have pass {frame : Frame} {outer : List Frame} (tied : frame.kind.Tied bounds)
      (past : frame.finalizer? = none → (raise exit source outer).Tied bounds floor count) :
      (raise exit source (frame :: outer)).Tied bounds floor count := by
    unfold raise
    split
    case h_1 handler _ isGuarded =>
      rw [isGuarded] at tied
      constructor <;> simp [edge _ (tied.1 rfl handler rfl)]
    case h_2 finalizer _ _ isGuarded =>
      rw [isGuarded] at tied
      constructor <;> simp [edge _ (tied.2 finalizer rfl)]
    case h_3 unguarded =>
      refine past ?_
      unfold Frame.finalizer?
      split
      case h_1 finalizer _ isGuarded =>
        cases finalizer with
        | none => rfl
        | some id => exact absurd isGuarded (unguarded _ _ _)
      case h_2 => rfl
  induction around with
  | ground _ last => constructor <;> simp [raise, edge _ last]
  | wall _ tied final => exact pass tied fun none => by simp [none] at final
  | inside tied _ ih => exact pass tied fun _ => ih

theorem tied_resumeAll (sources : exits.Tied bounds.left) {aims : List Aim}
    (each : ∀ aim ∈ aims, aim.Tied bounds.turns floor) :
    (resumeAll frames exits aims).Tied bounds floor count := by
  refine Emitted.tied_concat fun part member => ?_
  obtain ⟨aim, isAim, rfl⟩ := mem_map.mp member
  refine Emitted.tied_concat fun part member => ?_
  obtain ⟨exit, isExit, rfl⟩ := mem_map.mp member
  exact tied_jump around (sources exit isExit) (each aim isAim)

theorem tied_resume {guarded : Emitted} (tied : guarded.Tied bounds floor inner)
    (sources : exits.Tied bounds.left) :
    (if guarded.departs.contains frames.length then departAll frames exit exits
      else {}).Tied bounds floor count ∧
    (resumeAll frames exits (guarded.resumesAt frames.length)).Tied bounds floor count := by
  constructor
  · split
    · exact tied_departAll around sources
    · exact Emitted.tied_nothing
  · exact tied_resumeAll around sources fun aim member => (tied.resumesAt member).2

omit around

theorem tied_head (known : bounds.placed id) (target : bounds.aimed id)
    (sources : preds.Tied bounds.left) :
    Emitted.Tied bounds floor count { vertices := [id], edges := connect preds id } := by
  have edges := drawn_connect sources target
  constructor <;> simp [known]
  exact edges

theorem tied_closeLoop {before : Emitted} (first : before.Tied bounds floor count) {body : Piece}
    (tied : body.Tied bounds floor (count + 1)) {back : List ControlEdge}
    (edges : ∀ edge ∈ back, bounds.drawn edge) {done : Exits} (last : done.Tied bounds.left) :
    (closeLoop before body back count done).Tied bounds floor count where
  emitted := Emitted.tied_append.mpr
    ⟨Emitted.tied_append.mpr ⟨first, tied.emitted.close (Nat.le_succ count)⟩,
      Emitted.tied_ofEdges edges⟩
  exits := Exits.tied_append.mpr ⟨tied.emitted.breaksAt (Nat.lt_succ_self count), last⟩

end

end Seepage

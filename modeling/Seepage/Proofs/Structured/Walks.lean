import Mathlib.Data.List.Nodup
import Seepage.Proofs.Structured.Language

set_option autoImplicit false

namespace Seepage.Structured

open List Code

variable {labels : List String} {again : Nat} {code : Code}

@[ext] structure Env where
  exit : Nat
  breaks : Option String → Nat
  continues : Option String → Nat

namespace Env

def leaving (env : Env) (label : Option String) (after : Nat) : Env :=
  { env with breaks := fun aim => if aim = label then after else env.breaks aim }

def leavingAll (env : Env) (labels : List String) (after : Nat) : Env :=
  { env with breaks := fun aim => if aim.any labels.contains then after else env.breaks aim }

def looping (env : Env) (labels : List String) (again : Nat) : Env :=
  { env with continues := fun aim => if aim.all labels.contains then again else env.continues aim }

def next (env : Env) (after : Nat) : Ending → Nat
  | .normal => after
  | .broken label => env.breaks label
  | .continued label => env.continues label
  | .departed => env.exit

variable (env : Env) (after : Nat)

theorem leavingAll_nil : env.leavingAll [] after = env := by
  ext aim
  · rfl
  · cases aim <;> rfl
  · rfl

theorem leavingAll_append (labels : List String) (label : String) :
    env.leavingAll (labels ++ [label]) after =
      (env.leavingAll labels after).leaving (some label) after := by
  ext aim
  · rfl
  · cases aim with
    | none => rfl
    | some aim => by_cases same : aim = label <;> simp [leavingAll, leaving, same]
  · rfl

variable {ending : Ending}

theorem next_of_ne (jumps : ending ≠ .normal) (after' : Nat) :
    env.next after ending = env.next after' ending := by
  cases ending <;> first | rfl | exact absurd rfl jumps

theorem next_outside (label : Option String) (ending : Ending) :
    env.next after (ending.outside label) = (env.leaving label after).next after ending := by
  cases ending with
  | broken aim =>
    by_cases same : aim = label <;> simp [Ending.outside, next, leaving, same]
  | _ => rfl

theorem next_resumes (resumes : ending.resumes labels) :
    (env.looping labels again).next again ending = again := by
  cases ending with
  | normal => rfl
  | continued aim =>
    have here : aim.all labels.contains := resumes
    simp [next, looping, here]
  | _ => cases resumes

theorem next_leaves (ends : ¬ending.resumes labels) :
    ((env.leaving none after).looping labels again).next again ending =
      env.next after (ending.outside none) := by
  rw [next_outside]
  cases ending with
  | normal => exact absurd rfl ends
  | continued aim =>
    have here : ¬aim.all labels.contains := ends
    simp [next, looping, here]
  | _ => rfl

end Env

namespace Code

def vertices : Code → List Nat
  | .skip => []
  | .visit id => [id]
  | .stop id _ => [id]
  | .seq first second => first.vertices ++ second.vertices
  | .branch id yes no => id :: (yes.vertices ++ no.vertices)
  | .loop _ id _ step body => id :: (step.toList ++ body.vertices)
  | .labelled _ body => body.vertices
  | .choice id _ cases => id :: cases.vertices
  | .case id body rest => id :: (body.vertices ++ rest.vertices)

def first? : Code → Option Nat
  | .skip => none
  | .visit id => some id
  | .stop id _ => some id
  | .seq first second => first.first?.or second.first?
  | .branch id _ _ => some id
  | .loop _ id _ _ _ => some id
  | .labelled _ body => body.first?
  | .choice id _ _ => some id
  | .case id _ _ => some id

def start (code : Code) (after : Nat) : Nat :=
  code.first?.getD after

section

variable (after id : Nat) (yes no body rest cases : Code)

@[simp] theorem start_skip : skip.start after = after := rfl

@[simp] theorem start_branch : (branch id yes no).start after = id := rfl

@[simp] theorem start_loop (labels : List String) (tested : Bool) (step : Option Nat) :
    (loop labels id tested step body).start after = id := rfl

@[simp] theorem start_choice (hasDefault : Bool) :
    (choice id hasDefault cases).start after = id := rfl

@[simp] theorem start_case : (case id body rest).start after = id := rfl

end

theorem start_seq (first second : Code) (after : Nat) :
    (seq first second).start after = first.start (second.start after) := by
  simp only [start, first?]
  cases first.first? <;> rfl

def Goes (env : Env) (after : Nat) : Code → Nat → Nat → Prop
  | .skip, _, _ => False
  | .visit id, source, target => source = id ∧ target = after
  | .stop id ending, source, target => source = id ∧ target = env.next after ending
  | .seq first second, source, target =>
    first.Goes env (second.start after) source target ∨ second.Goes env after source target
  | .branch id yes no, source, target =>
    source = id ∧ (target = yes.start after ∨ target = no.start after) ∨
      yes.Goes env after source target ∨ no.Goes env after source target
  | .loop labels id tested step body, source, target =>
    source = id ∧ (target = body.start (step.getD id) ∨ tested ∧ target = after) ∨
      step = some source ∧ target = id ∨
      body.Goes ((env.leaving none after).looping labels (step.getD id)) (step.getD id) source
        target
  | .labelled label body, source, target =>
    body.Goes (env.leaving (some label) after) after source target
  | .choice id hasDefault cases, source, target =>
    source = id ∧ ((∃ entry ∈ cases.entries, target = entry.start after) ∨
      ¬hasDefault ∧ target = after) ∨
      cases.Goes (env.leaving none after) after source target
  | .case id body rest, source, target =>
    source = id ∧ target = body.start (rest.start after) ∨
      body.Goes env (rest.start after) source target ∨ rest.Goes env after source target

variable {env : Env} {after source target : Nat}

theorem mem_vertices_of_goes (goes : code.Goes env after source target) :
    source ∈ code.vertices := by
  induction code generalizing env after with
  | skip => cases goes
  | visit | stop => simp [vertices, goes.1]
  | seq first second ih ih' => exact mem_append.mpr (goes.imp ih ih')
  | branch id yes no ih ih' | case id body rest ih ih' =>
    rcases goes with ⟨rfl, -⟩ | inner
    · exact mem_cons_self
    · exact mem_cons_of_mem _ (mem_append.mpr (inner.imp ih ih'))
  | loop labels id tested step body ih =>
    rcases goes with ⟨rfl, -⟩ | ⟨rfl, -⟩ | inner
    · exact mem_cons_self
    · simp [vertices]
    · exact mem_cons_of_mem _ (mem_append_right _ (ih inner))
  | labelled label body ih => exact ih goes
  | choice id hasDefault cases ih =>
    rcases goes with ⟨rfl, -⟩ | inner
    · exact mem_cons_self
    · exact mem_cons_of_mem _ (ih inner)

variable {cases entry : Code}

theorem goes_of_entry (member : entry ∈ cases.entries) (goes : entry.Goes env after source target) :
    cases.Goes env after source target := by
  induction cases with
  | case id body rest _ ih =>
    rcases mem_cons.mp member with rfl | later
    · exact goes
    · exact .inr (.inr (ih later))
  | _ => cases member

theorem sublist_of_entry (member : entry ∈ cases.entries) :
    entry.vertices.Sublist cases.vertices := by
  induction cases with
  | case id body rest _ ih =>
    rcases mem_cons.mp member with rfl | later
    · exact .refl _
    · exact ((ih later).trans (sublist_append_right _ _)).cons _
  | _ => cases member

theorem goes_entry (distinct : cases.vertices.Nodup) (member : entry ∈ cases.entries)
    (here : source ∈ entry.vertices) (goes : cases.Goes env after source target) :
    entry.Goes env after source target := by
  induction cases with
  | case id body rest _ ih =>
    rcases mem_cons.mp member with rfl | later
    · exact goes
    · obtain ⟨fresh, distinct⟩ := nodup_cons.mp distinct
      obtain ⟨-, distinct, apart⟩ := nodup_append'.mp distinct
      have behind := (sublist_of_entry later).subset here
      rcases goes with ⟨rfl, -⟩ | other | own
      · exact absurd (mem_append_right _ behind) fresh
      · exact absurd behind (apart (mem_vertices_of_goes other))
      · exact ih distinct later own
  | _ => cases member

end Code

inductive Walk (step : Nat → Nat → Prop) (exit : Nat) : Nat → List Nat → Prop where
  | done : Walk step exit exit []
  | next {source target : Nat} {rest : List Nat} (leads : step source target)
    (more : Walk step exit target rest) : Walk step exit source (source :: rest)

section

variable {step : Nat → Nat → Prop} {exit : Nat}

theorem Walk.leads {source : Nat} {walk : List Nat} (walks : Walk step exit source walk)
    (inner : source ≠ exit) :
    ∃ target rest, walk = source :: rest ∧ step source target ∧ Walk step exit target rest := by
  cases walks with
  | done => exact absurd rfl inner
  | next leads more => exact ⟨_, _, rfl, leads, more⟩

theorem Runs.walk {trace : List Nat} {ending : Ending} (runs : Runs code trace ending)
    {env : Env} {after : Nat}
    (follows : ∀ source target, code.Goes env after source target → step source target)
    {rest : List Nat} (more : Walk step exit (env.next after ending) rest) :
    Walk step exit (code.start after) (trace ++ rest) := by
  induction runs generalizing env after rest with
  | skip => exact more
  | visit | stop => exact .next (follows _ _ ⟨rfl, rfl⟩) more
  | seq _ _ ih ih' =>
    rw [start_seq, append_assoc]
    exact ih (fun _ _ goes => follows _ _ (.inl goes))
      (ih' (fun _ _ goes => follows _ _ (.inr goes)) more)
  | abrupt _ jumps ih =>
    rw [start_seq]
    exact ih (fun _ _ goes => follows _ _ (.inl goes)) (env.next_of_ne after jumps _ ▸ more)
  | yes _ ih =>
    exact .next (follows _ _ (.inl ⟨rfl, .inl rfl⟩))
      (ih (fun _ _ goes => follows _ _ (.inr (.inl goes))) more)
  | no _ ih =>
    exact .next (follows _ _ (.inl ⟨rfl, .inr rfl⟩))
      (ih (fun _ _ goes => follows _ _ (.inr (.inr goes))) more)
  | done => exact .next (follows _ _ (.inl ⟨rfl, .inr ⟨rfl, rfl⟩⟩)) more
  | @turn labels id tested next body trace trace' ending ending' _ resumes _ ih ih' =>
    have again := ih' follows more
    -- Between two turns comes the step, if there is one.
    have between : Walk step exit (next.getD id) (next.toList ++ (trace' ++ rest)) := by
      cases next with
      | none => exact again
      | some id' => exact .next (follows _ _ (.inr (.inl ⟨rfl, rfl⟩))) again
    rw [cons_append, append_assoc, append_assoc]
    refine .next (follows _ _ (.inl ⟨rfl, .inl rfl⟩)) (ih (fun _ _ goes =>
      follows _ _ (.inr (.inr goes))) ?_)
    rwa [Env.next_resumes _ resumes]
  | leave _ ends ih =>
    refine .next (follows _ _ (.inl ⟨rfl, .inl rfl⟩)) (ih (fun _ _ goes =>
      follows _ _ (.inr (.inr goes))) ?_)
    rwa [Env.next_leaves _ _ ends]
  | labelled _ ih =>
    rw [Env.next_outside] at more
    exact ih follows more
  | enter member _ ih =>
    rw [Env.next_outside] at more
    exact .next (follows _ _ (.inl ⟨rfl, .inl ⟨_, member, rfl⟩⟩))
      (ih (fun _ _ goes => follows _ _ (.inr (goes_of_entry member goes))) more)
  | pass => exact .next (follows _ _ (.inl ⟨rfl, .inr ⟨by simp, rfl⟩⟩)) more
  | fall _ _ ih ih' =>
    rw [cons_append, append_assoc]
    exact .next (follows _ _ (.inl ⟨rfl, rfl⟩)) (ih (fun _ _ goes => follows _ _ (.inr (.inl goes)))
      (ih' (fun _ _ goes => follows _ _ (.inr (.inr goes))) more))
  | quit _ jumps ih =>
    exact .next (follows _ _ (.inl ⟨rfl, rfl⟩)) (ih (fun _ _ goes => follows _ _ (.inr (.inl goes)))
      (env.next_of_ne after jumps _ ▸ more))

variable (step exit) in
structure Follows (code : Code) (env : Env) (after : Nat) : Prop where
  goes : ∀ source ∈ code.vertices, ∀ target, step source target →
    code.Goes env after source target
  distinct : code.vertices.Nodup
  inner : exit ∉ code.vertices

namespace Follows

variable {code part : Code} {env env' : Env} {after after' : Nat}

section

variable (follows : Follows step exit code env after)

include follows

theorem restrict (within : part.vertices.Sublist code.vertices)
    (own : ∀ source ∈ part.vertices, ∀ target, code.Goes env after source target →
      part.Goes env' after' source target) :
    Follows step exit part env' after' where
  goes source member target leads :=
    own source member target (follows.goes source (within.subset member) target leads)
  distinct := within.nodup follows.distinct
  inner member := follows.inner (within.subset member)

theorem split {id : Nat} {first second : Code}
    (vertices : code.vertices = id :: (first.vertices ++ second.vertices))
    (goes : ∀ source target, code.Goes env after source target → source = id ∨
      first.Goes env after' source target ∨ second.Goes env after source target) :
    (∀ target, ¬(first.Goes env after' id target ∨ second.Goes env after id target)) ∧
      Follows step exit first env after' ∧ Follows step exit second env after := by
  have distinct := follows.distinct
  rw [vertices, nodup_cons, nodup_append'] at distinct
  obtain ⟨fresh, -, -, apart⟩ := distinct
  refine ⟨fun target inner => fresh (mem_append.mpr (inner.imp mem_vertices_of_goes
    mem_vertices_of_goes)), ?_, ?_⟩
  · refine follows.restrict (vertices ▸ (sublist_append_left _ _).cons _) ?_
    intro source member target goes'
    rcases goes source target goes' with rfl | own | other
    · exact absurd (mem_append_left _ member) fresh
    · exact own
    · exact absurd (mem_vertices_of_goes other) (apart member)
  · refine follows.restrict (vertices ▸ (sublist_append_right _ _).cons _) ?_
    intro source member target goes'
    rcases goes source target goes' with rfl | other | own
    · exact absurd (mem_append_right _ member) fresh
    · exact absurd member (apart (mem_vertices_of_goes other))
    · exact own

theorem leads {source : Nat} (member : source ∈ code.vertices) {walk : List Nat}
    (walks : Walk step exit source walk) :
    ∃ target rest, walk = source :: rest ∧ code.Goes env after source target ∧
      Walk step exit target rest := by
  obtain ⟨target, rest, rfl, leads, more⟩ := walks.leads fun same => follows.inner (same ▸ member)
  exact ⟨target, rest, rfl, follows.goes _ member target leads, more⟩

end

end Follows

variable (step exit) in
def Traced (code : Code) : Prop :=
  ∀ env after, Follows step exit code env after → ∀ walk, Walk step exit (code.start after) walk →
    ∃ trace ending rest, walk = trace ++ rest ∧ Runs code trace ending ∧
      Walk step exit (env.next after ending) rest

section

variable {first second yes no body rest cases : Code}

theorem traced_seq (here : Traced step exit first) (there : Traced step exit second) :
    Traced step exit (.seq first second) := by
  intro env after follows walk walks
  have apart := disjoint_of_nodup_append follows.distinct
  have follows₁ : Follows step exit first env (second.start after) :=
    follows.restrict (sublist_append_left _ _) fun _ member _ goes =>
      goes.resolve_right fun other => apart member (mem_vertices_of_goes other)
  have follows₂ : Follows step exit second env after :=
    follows.restrict (sublist_append_right _ _) fun _ member _ goes =>
      goes.resolve_left fun other => apart (mem_vertices_of_goes other) member
  rw [start_seq] at walks
  obtain ⟨trace, ending, more, rfl, runs, walks'⟩ := here _ _ follows₁ walk walks
  by_cases normal : ending = .normal
  · subst normal
    obtain ⟨trace', ending', more', rfl, runs', walks''⟩ := there _ _ follows₂ more walks'
    exact ⟨trace ++ trace', ending', more', (append_assoc ..).symm, .seq runs runs', walks''⟩
  · exact ⟨trace, ending, more, rfl, .abrupt runs normal,
      env.next_of_ne _ normal after ▸ walks'⟩

variable {id : Nat}

theorem traced_branch (here : Traced step exit yes) (there : Traced step exit no) :
    Traced step exit (.branch id yes no) := by
  intro env after follows walk walks
  obtain ⟨fresh, follows₁, follows₂⟩ := follows.split rfl fun _ _ goes => goes.imp_left And.left
  obtain ⟨target, more, rfl, goes, walks'⟩ := follows.leads mem_cons_self walks
  rcases goes with ⟨-, rfl | rfl⟩ | other
  · obtain ⟨trace, ending, more', rfl, runs, walks''⟩ := here _ _ follows₁ more walks'
    exact ⟨id :: trace, ending, more', rfl, .yes runs, walks''⟩
  · obtain ⟨trace, ending, more', rfl, runs, walks''⟩ := there _ _ follows₂ more walks'
    exact ⟨id :: trace, ending, more', rfl, .no runs, walks''⟩
  · exact absurd other (fresh _)

theorem traced_case (here : Traced step exit body) (there : Traced step exit rest) :
    Traced step exit (.case id body rest) := by
  intro env after follows walk walks
  obtain ⟨fresh, follows₁, follows₂⟩ := follows.split rfl fun _ _ goes => goes.imp_left And.left
  obtain ⟨target, more, rfl, goes, walks'⟩ := follows.leads mem_cons_self walks
  rcases goes with ⟨-, rfl⟩ | other
  · obtain ⟨trace, ending, more', rfl, runs, walks''⟩ := here _ _ follows₁ more walks'
    by_cases normal : ending = .normal
    · subst normal
      obtain ⟨trace', ending', last, rfl, runs', walks'⟩ := there _ _ follows₂ more' walks''
      exact ⟨id :: (trace ++ trace'), ending', last, by simp, .fall runs runs', walks'⟩
    · exact ⟨id :: trace, ending, more', rfl, .quit runs normal,
        env.next_of_ne _ normal after ▸ walks''⟩
  · exact absurd other (fresh _)

theorem traced_loop {tested : Bool} {next : Option Nat}
    (turn : Traced step exit body) : Traced step exit (.loop labels id tested next body) := by
  intro env after follows walk walks
  obtain ⟨fresh, distinct⟩ := nodup_cons.mp follows.distinct
  have apart := disjoint_of_nodup_append distinct
  let inside := (env.leaving none after).looping labels (next.getD id)
  have follows' : Follows step exit body inside (next.getD id) := by
    refine follows.restrict ((sublist_append_right _ _).cons _) fun source member _ goes => ?_
    rcases goes with ⟨rfl, -⟩ | ⟨rfl, -⟩ | own
    · exact absurd (mem_append_right _ member) fresh
    · exact absurd member (apart (by simp))
    · exact own
  -- Behind a turn, control is back at the head with less to walk.
  have between {rest : List Nat} (walks : Walk step exit (next.getD id) rest) :
      ∃ more, rest = next.toList ++ more ∧ Walk step exit id more := by
    cases next with
    | none => exact ⟨rest, rfl, walks⟩
    | some id' =>
      have walks : Walk step exit id' rest := walks
      obtain ⟨target, more, rfl, goes, walks'⟩ := follows.leads (by simp [vertices]) walks
      rcases goes with ⟨rfl, -⟩ | ⟨-, rfl⟩ | other
      · exact absurd (mem_append_left _ (by simp)) fresh
      · exact ⟨more, rfl, walks'⟩
      · exact absurd (mem_vertices_of_goes other) (apart (by simp))
  have walks : Walk step exit id walk := walks
  induction size : walk.length using Nat.strongRecOn generalizing walk with
  | _ size ih =>
    obtain ⟨target, rest, rfl, goes, walks'⟩ := follows.leads mem_cons_self walks
    rcases goes with ⟨-, rfl | ⟨rfl, rfl⟩⟩ | ⟨same, -⟩ | other
    · obtain ⟨trace, ending, more, rfl, runs, walks''⟩ := turn _ _ follows' rest walks'
      by_cases resumes : ending.resumes labels
      · rw [Env.next_resumes _ resumes] at walks''
        obtain ⟨more, rfl, again⟩ := between walks''
        obtain ⟨trace', ending', more', rfl, runs', last⟩ :=
          ih more.length (by simp at size; omega) more again again rfl
        exact ⟨_, ending', more', by simp, .turn runs resumes runs', last⟩
      · rw [Env.next_leaves _ _ resumes] at walks''
        exact ⟨id :: trace, _, more, rfl, .leave runs resumes, walks''⟩
    · exact ⟨[id], .normal, rest, rfl, .done, walks'⟩
    · exact absurd (mem_append_left _ (by simp [same])) fresh
    · exact absurd (mem_append_right _ (mem_vertices_of_goes other)) fresh

theorem traced_labelled {label : String} (inner : Traced step exit body) :
    Traced step exit (.labelled label body) := by
  intro env after follows walk walks
  obtain ⟨trace, ending, rest, rfl, runs, walks'⟩ := inner (env.leaving (some label) after) after
    ⟨follows.goes, follows.distinct, follows.inner⟩ walk walks
  rw [← Env.next_outside] at walks'
  exact ⟨trace, _, rest, rfl, .labelled runs, walks'⟩

theorem traced_choice {hasDefault : Bool} (each : ∀ entry ∈ cases.entries, Traced step exit entry) :
    Traced step exit (.choice id hasDefault cases) := by
  intro env after follows walk walks
  obtain ⟨fresh, distinct⟩ := nodup_cons.mp follows.distinct
  obtain ⟨target, more, rfl, goes, walks'⟩ := follows.leads mem_cons_self walks
  rcases goes with ⟨-, ⟨entry, member, rfl⟩ | ⟨absent, rfl⟩⟩ | other
  · have follows' : Follows step exit entry (env.leaving none after) after := by
      refine follows.restrict ((sublist_of_entry member).cons _) fun source here _ goes => ?_
      rcases goes with ⟨rfl, -⟩ | own
      · exact absurd ((sublist_of_entry member).subset here) fresh
      · exact goes_entry distinct member here own
    obtain ⟨trace, ending, rest, rfl, runs, walks''⟩ := each entry member _ _ follows' more walks'
    rw [← Env.next_outside] at walks''
    exact ⟨id :: trace, _, rest, rfl, .enter member runs, walks''⟩
  · cases hasDefault with
    | true => exact absurd rfl absent
    | false => exact ⟨[id], .normal, more, rfl, .pass, walks'⟩
  · exact absurd (mem_vertices_of_goes other) fresh

end

theorem traced (code : Code) :
    Traced step exit code ∧ ∀ entry ∈ code.entries, Traced step exit entry := by
  induction code with
  | skip =>
    refine ⟨fun env after _ walk walks => ?_, by simp [entries]⟩
    exact ⟨[], .normal, walk, rfl, .skip, walks⟩
  | visit id =>
    refine ⟨fun env after follows walk walks => ?_, by simp [entries]⟩
    obtain ⟨target, more, rfl, ⟨-, rfl⟩, walks'⟩ := follows.leads mem_cons_self walks
    exact ⟨[id], .normal, more, rfl, .visit, walks'⟩
  | stop id ending =>
    refine ⟨fun env after follows walk walks => ?_, by simp [entries]⟩
    obtain ⟨target, more, rfl, ⟨-, rfl⟩, walks'⟩ := follows.leads mem_cons_self walks
    exact ⟨[id], ending, more, rfl, .stop, walks'⟩
  | seq first second ih ih' => exact ⟨traced_seq ih.1 ih'.1, by simp [entries]⟩
  | branch id yes no ih ih' => exact ⟨traced_branch ih.1 ih'.1, by simp [entries]⟩
  | loop labels id tested next body ih => exact ⟨traced_loop ih.1, by simp [entries]⟩
  | labelled label body ih => exact ⟨traced_labelled ih.1, by simp [entries]⟩
  | choice id hasDefault cases ih => exact ⟨traced_choice ih.2, by simp [entries]⟩
  | case id body rest ih ih' =>
    have own : Traced step exit (.case id body rest) := traced_case ih.1 ih'.1
    exact ⟨own, forall_mem_cons.mpr ⟨own, ih'.2⟩⟩

theorem walk_iff_runs {env : Env} (outer : ∀ ending, env.next exit ending = exit)
    (goes : ∀ source target, step source target ↔ code.Goes env exit source target)
    (distinct : code.vertices.Nodup) (inner : exit ∉ code.vertices) (walk : List Nat) :
    Walk step exit (code.start exit) walk ↔ ∃ ending, Runs code walk ending := by
  constructor
  · intro walks
    obtain ⟨trace, ending, rest, rfl, runs, last⟩ := (traced code).1 env exit
      ⟨fun source _ target => (goes source target).mp, distinct, inner⟩ walk walks
    rw [outer] at last
    cases last with
    | done => exact ⟨ending, by rwa [append_nil]⟩
    | next leads => exact absurd (mem_vertices_of_goes ((goes _ _).mp leads)) inner
  · rintro ⟨ending, runs⟩
    rw [← append_nil walk]
    refine runs.walk (fun source target => (goes source target).mpr) ?_
    rw [outer]
    exact .done

end

end Seepage.Structured

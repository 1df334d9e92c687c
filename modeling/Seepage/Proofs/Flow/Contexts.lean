import Seepage.Proofs.Flow.Statements

set_option autoImplicit false

namespace Seepage

variable {frames : List Frame}

structure StackInRange (frames : List Frame) : Prop where
  breaks : ∀ label aim, breakAim? label frames = some aim →
    ∃ frame, frames.reverse[aim.depth]? = some frame ∧ frame.takesBreak label
  continues : ∀ label aim, continueAim? label frames = some aim →
    ∃ frame, frames.reverse[aim.depth]? = some frame ∧ (frame.continueTo? label).isSome
  finalizers : ∀ least depth finalizer, finalizerFrom? least frames = some (depth, finalizer) →
    ∃ frame, frames.reverse[depth]? = some frame ∧ frame.finalizer? = some finalizer
  raises : ∀ exit source, ∀ depth ∈ (raise exit source frames).departs,
    ∃ frame, frames.reverse[depth]? = some frame ∧ frame.finalizer?.isSome
  resumes : ∀ exit inner labels block preds,
    ∀ aim ∈ (flow exit (inner :: frames) labels block preds).emitted.resumesAt frames.length,
      ∃ frame, frames.reverse[aim.depth]? = some frame
  handles : ∀ exit inner handler,
    ∀ aim ∈ (flowHandler exit (inner :: frames) handler).emitted.resumesAt frames.length,
      ∃ frame, frames.reverse[aim.depth]? = some frame

def anywhere (exit : Nat) : Interior exit where
  placed _ := True
  left _ _ := True
  aimed _ _ := True
  drawn _ := True
  leads _ _ _ _ := trivial
  within _ := True
  apart _ := False
  held _ := True
  tries := tries_nothing
  root _ := ⟨trivial, fun _ => ⟨trivial, trivial⟩⟩
  child _ _ _ _ _ := trivial
  parts _ _ _ _ := ⟨trivial, fun _ => ⟨trivial, trivial⟩⟩
  guarded _ _ _ _ _ _ _ := trivial
  again _ _ _ _ _ _ _ := trivial
  raises _ _ _ _ _ _ _ _ _ _ := trivial
  rethrows _ _ _ _ _ _ _ _ := trivial

theorem flows_anywhere (exit : Nat) (tree : Syntree) : Flows (anywhere exit) 0 tree :=
  flows (fun _ special => False.elim special) tree

theorem exists_of_mem_raise {exit source depth : Nat}
    (member : depth ∈ (raise exit source frames).departs) :
    ∃ frame, frames.reverse[depth]? = some frame ∧ frame.finalizer?.isSome := by
  induction frames with
  | nil => simp [raise] at member
  | cons frame outer ih =>
    rw [raise] at member
    split at member
    case h_1 => cases member
    case h_2 isGuarded =>
      obtain rfl := List.mem_singleton.mp member
      exact ⟨frame, getElem?_reverse_innermost frame outer, by simp [Frame.finalizer?, isGuarded]⟩
    case h_3 =>
      obtain ⟨other, here, known⟩ := ih member
      exact ⟨other, getElem?_reverse_outer frame here, known⟩

theorem Emitted.Tied.exists_of_resumed {bounds : Bounds} {floor count : Nat} {emitted : Emitted}
    (tied : emitted.Tied bounds floor count) {aim : Aim}
    (member : aim ∈ emitted.resumesAt frames.length) :
    ∃ frame, frames.reverse[aim.depth]? = some frame := by
  have farther := (tied.resumesAt member).1
  rw [← List.length_reverse] at farther
  exact ⟨_, List.getElem?_eq_getElem farther⟩

theorem stackInRange (frames : List Frame) : StackInRange frames where
  breaks label aim aims := by
    obtain ⟨depth, frame, rfl, here, takes⟩ := exists_of_breakAim? aims
    exact ⟨frame, here, takes⟩
  continues label aim aims := by
    obtain ⟨depth, target, frame, rfl, here, isLoop⟩ := exists_of_continueAim? aims
    exact ⟨frame, here, by simp [isLoop]⟩
  finalizers _ _ _ found := (exists_of_finalizerFrom? found).2
  raises _ _ _ member := exists_of_mem_raise member
  resumes exit inner labels block preds aim member := by
    have tied := flows_anywhere exit block trivial (inner :: frames) labels preds
      (.anywhere (fun _ _ => trivial) exit _) (fun _ _ => trivial) fun _ _ => trivial
    exact tied.emitted.exists_of_resumed member
  handles exit inner handler aim member := by
    have tied : (flowHandler exit (inner :: frames) handler).Tied ((anywhere exit).at 0) 0 _ :=
      tied_flowHandler (fun part _ => flows_anywhere exit part) (fun _ _ => trivial)
        (Row.still _) (.anywhere (fun _ _ => trivial) exit _) trivial fun _ _ => trivial
    exact tied.emitted.exists_of_resumed member

end Seepage

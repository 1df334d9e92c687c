import Seepage.Proofs.Flow.Statements
import Seepage.Proofs.Tree.Nesting

set_option autoImplicit false

namespace Seepage

variable {exit vertex : Nat} {frames : List Frame}

section

variable {top : Syntree} (linked : top.Linked)

def localInterior (exit : Nat) (known : Nat → Prop) : Interior exit where
  placed := top.Holds
  left _ := known
  aimed _ _ := True
  drawn edge := known edge.source
  leads _ _ source _ := source
  within tree := tree ∈ top.subtrees
  apart _ := False
  held := known
  tries := tries_nothing
  root inside := ⟨⟨_, inside, rfl⟩, fun held => ⟨held, trivial⟩⟩
  child inside _ _ _ below := Rose.mem_subtrees_of_child below inside
  parts {node children} _ _ _ inside isFor id member := by
    have named : node.children = children.map (·.label.id) := linked _ inside
    rw [named] at member
    obtain ⟨child, below, rfl⟩ := List.mem_map.mp member
    exact ⟨⟨child, Rose.mem_subtrees_of_child below inside, rfl⟩, fun held => ⟨held, trivial⟩⟩
  guarded inside _ _ _ below _ inner :=
    Rose.child_inside inner (Rose.mem_subtrees_of_child below inside)
  again _ _ _ _ _ _ _ := trivial
  raises _ _ _ _ _ _ _ _ held _ := held
  rethrows _ _ _ _ _ _ held _ := held

include linked

theorem holds_of_mem_flow {labels : List String} {preds : Exits}
    (member : vertex ∈ (flow exit frames labels top preds).emitted.vertices) :
    top.Holds vertex := by
  have tied : Flows (localInterior linked exit fun _ => True) 0 top :=
    flows (fun _ special => False.elim special) top
  exact (tied top.self_mem_subtrees frames labels preds (.anywhere (fun _ _ => trivial) exit frames)
    (fun _ _ => trivial) fun _ _ => trivial).emitted.vertices vertex member

theorem holds_of_mem_flowHandler
    (member : vertex ∈ (flowHandler exit frames top).emitted.vertices) : top.Holds vertex := by
  have tied (part : Syntree) : Flows (localInterior linked exit fun _ => True) 0 part :=
    flows (fun _ special => False.elim special) part
  exact (tied_flowHandler (fun part _ => tied part)
    (fun part below => Rose.child_mem_subtrees below) (Row.still _)
    (.anywhere (fun _ _ => trivial) exit frames) trivial fun _ _ => trivial).emitted.vertices vertex member

end

end Seepage

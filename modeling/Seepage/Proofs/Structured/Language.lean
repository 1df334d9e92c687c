import Mathlib.Logic.Basic
import Seepage.Flow.Control

set_option autoImplicit false

namespace Seepage.Structured

variable {breaks continues : List (Option String)}

inductive Ending where
  | normal
  | broken (label : Option String)
  | continued (label : Option String)
  | departed
deriving DecidableEq, Repr

namespace Ending

variable {ending : Ending}

def resumes (labels : List String) : Ending → Bool
  | .normal => true
  | .continued label => label.all labels.contains
  | _ => false

def outside (label : Option String) : Ending → Ending
  | .broken aim => if aim = label then .normal else .broken aim
  | ending => ending

def within (breaks continues : List (Option String)) : Ending → Bool
  | .broken label => breaks.contains label
  | .continued label => continues.contains label
  | _ => true

theorem within_outside {label : Option String} (known : ending.within (label :: breaks) continues) :
    (ending.outside label).within breaks continues := by
  cases ending with
  | broken aim =>
    by_cases same : aim = label <;> simp_all [outside, within]
  | _ => exact known

theorem within_of_not_resumes {labels : List String}
    (known : ending.within breaks (none :: (labels.map some ++ continues)))
    (ends : ¬ending.resumes labels) : ending.within breaks continues := by
  cases ending with
  | continued aim =>
    cases aim <;> simp_all [within, resumes]
  | _ => exact known

end Ending

inductive Code where
  | skip
  | visit (id : Nat)
  | stop (id : Nat) (ending : Ending)
  | seq (first second : Code)
  | branch (id : Nat) (yes no : Code)
  | loop (labels : List String) (id : Nat) (tested : Bool) (step : Option Nat) (body : Code)
  | labelled (label : String) (body : Code)
  | choice (id : Nat) (hasDefault : Bool) (cases : Code)
  | case (id : Nat) (body rest : Code)
deriving DecidableEq, Repr

namespace Code

def entries : Code → List Code
  | .case id body rest => .case id body rest :: rest.entries
  | _ => []

def targeted (breaks continues : List (Option String)) : Code → Bool
  | .skip | .visit _ => true
  | .stop _ ending => ending.within breaks continues
  | .seq first second => first.targeted breaks continues && second.targeted breaks continues
  | .branch _ yes no => yes.targeted breaks continues && no.targeted breaks continues
  | .loop labels _ _ _ body =>
    body.targeted (none :: breaks) (none :: (labels.map some ++ continues))
  | .labelled label body => body.targeted (some label :: breaks) continues
  | .choice _ _ cases => cases.targeted (none :: breaks) continues
  | .case _ body rest => body.targeted breaks continues && rest.targeted breaks continues

theorem targeted_of_entry {cases entry : Code} (all : cases.targeted breaks continues)
    (member : entry ∈ cases.entries) : entry.targeted breaks continues := by
  induction cases with
  | case id body rest _ ih =>
    rcases List.mem_cons.mp member with rfl | later
    · exact all
    · exact ih (Bool.and_eq_true_iff.mp all).2 later
  | _ => cases member

mutual

def ofTree (labels : List String) : Syntree → Code
  | .node node children =>
    match node.kind, children with
    | .block, stmts => ofAll stmts
    | .ifStmt _, [_, consequent] => .branch node.id (ofTree [] consequent) .skip
    | .ifStmt _, [_, consequent, alternate] =>
      .branch node.id (ofTree [] consequent) (ofTree [] alternate)
    | .whileStmt, parts | .forIn, parts | .forOf, parts =>
      .loop labels node.id true none (ofLast parts)
    | .forStmt hasInit hasTest hasUpdate, parts =>
      let init := if hasInit then parts.head? else none
      let update := if hasUpdate then parts[hasInit.toNat + hasTest.toNat]? else none
      let loop : Code := .loop labels node.id hasTest (update.map (·.label.id)) (ofLast parts)
      match init with
      | some init => .seq (.visit init.label.id) loop
      | none => loop
    | .labeled label, body :: _ => .labelled label (ofTree (labels ++ [label]) body)
    | .breakStmt label, _ => .stop node.id (.broken label)
    | .continueStmt label, _ => .stop node.id (.continued label)
    | .returnStmt _, _ | .throwStmt, _ => .stop node.id .departed
    | .switchStmt, _ :: cases =>
      .choice node.id (cases.any fun case => case.label.kind == .switchCase true) (ofCases cases)
    | .withStmt, parts => .seq (.visit node.id) (ofLast parts)
    | _, _ => .visit node.id

def ofAll : List Syntree → Code
  | [] => .skip
  | stmt :: rest => .seq (ofTree [] stmt) (ofAll rest)

def ofLast : List Syntree → Code
  | [] => .skip
  | [body] => ofTree [] body
  | _ :: rest => ofLast rest

def ofCases : List Syntree → Code
  | [] => .skip
  | .node node parts :: rest =>
    match node.kind, parts with
    | .switchCase true, stmts => .case node.id (ofAll stmts) (ofCases rest)
    | .switchCase false, _ :: stmts => .case node.id (ofAll stmts) (ofCases rest)
    | _, _ => ofCases rest

end

alias ofTree_def := ofTree.eq_def

theorem ofTree_of_unlabelled {tree : Syntree} (plain : ¬tree.label.kind.takesLabel)
    (labels : List String) : ofTree labels tree = ofTree [] tree := by
  obtain ⟨node, children⟩ := tree
  replace plain : ¬node.kind.takesLabel := plain
  unfold ofTree
  split <;> simp_all [Kind.takesLabel]

def ofOwner (tree : Syntree) : Code :=
  match tree.label.kind with
  | .function _ _ paramCount _ =>
    match tree.children[2 + paramCount]? with
    | none => .skip
    | some body => if body.label.kind = .block then ofAll body.children else .visit body.label.id
  | _ => ofAll (tree.children.drop 2)

end Code

inductive Runs : Code → List Nat → Ending → Prop where
  | skip : Runs .skip [] .normal
  | visit {id : Nat} : Runs (.visit id) [id] .normal
  | stop {id : Nat} {ending : Ending} : Runs (.stop id ending) [id] ending
  | seq {first second : Code} {trace trace' : List Nat} {ending : Ending}
    (here : Runs first trace .normal) (there : Runs second trace' ending) :
    Runs (.seq first second) (trace ++ trace') ending
  | abrupt {first second : Code} {trace : List Nat} {ending : Ending}
    (here : Runs first trace ending) (jumps : ending ≠ .normal) :
    Runs (.seq first second) trace ending
  | yes {id : Nat} {yes no : Code} {trace : List Nat} {ending : Ending}
    (here : Runs yes trace ending) : Runs (.branch id yes no) (id :: trace) ending
  | no {id : Nat} {yes no : Code} {trace : List Nat} {ending : Ending}
    (here : Runs no trace ending) : Runs (.branch id yes no) (id :: trace) ending
  | done {labels : List String} {id : Nat} {step : Option Nat} {body : Code} :
    Runs (.loop labels id true step body) [id] .normal
  | turn {labels : List String} {id : Nat} {tested : Bool} {step : Option Nat} {body : Code}
    {trace trace' : List Nat} {ending ending' : Ending} (here : Runs body trace ending)
    (resumes : ending.resumes labels)
    (there : Runs (.loop labels id tested step body) trace' ending') :
    Runs (.loop labels id tested step body) (id :: (trace ++ (step.toList ++ trace'))) ending'
  | leave {labels : List String} {id : Nat} {tested : Bool} {step : Option Nat} {body : Code}
    {trace : List Nat} {ending : Ending} (here : Runs body trace ending)
    (ends : ¬ending.resumes labels) :
    Runs (.loop labels id tested step body) (id :: trace) (ending.outside none)
  | labelled {label : String} {body : Code} {trace : List Nat} {ending : Ending}
    (here : Runs body trace ending) :
    Runs (.labelled label body) trace (ending.outside (some label))
  | enter {id : Nat} {hasDefault : Bool} {cases entry : Code} {trace : List Nat} {ending : Ending}
    (member : entry ∈ cases.entries) (here : Runs entry trace ending) :
    Runs (.choice id hasDefault cases) (id :: trace) (ending.outside none)
  | pass {id : Nat} {cases : Code} : Runs (.choice id false cases) [id] .normal
  | fall {id : Nat} {body rest : Code} {trace trace' : List Nat} {ending : Ending}
    (here : Runs body trace .normal) (there : Runs rest trace' ending) :
    Runs (.case id body rest) (id :: (trace ++ trace')) ending
  | quit {id : Nat} {body rest : Code} {trace : List Nat} {ending : Ending}
    (here : Runs body trace ending) (jumps : ending ≠ .normal) :
    Runs (.case id body rest) (id :: trace) ending

theorem Runs.within {code : Code} {trace : List Nat} {ending : Ending}
    (runs : Runs code trace ending)
    (targeted : code.targeted breaks continues) : ending.within breaks continues := by
  induction runs generalizing breaks continues with
  | skip | visit | done | pass => rfl
  | stop => exact targeted
  | seq _ _ _ ih | no _ ih | fall _ _ _ ih => exact ih (Bool.and_eq_true_iff.mp targeted).2
  | abrupt _ _ ih | yes _ ih | quit _ _ ih => exact ih (Bool.and_eq_true_iff.mp targeted).1
  | turn _ _ _ _ ih => exact ih targeted
  | leave _ ends ih => exact Ending.within_outside (Ending.within_of_not_resumes (ih targeted) ends)
  | labelled _ ih => exact Ending.within_outside (ih targeted)
  | enter member _ ih => exact Ending.within_outside (ih (Code.targeted_of_entry targeted member))

end Seepage.Structured

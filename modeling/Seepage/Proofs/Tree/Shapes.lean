import Seepage.Tree.Arena

set_option autoImplicit false

namespace Seepage

open List

open Script

abbrev Shape := Rose (Kind × Span)

abbrev Shape.mk (kind : Kind) (span : Span) (children : List Shape) : Shape :=
  .node (kind, span) children

namespace Sink

def tree : Sink Shape Unit where
  node kind span _ children := .mk kind span (children ())

variable {α ρ : Type} (sink : Sink α ρ)

mutual

def run (parent : ρ) : Shape → α
  | .node (kind, span) children => sink.node kind span parent fun id => runAll id children

def runAll (parent : ρ) : List Shape → List α
  | [] => []
  | shape :: rest => run parent shape :: runAll parent rest

end

attribute [local simp] runAll

section

variable (parent : ρ)

theorem runAll_eq (shapes : List Shape) :
    sink.runAll parent shapes = shapes.map (sink.run parent) := by
  induction shapes with
  | nil => rfl
  | cons shape rest ih => simp [runAll, ih]

@[simp] theorem runAll_append (first second : List Shape) :
    sink.runAll parent (first ++ second) = sink.runAll parent first ++ sink.runAll parent second := by
  simp [runAll_eq]

@[simp] theorem run_tree (kind : Kind) (span : Span) (children : Unit → List Shape) :
    sink.run parent (tree.node kind span () children) =
      sink.node kind span parent fun id => sink.runAll id (children ()) := rfl

@[simp] theorem run_ident (id : Ident) (role : Role) :
    sink.run parent (tree.ident () id role) = sink.ident parent id role := rfl

@[simp] theorem run_leaf (kind : Kind) (span : Span) :
    sink.run parent (tree.leaf () kind span) = sink.leaf parent kind span := rfl

@[simp] theorem run_named (name : String) (span : Span) (children : Unit → List Shape) :
    sink.run parent (tree.named () name span children) =
      sink.named parent name span fun id => sink.runAll id (children ()) := rfl

@[simp] theorem run_owner (kind : Kind) (span : Span) (children : Unit → List Shape) :
    sink.run parent (tree.owner () kind span children) =
      sink.owner parent kind span fun id => sink.runAll id (children ()) := rfl

theorem run_target (role : Role) (target : Expr) :
    lowerTarget? sink parent role target =
      (lowerTarget? tree () role target).map (sink.run parent) := by
  unfold lowerTarget?
  split <;> rfl

end

-- The lowering hands every part the node that it is part of, whatever becomes of nodes.
mutual

theorem run_expr (parent : ρ) (expr : Expr) :
    lowerExpr sink parent expr = sink.run parent (lowerExpr tree () expr) := by
  cases expr with
  | update op before operand span =>
    have inner (id : ρ) := run_expr id operand
    cases operand with
    | ident name => simp [lowerExpr]
    | _ =>
      change (sink.node _ _ parent fun id => [lowerExpr sink id _]) =
        sink.run parent (tree.node _ _ () fun _ => [lowerExpr tree () _])
      simp [inner]
  | assign op target value span =>
    simp [lowerExpr, run_target sink _ _ target]
    cases lowerTarget? tree () (assignRole op) target <;> simp only [Option.map, run_expr]
  | _ => simp [lowerExpr, run_expr, run_exprs, run_optional, run_key, run_objectMembers,
      run_function, run_classMembers, run_pattern]

theorem run_exprs (parent : ρ) (exprs : List Expr) :
    lowerExprs sink parent exprs = sink.runAll parent (lowerExprs tree () exprs) := by
  cases exprs with
  | nil => rfl
  | cons expr rest => cases expr <;> simp [lowerExprs, run_expr, run_exprs]

theorem run_optional (parent : ρ) (expr : Option Expr) :
    lowerOptional sink parent expr = sink.runAll parent (lowerOptional tree () expr) := by
  cases expr <;> simp [lowerOptional, run_expr]

theorem run_key (parent : ρ) (key : Key) :
    lowerKey sink parent key = sink.runAll parent (lowerKey tree () key) := by
  cases key with
  | computed key =>
    simp only [lowerKey, run_expr]
    split <;> rfl
  | _ => rfl

theorem run_objectMembers (parent : ρ) (members : List ObjectMember) :
    lowerObjectMembers sink parent members =
      sink.runAll parent (lowerObjectMembers tree () members) := by
  cases members <;> simp [lowerObjectMembers, run_objectMember, run_objectMembers]

theorem run_objectMember (parent : ρ) (member : ObjectMember) :
    lowerObjectMember sink parent member = sink.run parent (lowerObjectMember tree () member) := by
  cases member <;> simp [lowerObjectMember, run_expr, run_key, run_method]

theorem run_method (parent : ρ) (key : Key) (form : MethodForm) (keys : List Shape) (whole : Span)
    (function : Script.Function) :
    lowerMethod sink parent key form (fun id => sink.runAll id keys) whole function =
      sink.run parent (lowerMethod tree () key form (fun _ => keys) whole function) := by
  cases function
  simp [lowerMethod, run_params, run_body]

theorem run_function (parent : ρ) (name : Option String) (form : FunctionForm)
    (function : Script.Function) : lowerFunction sink parent name form function =
      sink.run parent (lowerFunction tree () name form function) := by
  cases function
  simp [lowerFunction, run_params, run_body]

theorem run_body (parent : ρ) (body : Body) :
    lowerBody sink parent body = sink.runAll parent (lowerBody tree () body) := by
  cases body <;> simp [lowerBody, run_block, run_expr]

theorem run_classMembers (parent : ρ) (members : List ClassMember) :
    lowerClassMembers sink parent members =
      sink.runAll parent (lowerClassMembers tree () members) := by
  cases members <;> simp [lowerClassMembers, run_classMember, run_classMembers]

theorem run_classMember (parent : ρ) (member : ClassMember) :
    lowerClassMember sink parent member = sink.run parent (lowerClassMember tree () member) := by
  cases member <;> simp [lowerClassMember, run_function, run_method, run_key, run_optional, run_block]

theorem run_params (parent : ρ) (params : List Param) :
    lowerParams sink parent params = sink.runAll parent (lowerParams tree () params) := by
  cases params <;> simp [lowerParams, run_param, run_params]

theorem run_param (parent : ρ) (param : Param) :
    lowerParam sink parent param = sink.run parent (lowerParam tree () param) := by
  cases param <;> simp [lowerParam, run_expr, run_pattern, run_patterns, run_patternMembers]

theorem run_pattern (parent : ρ) (role : Role) (pattern : Pattern) :
    lowerPattern sink parent role pattern =
      sink.run parent (lowerPattern tree () role pattern) := by
  cases pattern <;> simp [lowerPattern, run_expr, run_pattern, run_patterns, run_patternMembers]

theorem run_patterns (parent : ρ) (role : Role) (patterns : List Pattern) :
    lowerPatterns sink parent role patterns =
      sink.runAll parent (lowerPatterns tree () role patterns) := by
  cases patterns <;> simp [lowerPatterns, run_pattern, run_patterns]

theorem run_patternMembers (parent : ρ) (role : Role) (members : List PatternMember) :
    lowerPatternMembers sink parent role members =
      sink.runAll parent (lowerPatternMembers tree () role members) := by
  cases members <;> simp [lowerPatternMembers, run_patternMember, run_patternMembers]

theorem run_patternMember (parent : ρ) (role : Role) (member : PatternMember) :
    lowerPatternMember sink parent role member =
      sink.run parent (lowerPatternMember tree () role member) := by
  cases member with
  | shorthand name value span => cases value <;> simp [lowerPatternMember, run_expr]
  | _ => simp [lowerPatternMember, run_key, run_pattern]

theorem run_block (parent : ρ) (block : Block) :
    lowerBlock sink parent block = sink.run parent (lowerBlock tree () block) := by
  cases block
  simp [lowerBlock, run_stmts]

theorem run_declarators (parent : ρ) (kind : DeclKind) (declarators : List Declarator) :
    lowerDeclarators sink parent kind declarators =
      sink.runAll parent (lowerDeclarators tree () kind declarators) := by
  cases declarators with
  | nil => rfl
  | cons declarator rest =>
    cases declarator
    simp [lowerDeclarators, run_pattern, run_optional, run_declarators]

theorem run_forHead (parent : ρ) (head : ForHead) :
    lowerForHead sink parent head = sink.run parent (lowerForHead tree () head) := by
  cases head <;> simp [lowerForHead, run_declarators, run_expr, run_pattern]

theorem run_forInit (parent : ρ) (init : Option ForHead) :
    lowerForInit sink parent init = sink.runAll parent (lowerForInit tree () init) := by
  cases init <;> simp [lowerForInit, run_forHead]

theorem run_cases (parent : ρ) (cases : List SwitchCase) :
    lowerCases sink parent cases = sink.runAll parent (lowerCases tree () cases) := by
  cases cases with
  | nil => rfl
  | cons case rest =>
    cases case
    simp [lowerCases, run_optional, run_stmts, run_cases]

theorem run_handler (parent : ρ) (handler : Handler) :
    lowerHandler sink parent handler = sink.runAll parent (lowerHandler tree () handler) := by
  cases handler <;> simp [lowerHandler, run_pattern, run_block]

theorem run_finalizer (parent : ρ) (finalizer : Option Block) :
    lowerFinalizer sink parent finalizer =
      sink.runAll parent (lowerFinalizer tree () finalizer) := by
  cases finalizer <;> simp [lowerFinalizer, run_block]

theorem run_stmt (parent : ρ) (stmt : Stmt) :
    lowerStmt sink parent stmt = sink.run parent (lowerStmt tree () stmt) := by
  cases stmt with
  | importDecl source locals span =>
    simp [lowerStmt, runAll_eq, map_map]
    rfl
  | _ => simp [lowerStmt, run_expr, run_optional, run_function, run_classMembers, run_block,
      run_declarators, run_forHead, run_forInit, run_cases, run_handler, run_finalizer, run_stmt]

theorem run_stmts (parent : ρ) (stmts : List Stmt) :
    lowerStmts sink parent stmts = sink.runAll parent (lowerStmts tree () stmts) := by
  cases stmts <;> simp [lowerStmts, run_stmt, run_stmts]

end

theorem run_program (parent : ρ) (program : Program) :
    lowerProgram sink parent program = sink.run parent (lowerProgram tree () program) := by
  simp [lowerProgram, run_stmts sink]

end Sink

end Seepage

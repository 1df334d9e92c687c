import Seepage.Tree.Kind

set_option autoImplicit false

namespace Seepage

open Script

-- Where nodes go. The second type is that of what a parent is known by, and the parts of a node are
-- lowered once it is there.
structure Sink (α ρ : Type) where
  node : Kind → Span → ρ → (ρ → List α) → α

variable {α ρ : Type} (sink : Sink α ρ)

namespace Sink

def leaf (parent : ρ) (kind : Kind) (span : Span) : α :=
  sink.node kind span parent fun _ => []

def ident (parent : ρ) (id : Ident) (role : Role) : α :=
  sink.leaf parent (.ident id.name role) id.span

def owner (parent : ρ) (kind : Kind) (span : Span) (children : ρ → List α) : α :=
  sink.node kind span parent fun id =>
    sink.leaf id .entry span :: sink.leaf id .exit span :: children id

def named (parent : ρ) (name : String) (span : Span) (children : ρ → List α) : α :=
  sink.node (.property (.named name)) span parent children

end Sink

def literalKey? : Expr → Option String
  | .literal (.string value) _ => some value
  | .literal (.number text) _ => some text
  | .template raw [] _ => some raw
  | _ => none

def keyName? : Key → Option String
  | .named name => some name
  | .privateName name => some name
  | .computed key => literalKey? key

def propKey (key : Key) : PropKey :=
  match keyName? key with
  | some name => .named name
  | none => .computed

def methodForm : Key → MethodForm → FunctionForm
  | .privateName _, _ => .method
  | _, .method => .method
  | _, .getter => .getter
  | _, .setter => .setter

def assignRole (op : String) : Role :=
  if op = "=" then .write else .readWrite

def lowerTarget? (parent : ρ) (role : Role) : Expr → Option α
  | .ident id | .paren (.ident id) _ => some (sink.ident parent id role)
  | .typed .instantiation _ span | .missing span =>
    some (sink.leaf parent (.unknown "assignment target") span)
  | _ => none

mutual

def lowerExpr (parent : ρ) : Expr → α
  | .this span => sink.leaf parent .this span
  | .ident id => sink.ident parent id .read
  | .literal value span => sink.leaf parent (.literal value) span
  | .array elements span => sink.node .array span parent fun id => lowerExprs id elements
  | .object members span => sink.node .object span parent fun id => lowerObjectMembers id members
  | .function name body => lowerFunction parent (name.map (·.name)) .expression body
  | .arrow body => lowerFunction parent none .arrow body
  | .classExpr name super members span =>
    sink.node (.classDef (name.map (·.name)) false super.isSome) span parent fun id =>
      lowerOptional id super ++ lowerClassMembers id members
  | .unary op operand span =>
    sink.node (.unary op) span parent fun id => [lowerExpr id operand]
  | .update op before operand span =>
    sink.node (.update op before) span parent fun id =>
      [match operand with
       | .ident name => sink.ident id name .readWrite
       | other => lowerExpr id other]
  | .binary op left right span =>
    sink.node (.binary op) span parent fun id => [lowerExpr id left, lowerExpr id right]
  | .assign op target value span =>
    sink.node (.assign op) span parent fun id =>
      [match lowerTarget? sink id (assignRole op) target with
       | some lowered => lowered
       | none => lowerExpr id target,
       lowerExpr id value]
  | .assignPattern target value span =>
    sink.node (.assign "=") span parent fun id =>
      [lowerPattern id .write target, lowerExpr id value]
  | .member object key _ span =>
    sink.node (.member (propKey key)) span parent fun id => lowerExpr id object :: lowerKey id key
  | .superMember keyword key span =>
    sink.node (.member (propKey key)) span parent fun id =>
      sink.leaf id .this keyword :: lowerKey id key
  | .conditional test consequent alternate span =>
    sink.node .conditional span parent fun id =>
      [lowerExpr id test, lowerExpr id consequent, lowerExpr id alternate]
  | .call callee args _ span =>
    sink.node .call span parent fun id => lowerExpr id callee :: lowerExprs id args
  | .new callee args span =>
    sink.node .new span parent fun id => lowerExpr id callee :: lowerExprs id args
  | .sequence exprs span => sink.node .sequence span parent fun id => lowerExprs id exprs
  | .template _ exprs span => sink.node .template span parent fun id => lowerExprs id exprs
  | .tagged tag exprs span =>
    sink.node .tagged span parent fun id => lowerExpr id tag :: lowerExprs id exprs
  | .yield argument span =>
    sink.node (.yield argument.isSome) span parent fun id => lowerOptional id argument
  | .await argument span => sink.node .await span parent fun id => [lowerExpr id argument]
  | .paren inner _ => lowerExpr parent inner
  | .typed _ inner _ => lowerExpr parent inner
  | .spread inner span => sink.node .spread span parent fun id => [lowerExpr id inner]
  | .hole span => sink.leaf parent (.unknown "hole") span
  | .missing span => sink.leaf parent (.unknown "unsupported expression") span
  | .unsupported what span => sink.leaf parent (.unknown what) span

def lowerExprs (parent : ρ) : List Expr → List α
  | [] => []
  | .hole _ :: rest => lowerExprs parent rest
  | expr :: rest => lowerExpr parent expr :: lowerExprs parent rest

def lowerOptional (parent : ρ) : Option Expr → List α
  | none => []
  | some expr => [lowerExpr parent expr]

def lowerKey (parent : ρ) : Key → List α
  | .named _ => []
  | .privateName _ => []
  | .computed key => if (literalKey? key).isSome then [] else [lowerExpr parent key]

def lowerObjectMembers (parent : ρ) : List ObjectMember → List α
  | [] => []
  | member :: rest => lowerObjectMember parent member :: lowerObjectMembers parent rest

def lowerObjectMember (parent : ρ) : ObjectMember → α
  | .shorthand name => sink.named parent name.name name.span fun id => [sink.ident id name .read]
  | .keyed key value span =>
    sink.node (.property (propKey key)) span parent fun id => lowerKey id key ++ [lowerExpr id value]
  | .initialized name value span =>
    sink.named parent name.name span fun id => [lowerExpr id value]
  | .method key form body span => lowerMethod parent key form (lowerKey · key) span body
  | .spread value span => sink.node .spread span parent fun id => [lowerExpr id value]

def lowerMethod (parent : ρ) (key : Key) (form : MethodForm) (keys : ρ → List α) (whole : Span) :
    Function → α
  | .mk params body span =>
    sink.node (.property (propKey key)) whole parent fun id =>
      keys id ++
        [sink.owner id (.function (keyName? key) (methodForm key form) params.length false) span
          fun id => lowerParams id params ++ lowerBody id body]

def lowerFunction (parent : ρ) (name : Option String) (form : FunctionForm) : Function → α
  | .mk params body span =>
    sink.owner parent
      (.function name form params.length (match body with | .expr _ => true | _ => false)) span
      fun id => lowerParams id params ++ lowerBody id body

def lowerBody (parent : ρ) : Body → List α
  | .absent => []
  | .block body => [lowerBlock parent body]
  | .expr value => [lowerExpr parent value]

def lowerClassMembers (parent : ρ) : List ClassMember → List α
  | [] => []
  | member :: rest => lowerClassMember parent member :: lowerClassMembers parent rest

def lowerClassMember (parent : ρ) : ClassMember → α
  | .constructor body => sink.named parent "constructor" body.span fun id =>
      [lowerFunction id (some "constructor") .constructor body]
  | .method key form body => lowerMethod parent key form (lowerKey · key) body.span body
  | .field key value span =>
    sink.node (.property (propKey key)) span parent fun id => lowerKey id key ++ lowerOptional id value
  | .staticBlock body span => sink.named parent "static" span fun id =>
      [sink.owner id (.function none .method 0 false) span fun id => [lowerBlock id body]]

def lowerParams (parent : ρ) : List Param → List α
  | [] => []
  | param :: rest => lowerParam parent param :: lowerParams parent rest

def lowerParam (parent : ρ) : Param → α
  | .ident name => sink.ident parent name (.declare .param)
  | .array elements span =>
    sink.node .arrayPattern span parent fun id => lowerPatterns id (.declare .param) elements
  | .object members span =>
    sink.node .objectPattern span parent fun id => lowerPatternMembers id (.declare .param) members
  | .rest inner span =>
    sink.node .rest span parent fun id => [lowerPattern id (.declare .param) inner]
  | .initialized target value span => sink.node .assignPattern span parent fun id =>
      [lowerPattern id (.declare .param) target, lowerExpr id value]
  | .unsupported what span => sink.leaf parent (.unknown what) span

def lowerPattern (parent : ρ) (role : Role) : Pattern → α
  | .ident name => sink.ident parent name role
  | .array elements span =>
    sink.node .arrayPattern span parent fun id => lowerPatterns id role elements
  | .object members span =>
    sink.node .objectPattern span parent fun id => lowerPatternMembers id role members
  | .rest inner span => sink.node .rest span parent fun id => [lowerPattern id role inner]
  | .initialized target value span => sink.node .assignPattern span parent fun id =>
      [lowerPattern id role target, lowerExpr id value]
  | .expr target => lowerExpr parent target
  | .unsupported what span => sink.leaf parent (.unknown what) span

def lowerPatterns (parent : ρ) (role : Role) : List Pattern → List α
  | [] => []
  | pattern :: rest => lowerPattern parent role pattern :: lowerPatterns parent role rest

def lowerPatternMembers (parent : ρ) (role : Role) : List PatternMember → List α
  | [] => []
  | member :: rest => lowerPatternMember parent role member :: lowerPatternMembers parent role rest

def lowerPatternMember (parent : ρ) (role : Role) : PatternMember → α
  | .keyed key value span => sink.node (.property (propKey key)) span parent fun id =>
      lowerKey id key ++ [lowerPattern id role value]
  | .shorthand name none span =>
    sink.named parent name.name span fun id => [sink.ident id name role]
  | .shorthand name (some value) span => sink.named parent name.name span fun id =>
      [sink.node .assignPattern span id fun id => [sink.ident id name role, lowerExpr id value]]
  | .rest inner span => sink.node .rest span parent fun id => [lowerPattern id role inner]

def lowerBlock (parent : ρ) : Block → α
  | .mk body span => sink.node .block span parent fun id => lowerStmts id body

def lowerDeclarators (parent : ρ) (kind : DeclKind) : List Declarator → List α
  | [] => []
  | .mk target value span :: rest =>
    sink.node (.declarator value.isSome) span parent
        (fun id => lowerPattern id (.declare kind) target :: lowerOptional id value) ::
      lowerDeclarators parent kind rest

def lowerForHead (parent : ρ) : ForHead → α
  | .vars kind declarators span =>
    sink.node (.varDecl kind) span parent fun id => lowerDeclarators id (.ofVar kind) declarators
  | .expr value => lowerExpr parent value
  | .pattern target => lowerPattern parent .write target

def lowerForInit (parent : ρ) : Option ForHead → List α
  | none => []
  | some head => [lowerForHead parent head]

def lowerCases (parent : ρ) : List SwitchCase → List α
  | [] => []
  | .mk test body span :: rest =>
    sink.node (.switchCase test.isNone) span parent
        (fun id => lowerOptional id test ++ lowerStmts id body) ::
      lowerCases parent rest

def lowerHandler (parent : ρ) : Handler → List α
  | .absent => []
  | .bare body span => [sink.node (.catchClause false) span parent fun id => [lowerBlock id body]]
  | .binding param body span =>
    [sink.node (.catchClause true) span parent fun id =>
      [lowerPattern id (.declare .caught) param, lowerBlock id body]]

def lowerFinalizer (parent : ρ) : Option Block → List α
  | none => []
  | some body => [lowerBlock parent body]

def lowerStmt (parent : ρ) : Stmt → α
  | .block body => lowerBlock parent body
  | .empty span => sink.leaf parent .empty span
  | .expr value span => sink.node .exprStmt span parent fun id => [lowerExpr id value]
  | .vars kind declarators span =>
    sink.node (.varDecl kind) span parent fun id => lowerDeclarators id (.ofVar kind) declarators
  | .function name body => lowerFunction parent (some name) .declaration body
  | .classDecl name super members span =>
    sink.node (.classDef name name.isSome super.isSome) span parent fun id =>
      lowerOptional id super ++ lowerClassMembers id members
  | .withStmt object body span =>
    sink.node .withStmt span parent fun id => [lowerExpr id object, lowerStmt id body]
  | .returnStmt argument span =>
    sink.node (.returnStmt argument.isSome) span parent fun id => lowerOptional id argument
  | .throwStmt argument span => sink.node .throwStmt span parent fun id => [lowerExpr id argument]
  | .labeled label body span => sink.node (.labeled label) span parent fun id => [lowerStmt id body]
  | .breakStmt label span => sink.leaf parent (.breakStmt label) span
  | .continueStmt label span => sink.leaf parent (.continueStmt label) span
  | .ifThen test consequent span =>
    sink.node (.ifStmt false) span parent fun id => [lowerExpr id test, lowerStmt id consequent]
  | .ifElse test consequent alternate span => sink.node (.ifStmt true) span parent fun id =>
      [lowerExpr id test, lowerStmt id consequent, lowerStmt id alternate]
  | .switchStmt subject cases span =>
    sink.node .switchStmt span parent fun id => lowerExpr id subject :: lowerCases id cases
  | .tryStmt body handler finalizer span =>
    sink.node (.tryStmt (match handler with | .absent => false | _ => true) finalizer.isSome) span
      parent fun id => lowerBlock id body :: (lowerHandler id handler ++ lowerFinalizer id finalizer)
  | .whileStmt test body span =>
    sink.node .whileStmt span parent fun id => [lowerExpr id test, lowerStmt id body]
  | .doWhile body test span =>
    sink.node .doWhile span parent fun id => [lowerStmt id body, lowerExpr id test]
  | .forStmt init test update body span =>
    sink.node (.forStmt init.isSome test.isSome update.isSome) span parent fun id =>
      lowerForInit id init ++ lowerOptional id test ++ lowerOptional id update ++ [lowerStmt id body]
  | .forIn head object body span => sink.node .forIn span parent fun id =>
      [lowerForHead id head, lowerExpr id object, lowerStmt id body]
  | .forOf head object body span => sink.node .forOf span parent fun id =>
      [lowerForHead id head, lowerExpr id object, lowerStmt id body]
  | .importDecl source locals span => sink.node (.importDecl source) span parent fun id =>
      locals.map (sink.ident id · (.declare .imported))
  | .exportDefault value span =>
    sink.node .exportDefault span parent fun id => [lowerExpr id value]
  | .unsupported what span => sink.leaf parent (.unknown what) span

def lowerStmts (parent : ρ) : List Stmt → List α
  | [] => []
  | stmt :: rest => lowerStmt parent stmt :: lowerStmts parent rest

end

def lowerProgram (parent : ρ) (program : Program) : α :=
  sink.owner parent .program program.span fun id => lowerStmts sink id program.body

end Seepage

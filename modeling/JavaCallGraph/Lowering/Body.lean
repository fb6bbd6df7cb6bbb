import JavaCallGraph.Lowering.Expr

/-!
# From syntax trees to method bodies

A body is built by one walk over the statements of a method in source order.  The walk keeps the body
built so far and the number of the scope it is in.

* A block and the braces of a `switch` open a scope; so do `for` and `try` with resources as a whole,
  a `catch` clause for its parameter, a lambda, and every method of an anonymous class.
* The body of a `catch` clause, of a lambda and of a method of an anonymous class opens no further
  scope.
* A variable enters its scope before its initial value is walked.
* The pattern variable of a type test enters the scope that the test stands in.
* A call is recorded before the calls in its receiver and its arguments; the members of an anonymous
  class come after the arguments of its creation.
* Types declared inside a body keep their calls to themselves; annotation types, whose constants and
  default values are expressions of the body, do not.

An annotation may stand inside a written type: in a cast, a type test, the creation of an object or of an
array and the declaration of a resource.  Its arguments are expressions, and a walk over everything that
stands below a node of the text would enter them too.  The trees have no annotations inside types, so
calls in their arguments are not recorded here.
-/

set_option autoImplicit false

namespace JavaCallGraph.Body

/-- The body of a method without statements: one scope. -/
def empty : Body := ⟨[⟨none, .method, [], []⟩], []⟩

/-- The number that the next scope will get. -/
def nextScope (b : Body) : ScopeId := b.scopes.length

/-- Adds a scope with the given lambda parameters; its number is `nextScope`. -/
def openScope (b : Body) (parent : ScopeId) (kind : ScopeKind) (params : List LambdaParam) : Body :=
  { b with scopes := b.scopes ++ [⟨some parent, kind, [], params⟩] }

/-- Declares a variable in a scope. -/
def addLocal (b : Body) (scope : ScopeId) (v : LocalVar) : Body :=
  { b with scopes := b.scopes.modify scope fun s => { s with locals := s.locals ++ [v] } }

/-- Records a call. -/
def addCall (b : Body) (c : CallSite) : Body := { b with calls := b.calls ++ [c] }

/-- Declares the parameters of a method as variables. -/
def addParams (b : Body) (scope : ScopeId) (ps : List Param) : Body :=
  ps.foldl (fun b p =>
    b.addLocal scope ⟨p.name, if p.varargs then .array p.type else p.type, none, none⟩) b

end JavaCallGraph.Body

namespace JavaCallGraph.Syntax

mutual

/-- Walks an expression that stands in `scope`. -/
def walkExpr (scope : ScopeId) : Expr → Body → Body
  | .literal _, b => b
  | .text embedded, b => walkExprs scope embedded b
  | .name _, b => b
  | .this, b => b
  | .super, b => b
  | .field object _, b => walkExpr scope object b
  | .call line object n args, b =>
    walkExprs scope args
      (walkOption scope object (b.addCall ⟨lowerCall object n args, scope, line⟩))
  | .new outer _ args, b => walkExprs scope args (walkOption scope outer b)
  | .anonymous outer t args members, b =>
    let b := walkExprs scope args (walkOption scope outer b)
    walkMembers b.nextScope members (b.openScope scope (.anonymous t) [])
  | .newArray _ sizes init, b => walkOption scope init (walkExprs scope sizes b)
  | .arrayInit es, b => walkExprs scope es b
  | .index array position, b => walkExpr scope position (walkExpr scope array b)
  | .binary _ l r, b => walkExpr scope r (walkExpr scope l b)
  | .unary _ e, b => walkExpr scope e b
  | .conditional condition positive negative, b =>
    walkExpr scope negative (walkExpr scope positive (walkExpr scope condition b))
  | .cast _ e, b => walkExpr scope e b
  | .instanceOf e _ none, b => walkExpr scope e b
  | .instanceOf e t (some n), b => walkExpr scope e (b.addLocal scope ⟨n, t, none, none⟩)
  | .assign target value, b => walkExpr scope value (walkExpr scope target b)
  | .classLiteral _, b => b
  | .lambda params body, b => walkExpr b.nextScope body (b.openScope scope .lambda params)
  | .lambdaBlock params body, b => walkStmts b.nextScope body (b.openScope scope .lambda params)
  | .methodReference qualifier, b => walkOption scope qualifier b
  | .parens inner, b => walkExpr scope inner b
  | .switch subject body, b =>
    let b := walkExpr scope subject b
    walkStmts b.nextScope body (b.openScope scope .block [])
  | .template processor embedded, b => walkExprs scope embedded (walkExpr scope processor b)

/-- Walks an expression that may be missing. -/
def walkOption (scope : ScopeId) : Option Expr → Body → Body
  | none, b => b
  | some e, b => walkExpr scope e b

/-- Walks a list of expressions. -/
def walkExprs (scope : ScopeId) : List Expr → Body → Body
  | [], b => b
  | e :: es, b => walkExprs scope es (walkExpr scope e b)

/-- Walks a statement that stands in `scope`. -/
def walkStmt (scope : ScopeId) : Stmt → Body → Body
  | .evaluate es, b => walkExprs scope es b
  | .block body, b => walkStmts b.nextScope body (b.openScope scope .block [])
  | .declare vars, b => walkVars scope vars b
  | .ifElse condition positive negative, b =>
    walkElse scope negative (walkStmt scope positive (walkExpr scope condition b))
  | .whileLoop condition body, b => walkStmt scope body (walkExpr scope condition b)
  | .doWhile body condition, b => walkExpr scope condition (walkStmt scope body b)
  | .forLoop init condition update body, b =>
    let inner := b.nextScope
    let b := walkStmt inner init (b.openScope scope .block [])
    walkStmt inner body (walkExprs inner update (walkExprs inner condition b))
  | .forEach t n iterable body, b =>
    let b := walkExpr scope iterable b
    let inner := b.nextScope
    walkStmt inner body
      ((b.openScope scope .block []).addLocal inner ⟨n, t, none, some iterable.lower⟩)
  | .labeled body, b => walkStmt scope body b
  | .synchronized lock body, b =>
    let b := walkExpr scope lock b
    walkStmts b.nextScope body (b.openScope scope .block [])
  | .tryPlain body handlers, b =>
    walkHandlers scope handlers (walkStmts b.nextScope body (b.openScope scope .block []))
  | .tryWith resources body handlers, b =>
    let inner := b.nextScope
    let b := walkResources inner resources (b.openScope scope .block [])
    walkHandlers inner handlers (walkStmts b.nextScope body (b.openScope inner .block []))
  | .localType _, b => b
  | .localAnnotationType t, b => walkAnnotationType scope t b

/-- Walks the `else` part of a statement. -/
def walkElse (scope : ScopeId) : Option Stmt → Body → Body
  | none, b => b
  | some s, b => walkStmt scope s b

/-- Walks a list of statements. -/
def walkStmts (scope : ScopeId) : List Stmt → Body → Body
  | [], b => b
  | s :: ss, b => walkStmts scope ss (walkStmt scope s b)

/-- Walks variable declarations: each variable is declared, then its initial value is walked. -/
def walkVars (scope : ScopeId) : List Declarator → Body → Body
  | [], b => b
  | .mk n t init :: vs, b =>
    walkVars scope vs
      (walkOption scope init (b.addLocal scope ⟨n, t, lowerOption init, none⟩))

/-- Walks the clauses behind the block of a `try`. -/
def walkHandlers (scope : ScopeId) : List Handler → Body → Body
  | [], b => b
  | .catchClause t n body :: hs, b =>
    let inner := b.nextScope
    walkHandlers scope hs
      (walkStmts inner body ((b.openScope scope .block []).addLocal inner ⟨n, t, none, none⟩))
  | .finallyClause body :: hs, b =>
    walkHandlers scope hs (walkStmts b.nextScope body (b.openScope scope .block []))

/-- Walks the resources of a `try`. -/
def walkResources (scope : ScopeId) : List Resource → Body → Body
  | [], b => b
  | .declared t n value :: rs, b =>
    walkResources scope rs
      (walkExpr scope value (b.addLocal scope ⟨n, t, some value.lower, none⟩))
  | .existing value :: rs, b => walkResources scope rs (walkExpr scope value b)

/-- Walks the members of an anonymous class whose body is `scope`: its fields are variables of that
scope, its methods have scopes of their own inside it. -/
def walkMembers (scope : ScopeId) : List Member → Body → Body
  | [], b => b
  | .field _ vars :: ms, b => walkMembers scope ms (walkVars scope vars b)
  | .method header body :: ms, b =>
    let inner := b.nextScope
    walkMembers scope ms
      (walkStmts inner body ((b.openScope scope .block []).addParams inner header.params))
  | .abstractMethod header _ :: ms, b =>
    walkMembers scope ms ((b.openScope scope .block []).addParams b.nextScope header.params)
  | .initializer body :: ms, b =>
    walkMembers scope ms (walkStmts b.nextScope body (b.openScope scope .block []))
  | .constructor :: ms, b => walkMembers scope ms b
  | .enumConstant _ :: ms, b => walkMembers scope ms b
  | .type _ :: ms, b => walkMembers scope ms b

/-- Walks an annotation type declared in a body. -/
def walkAnnotationType (scope : ScopeId) : TypeTree → Body → Body
  | .mk header members, b =>
    if header.kind == .annotationType then walkAnnotationMembers scope members b else b

/-- Walks the constants, default values and annotation types inside an annotation type. -/
def walkAnnotationMembers (scope : ScopeId) : List Member → Body → Body
  | [], b => b
  | .field _ vars :: ms, b => walkAnnotationMembers scope ms (walkInits scope vars b)
  | .abstractMethod _ default :: ms, b =>
    walkAnnotationMembers scope ms (walkOption scope default b)
  | .type t :: ms, b => walkAnnotationMembers scope ms (walkAnnotationType scope t b)
  | .method _ _ :: ms, b => walkAnnotationMembers scope ms b
  | .initializer _ :: ms, b => walkAnnotationMembers scope ms b
  | .constructor :: ms, b => walkAnnotationMembers scope ms b
  | .enumConstant _ :: ms, b => walkAnnotationMembers scope ms b

/-- Walks initial values without declaring their variables. -/
def walkInits (scope : ScopeId) : List Declarator → Body → Body
  | [], b => b
  | .mk _ _ init :: vs, b => walkInits scope vs (walkOption scope init b)

end

/-- **The body of a method with the given statements.** -/
def lowerBody (statements : List Stmt) : Body := walkStmts 0 statements Body.empty

end JavaCallGraph.Syntax

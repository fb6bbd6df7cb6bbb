import JavaCallGraph.Declaration.Expr

/-!
# Method bodies

Of a method body two things are kept: its lexical scopes, each with the variables declared in it and
a link to the scope around it, and its call sites in pre-order, each with the scope it stands in.

Scope `0` is the scope of the method itself.  A scope is created after the one around it, so links
lead to smaller numbers; `Body.chain` follows them from a scope outwards.
-/

set_option autoImplicit false

namespace JavaCallGraph

/-- The number of a scope within its body. -/
abbrev ScopeId := Nat

/-- What opened a scope. -/
inductive ScopeKind where
  | method
  | block
  | lambda
  /-- The body of an anonymous class; `this` is an instance of the written type. -/
  | anonymous (base : TypeRef)
  deriving Repr, Inhabited

/-- A local variable. -/
structure LocalVar where
  name : String
  type : TypeRef
  init : Option Expr
  /-- For the variable of an enhanced `for`: what is iterated. -/
  iterable : Option Expr
  deriving Repr, Inhabited

/-- A parameter of a lambda. -/
structure LambdaParam where
  name : String
  /-- The written type, unless it is left implicit. -/
  type : Option TypeRef
  deriving Repr, Inhabited

/-- A lexical scope. -/
structure LexicalScope where
  parent : Option ScopeId
  kind : ScopeKind
  locals : List LocalVar
  lambdaParams : List LambdaParam
  deriving Repr, Inhabited

/-- A method call at its place in a body. -/
structure CallSite where
  call : MethodCall
  scope : ScopeId
  line : Nat
  deriving Repr, Inhabited

/-- A method body. -/
structure Body where
  scopes : List LexicalScope
  /-- In pre-order: an outer call before the calls inside it. -/
  calls : List CallSite
  deriving Repr, Inhabited

namespace Body

/-- The scope `id` and the scopes around it, innermost first. -/
def chain (b : Body) (id : ScopeId) : List LexicalScope :=
  match b.scopes[id]? with
  | none => []
  | some s =>
    s :: match s.parent with
      | none => []
      | some p => if p < id then b.chain p else []
termination_by id

/-- The type written at the innermost anonymous class around a scope. -/
def anonymousBase? (b : Body) (id : ScopeId) : Option TypeRef :=
  (b.chain id).findSome? fun s =>
    match s.kind with
    | .anonymous base => some base
    | _ => none

/-- All variables declared anywhere in the body. -/
def locals (b : Body) : List LocalVar := b.scopes.flatMap (·.locals)

end Body

end JavaCallGraph

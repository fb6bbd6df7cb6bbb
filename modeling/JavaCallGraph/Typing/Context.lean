import JavaCallGraph.Codebase.Hierarchy

/-!
# Where an expression stands

The meaning of a name depends on the method and the lexical scope around it.  `ExprContext.binding?`
finds the variable that a name refers to: scopes from the inside out, in each scope the parameters of
a lambda before the local variables, and the parameters of the method last.
-/

set_option autoImplicit false

namespace JavaCallGraph

/-- The place of an expression: a method and a scope of its body. -/
structure ExprContext where
  method : MethodRef
  decl : MethodDecl
  scope : ScopeId

/-- What a simple name refers to inside a method. -/
inductive Binding where
  | local (v : LocalVar)
  | lambdaParam (p : LambdaParam)
  | param (p : Param)

namespace ExprContext

/-- The type that declares the method. -/
def type (ctx : ExprContext) : TypeId := ctx.method.owner

/-- The scope of written types. -/
def typeScope (ctx : ExprContext) : TypeScope := ⟨ctx.method.owner, ctx.decl.typeParams⟩

/-- The type written at the innermost anonymous class around the place. -/
def anonymousBase? (ctx : ExprContext) : Option TypeRef :=
  ctx.decl.body.bind fun b => b.anonymousBase? ctx.scope

/-- The variable of that name in one scope. -/
def bindingIn? (name : String) (s : LexicalScope) : Option Binding :=
  ((s.lambdaParams.find? fun p => p.name == name).map Binding.lambdaParam).or
    ((s.locals.find? fun v => v.name == name).map Binding.local)

/-- **The variable that a name refers to.** -/
def binding? (ctx : ExprContext) (name : String) : Option Binding :=
  (ctx.decl.body.bind fun b => (b.chain ctx.scope).findSome? (bindingIn? name)).or
    ((ctx.decl.params.find? fun p => p.name == name).map Binding.param)

/-- How many variables the body declares, which bounds how often the type of one can lead to the
initial value of another. -/
def localCount (ctx : ExprContext) : Nat :=
  match ctx.decl.body with
  | some b => b.locals.length
  | none => 0

end ExprContext

namespace Codebase

variable (c : Codebase)

/-- A method with one of its scopes. -/
def context (m : MethodRef) (scope : ScopeId) : ExprContext := ⟨m, c.method m, scope⟩

/-- The type of `this`: inside an anonymous class the type written at its creation. -/
def thisType (ctx : ExprContext) : TypeInfo :=
  match ctx.anonymousBase? with
  | some base => c.qualify ctx.typeScope base
  | none => c.sourceType ctx.type

/-- The type under which a `super` receiver is looked up. -/
def superType? (ctx : ExprContext) : Option TypeInfo :=
  match ctx.anonymousBase? with
  | some base => some (c.qualify ctx.typeScope base)
  | none => c.superclass? (c.sourceType ctx.type)

/-- The type of a literal; `null` has none. -/
def literalType? : Literal → Option TypeInfo
  | .int => some (.primitive .int)
  | .long => some (.primitive .long)
  | .float => some (.primitive .float)
  | .double => some (.primitive .double)
  | .char => some (.primitive .char)
  | .boolean => some (.primitive .boolean)
  | .string => some (c.typeInfo stringName)
  | .null => none

end Codebase

end JavaCallGraph

import JavaCallGraph.Syntax.Tree

/-!
# From syntax trees to expressions

`Syntax.Expr.lower` forgets what a type does not depend on: parentheses, conditions, indices, lambda
bodies, anonymous class bodies and the outer instance of an object creation.
-/

set_option autoImplicit false

namespace JavaCallGraph.Syntax

mutual

/-- The expression that a syntax tree denotes. -/
def Expr.lower : Expr → JavaCallGraph.Expr
  | .literal l => .literal l
  | .text _ => .literal .string
  | .name n => .name n
  | .this => .this
  | .super => .super
  | .field object n => .field object.lower n
  | .call _ object n args => .call (lowerOption object) n (lowerAll args)
  | .new _ t args => .new t (lowerAll args)
  | .anonymous _ t args _ => .new t (lowerAll args)
  | .newArray t _ _ => .newArray t
  | .arrayInit _ => .unsupported .arrayInitializer
  | .index array _ => .index array.lower
  | .binary op l r => .binary op l.lower r.lower
  | .unary op e => .unary op e.lower
  | .conditional _ positive negative => .conditional positive.lower negative.lower
  | .cast t e => .cast t e.lower
  | .instanceOf e _ _ => .instanceOf e.lower
  | .assign target value => .assign target.lower value.lower
  | .classLiteral t => .classLiteral t
  | .lambda _ _ => .lambda
  | .lambdaBlock _ _ => .lambda
  | .methodReference _ => .methodReference
  | .parens inner => inner.lower
  | .switch _ _ => .unsupported .switchExpression
  | .template _ _ => .unsupported .templateExpression

/-- An expression that may be missing. -/
def lowerOption : Option Expr → Option JavaCallGraph.Expr
  | none => none
  | some e => some e.lower

/-- A list of expressions. -/
def lowerAll : List Expr → List JavaCallGraph.Expr
  | [] => []
  | e :: es => e.lower :: lowerAll es

end

/-- The call that an invocation denotes. -/
def lowerCall (object : Option Expr) (name : String) (args : List Expr) : MethodCall :=
  ⟨lowerOption object, name, lowerAll args⟩

end JavaCallGraph.Syntax

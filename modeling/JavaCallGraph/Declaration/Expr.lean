import JavaCallGraph.Declaration.TypeRef

/-!
# Expressions

What is kept of an expression: enough to ask for its type and for the calls that stand in receiver
position.  Conditions of conditionals, indices, the bodies of lambdas and of anonymous classes do not
bear on a type and are left out; the calls inside them are recorded as call sites of the method body.
-/

set_option autoImplicit false

namespace JavaCallGraph

/-- The kind of a literal. -/
inductive Literal where
  | int
  | long
  | float
  | double
  | char
  | boolean
  | string
  | null
  deriving DecidableEq, Repr, Inhabited

/-- The name of a kind of literal. -/
def Literal.name : Literal → String
  | int => "int"
  | long => "long"
  | float => "float"
  | double => "double"
  | char => "char"
  | boolean => "boolean"
  | string => "string"
  | null => "null"

/-- A binary operator. -/
inductive BinaryOp where
  | add
  | sub
  | mul
  | div
  | rem
  | bitAnd
  | bitOr
  | bitXor
  | shl
  | shr
  | ushr
  | and
  | or
  | eq
  | ne
  | lt
  | gt
  | le
  | ge
  deriving DecidableEq, Repr, Inhabited

namespace BinaryOp

/-- How the operator is written. -/
def symbol : BinaryOp → String
  | add => "+"
  | sub => "-"
  | mul => "*"
  | div => "/"
  | rem => "%"
  | bitAnd => "&"
  | bitOr => "|"
  | bitXor => "^"
  | shl => "<<"
  | shr => ">>"
  | ushr => ">>>"
  | and => "&&"
  | or => "||"
  | eq => "=="
  | ne => "!="
  | lt => "<"
  | gt => ">"
  | le => "<="
  | ge => ">="

/-- Comparisons and the two logical connectives yield `boolean` whatever their operands are. -/
def isBoolean : BinaryOp → Bool
  | and | or | eq | ne | lt | gt | le | ge => true
  | _ => false

/-- The bitwise connectives, which work on truth values too. -/
def isBitwise : BinaryOp → Bool
  | bitAnd | bitOr | bitXor => true
  | _ => false

/-- The shifts, whose type comes from the left operand alone. -/
def isShift : BinaryOp → Bool
  | shl | shr | ushr => true
  | _ => false

end BinaryOp

/-- A unary operator. -/
inductive UnaryOp where
  | not
  | neg
  | plus
  | bitNot
  | increment
  | decrement
  deriving DecidableEq, Repr, Inhabited

/-- How the operator is written. -/
def UnaryOp.symbol : UnaryOp → String
  | not => "!"
  | neg => "-"
  | plus => "+"
  | bitNot => "~"
  | increment => "++"
  | decrement => "--"

/-- The forms of expression that have no type of their own here. -/
inductive UnsupportedForm where
  | switchExpression
  | arrayInitializer
  | templateExpression
  deriving DecidableEq, Repr, Inhabited

/-- The name of an unsupported form. -/
def UnsupportedForm.name : UnsupportedForm → String
  | switchExpression => "switch_expression"
  | arrayInitializer => "array_initializer"
  | templateExpression => "template_expression"

/-- An expression. -/
inductive Expr where
  | literal (l : Literal)
  | name (n : String)
  | field (receiver : Expr) (name : String)
  /-- A method call; without a receiver it is unqualified. -/
  | call (receiver : Option Expr) (name : String) (args : List Expr)
  | new (type : TypeRef) (args : List Expr)
  | newArray (type : TypeRef)
  | index (array : Expr)
  | binary (op : BinaryOp) (left right : Expr)
  | unary (op : UnaryOp) (operand : Expr)
  | conditional (positive negative : Expr)
  | cast (type : TypeRef) (operand : Expr)
  | instanceOf (operand : Expr)
  | assign (target value : Expr)
  | this
  | super
  | classLiteral (type : TypeRef)
  | lambda
  | methodReference
  | unsupported (form : UnsupportedForm)
  deriving Repr, Inhabited

namespace Expr

/-- A string literal. -/
def isStringLiteral : Expr → Bool
  | literal .string => true
  | _ => false

/-- The dotted name that a chain of names and field accesses spells. -/
def dottedName? : Expr → Option String
  | name n => some n
  | field receiver n => receiver.dottedName?.map fun r => r ++ "." ++ n
  | _ => none

end Expr

/-- A method call. -/
structure MethodCall where
  receiver : Option Expr
  name : String
  args : List Expr
  deriving Repr, Inhabited

/-- The simple name of the receiver when that is a variable or a field. -/
def MethodCall.receiverName? (c : MethodCall) : Option String :=
  match c.receiver with
  | some (.name n) => some n
  | some (.field _ n) => some n
  | _ => none

end JavaCallGraph

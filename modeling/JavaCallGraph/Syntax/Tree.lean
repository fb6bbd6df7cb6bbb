import JavaCallGraph.Declaration.Basic

/-!
# Syntax trees

The tree of a source text, as far as scopes, calls and signatures go.  Statements that differ only in
what they do with a value (`return`, `throw`, `assert`, …) are one form, `Stmt.evaluate`; so are the
labels of a `switch`, which evaluate their constants and guards.

* `Expr`, `Stmt` — the inside of method bodies;
* `Member` — what stands in the body of a type;
* `TypeTree` — a type declaration with its members;
* `UnitTree` — a source file.
-/

set_option autoImplicit false

namespace JavaCallGraph.Syntax

/-- The words and annotations in front of a declaration; annotations by their last name. -/
structure Modifiers where
  words : List String
  annotations : List String
  deriving Repr, Inhabited

/-- A method without its body. -/
structure MethodHeader where
  modifiers : Modifiers
  typeParams : List TypeParam
  returnType : TypeRef
  name : String
  params : List Param
  lineStart : Nat
  lineEnd : Nat
  deriving Repr, Inhabited

/-- A type declaration without its members. -/
structure TypeHeader where
  modifiers : Modifiers
  kind : TypeKind
  name : String
  typeParams : List TypeParam
  /-- The components of a record. -/
  components : List Param
  extended : List TypeRef
  implemented : List TypeRef
  line : Nat
  deriving Repr, Inhabited

mutual

/-- An expression. -/
inductive Expr where
  | literal (l : Literal)
  /-- A string with expressions inside it. -/
  | text (embedded : List Expr)
  | name (n : String)
  | this
  | super
  | field (object : Expr) (name : String)
  /-- A method call that begins on the given line. -/
  | call (line : Nat) (object : Option Expr) (name : String) (args : List Expr)
  /-- An object creation, possibly qualified by an outer instance. -/
  | new (outer : Option Expr) (type : TypeRef) (args : List Expr)
  /-- The creation of an instance of an anonymous class. -/
  | anonymous (outer : Option Expr) (type : TypeRef) (args : List Expr) (members : List Member)
  /-- An array creation; `type` is that of the array. -/
  | newArray (type : TypeRef) (sizes : List Expr) (init : Option Expr)
  | arrayInit (elements : List Expr)
  | index (array position : Expr)
  | binary (op : BinaryOp) (left right : Expr)
  | unary (op : UnaryOp) (operand : Expr)
  | conditional (condition positive negative : Expr)
  | cast (type : TypeRef) (operand : Expr)
  /-- A type test; a pattern with a name also declares a variable. -/
  | instanceOf (operand : Expr) (type : TypeRef) (binding : Option String)
  | assign (target value : Expr)
  | classLiteral (type : TypeRef)
  | lambda (params : List LambdaParam) (body : Expr)
  | lambdaBlock (params : List LambdaParam) (body : List Stmt)
  | methodReference (qualifier : Option Expr)
  | parens (inner : Expr)
  | switch (subject : Expr) (body : List Stmt)
  /-- A string that goes through a processor. -/
  | template (processor : Expr) (embedded : List Expr)

/-- A statement. -/
inductive Stmt where
  /-- A statement that does nothing but evaluate expressions. -/
  | evaluate (exprs : List Expr)
  | block (body : List Stmt)
  /-- A declaration of local variables. -/
  | declare (vars : List Declarator)
  | ifElse (condition : Expr) (positive : Stmt) (negative : Option Stmt)
  | whileLoop (condition : Expr) (body : Stmt)
  | doWhile (body : Stmt) (condition : Expr)
  | forLoop (init : Stmt) (condition update : List Expr) (body : Stmt)
  | forEach (type : TypeRef) (name : String) (iterable : Expr) (body : Stmt)
  | labeled (body : Stmt)
  | synchronized (lock : Expr) (body : List Stmt)
  | tryPlain (body : List Stmt) (handlers : List Handler)
  | tryWith (resources : List Resource) (body : List Stmt) (handlers : List Handler)
  /-- A class, interface, enum or record declared inside a body. -/
  | localType (type : TypeTree)
  /-- An annotation type declared inside a body. -/
  | localAnnotationType (type : TypeTree)

/-- A variable with its full type and its initial value. -/
inductive Declarator where
  | mk (name : String) (type : TypeRef) (init : Option Expr)

/-- What follows the block of a `try`. -/
inductive Handler where
  | catchClause (type : TypeRef) (name : String) (body : List Stmt)
  | finallyClause (body : List Stmt)

/-- What a `try` opens. -/
inductive Resource where
  | declared (type : TypeRef) (name : String) (value : Expr)
  | existing (value : Expr)

/-- A member of a type. -/
inductive Member where
  | field (modifiers : Modifiers) (vars : List Declarator)
  | method (header : MethodHeader) (body : List Stmt)
  /-- A method without a body; in an annotation type it may have a default value. -/
  | abstractMethod (header : MethodHeader) (default : Option Expr)
  /-- An instance initializer. -/
  | initializer (body : List Stmt)
  /-- A constructor or a static initializer. -/
  | constructor
  | enumConstant (name : String)
  | type (declaration : TypeTree)

/-- A type declaration. -/
inductive TypeTree where
  | mk (header : TypeHeader) (members : List Member)

end

instance : Inhabited Expr := ⟨.this⟩

instance : Inhabited Stmt := ⟨.evaluate []⟩

/-- The name of a variable. -/
def Declarator.name : Declarator → String
  | mk name _ _ => name

/-- The type of a variable. -/
def Declarator.type : Declarator → TypeRef
  | mk _ type _ => type

/-- The initial value of a variable. -/
def Declarator.init : Declarator → Option Expr
  | mk _ _ init => init

/-- The declaration without the members. -/
def TypeTree.header : TypeTree → TypeHeader
  | mk header _ => header

/-- The members of a type. -/
def TypeTree.members : TypeTree → List Member
  | mk _ members => members

/-- A declaration at the top of a file. -/
inductive TopLevel where
  | package (name : String)
  | imported (i : Import)
  | type (declaration : TypeTree)
  /-- Anything else: modules, and methods or statements outside a type. -/
  | other

/-- A source file. -/
structure UnitTree where
  items : List TopLevel

end JavaCallGraph.Syntax

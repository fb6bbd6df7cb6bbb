import JavaCallGraph.Syntax.Parser.Declarations

/-!
# Parsing source files

The rules of the grammar refer to each other through a `Grammar`.  This file defines the family
`grammar n` in which constructs may be nested `n` deep, and reads whole files with a depth that no
file can exceed: a chain of nested constructs takes a token at least at every fourth link.

A file is a sequence of package and import declarations, types, and other things that are read only
to find their end.
-/

set_option autoImplicit false

namespace JavaCallGraph.Syntax

namespace Parser

mutual

/-- Expressions nested at most `n` deep. -/
def exprAt : Nat → Bool → Parser Expr
  | 0, _ => failure
  | n + 1, lambdas =>
    exprRule ⟨exprAt n, operandAt n, initializerAt n, statementAt n, classBodyAt n⟩ lambdas

/-- Operands nested at most `n` deep. -/
def operandAt : Nat → Bool → Parser Expr
  | 0, _ => failure
  | n + 1, lambdas =>
    operandRule ⟨exprAt n, operandAt n, initializerAt n, statementAt n, classBodyAt n⟩ lambdas

/-- Initial values nested at most `n` deep. -/
def initializerAt : Nat → Parser Expr
  | 0 => failure
  | n + 1 =>
    initializerRule ⟨exprAt n, operandAt n, initializerAt n, statementAt n, classBodyAt n⟩

/-- Statements nested at most `n` deep. -/
def statementAt : Nat → Parser Stmt
  | 0 => failure
  | n + 1 =>
    statementRule ⟨exprAt n, operandAt n, initializerAt n, statementAt n, classBodyAt n⟩
      (typeAt n)

/-- Type declarations nested at most `n` deep. -/
def typeAt : Nat → Parser TypeTree
  | 0 => failure
  | n + 1 =>
    typeDeclaration ⟨exprAt n, operandAt n, initializerAt n, statementAt n, classBodyAt n⟩
      (typeAt n)

/-- Class bodies nested at most `n` deep. -/
def classBodyAt : Nat → Parser (List Member)
  | 0 => failure
  | n + 1 => do
    symbol "\x7b"
    let ms ← members
      ⟨exprAt n, operandAt n, initializerAt n, statementAt n, classBodyAt n⟩ (typeAt n)
    symbol "\x7d"
    return ms

end

/-- The grammar with constructs nested at most `n` deep. -/
def grammar (n : Nat) : Grammar where
  expr := exprAt n
  operand := operandAt n
  initializer := initializerAt n
  statement := statementAt n
  classBody := classBodyAt n

/-! ## Files -/

/-- A package declaration; the name is kept as it is written. -/
def packageDeclaration : Parser TopLevel := do
  let _ ← annotations
  word "package"
  let (_, name) ← withText dottedName
  semicolon
  return .package name

/-- An import declaration; the name is kept as it is written. -/
def importDeclaration : Parser TopLevel := do
  word "import"
  let isStatic ← word? "static"
  let (_, name) ← withText dottedName
  let isAsterisk := (← option do
    symbol "."
    symbol "*").isSome
  semicolon
  return .imported ⟨name, isStatic, isAsterisk⟩

/-- A module declaration. -/
def moduleDeclaration : Parser TopLevel := do
  let _ ← annotations
  let _ ← option (word "open")
  word "module"
  let _ ← dottedName
  skipBraces
  return .other

/-- A declaration or statement at the top of a file. -/
def topLevel (n : Nat) : Parser TopLevel :=
  packageDeclaration <|>
  importDeclaration <|>
  (do return .type (← typeAt n)) <|>
  moduleDeclaration <|>
  (do
    let line := ((← peek?).map Token.line).getD 0
    let mods ← modifiers
    let _ ← method (grammar n) mods line
    return .other) <|>
  (do
    let _ ← statementAt n
    return .other)

/-- The nesting depth that a text of `n` tokens cannot exceed. -/
def depthFor (n : Nat) : Nat := 4 * (n + 1)

end Parser

/-- **The syntax tree of a source file**, or `none` when the text is not Java. -/
def parse? (source : String) : Option UnitTree :=
  match tokenize source with
  | none => none
  | some ts =>
    match (Parser.many (Parser.topLevel (Parser.depthFor ts.length))).run ts with
    | some (items, []) => some ⟨items⟩
    | _ => none

end JavaCallGraph.Syntax

import JavaCallGraph.Syntax.Parser.Expressions

/-!
# Parsing statements

A statement that begins with a type and a name declares variables; `declarationAhead` looks for that
before anything is read as an expression.  The words `yield`, `record`, `sealed` and the like are
keywords only where they begin the construct they are named for.

`localType` reads the type declarations inside bodies; it is an argument here because types in turn
contain statements.
-/

set_option autoImplicit false

namespace JavaCallGraph.Syntax.Parser

variable (g : Grammar)

/-! ## Variables -/

/-- One variable of a declaration with the given base type. -/
def declarator (base : TypeRef) : Parser Declarator := do
  let name ← identifier
  let t := base.withDimensions (← dimensions)
  if ← symbol? "=" then return .mk name t (some (← g.initializer))
  else return .mk name t none

/-- The variables of a declaration, with their common type in front. -/
def declarators : Parser (List Declarator) := do
  let base ← type
  sepBy1 (declarator g base) comma

/-- Whether a type and a name come next, followed by what may follow the name of a variable. -/
def declarationAhead : Parser Bool := ahead do
  let _ ← type
  let _ ← identifier
  let _ ← tokenIf fun t =>
    t.isSymbol "=" || t.isSymbol "," || t.isSymbol ";" || t.isSymbol ":" || t.isSymbol "["

/-- A declaration of local variables, without the semicolon. -/
def localDeclaration : Parser Stmt := do
  let _ ← modifiers
  if ← declarationAhead then return .declare (← declarators g)
  else failure

/-- Ends a simple statement. -/
def semicolon : Parser Unit := symbol ";"

/-! ## Simple statements -/

/-- A statement that begins with a keyword and evaluates at most one expression. -/
def keywordStatement (keyword : String) : Parser Stmt := do
  word keyword
  let e ← option (g.expr true)
  semicolon
  return .evaluate e.toList

/-- A `yield` statement; at the beginning of a statement the word is never an identifier. -/
def yieldStatement : Parser Stmt := do
  word "yield"
  let e ← g.expr true
  semicolon
  return .evaluate [e]

/-- A jump to a label, which evaluates nothing. -/
def jumpStatement (keyword : String) : Parser Stmt := do
  word keyword
  let _ ← option identifier
  semicolon
  return .evaluate []

/-- An `assert` statement. -/
def assertStatement : Parser Stmt := do
  word "assert"
  let e ← g.expr true
  let detail ← option do
    symbol ":"
    g.expr true
  semicolon
  return .evaluate (e :: detail.toList)

/-- An expression statement; after a `switch` the semicolon may be missing. -/
def expressionStatement : Parser Stmt := do
  let e ← g.expr true
  match e with
  | .switch _ _ => let _ ← symbol? ";"
  | _ => semicolon
  return .evaluate [e]

/-! ## Compound statements -/

/-- An `if` statement. -/
def ifStatement : Parser Stmt := do
  word "if"
  let condition ← parenthesized g
  let positive ← g.statement
  let negative ← option do
    word "else"
    g.statement
  return .ifElse condition positive negative

/-- A `while` statement. -/
def whileStatement : Parser Stmt := do
  word "while"
  let condition ← parenthesized g
  return .whileLoop condition (← g.statement)

/-- A `do` statement. -/
def doStatement : Parser Stmt := do
  word "do"
  let body ← g.statement
  word "while"
  let condition ← parenthesized g
  semicolon
  return .doWhile body condition

/-- A `for` statement over the elements of a collection.  Dimensions behind the name of its variable
do not count. -/
def forEachStatement : Parser Stmt := do
  word "for"
  symbol "("
  let _ ← modifiers
  let t ← type
  let name ← identifier
  let _ ← dimensions
  symbol ":"
  let iterable ← g.expr true
  symbol ")"
  return .forEach t name iterable (← g.statement)

/-- A `for` statement with initialization, condition and update. -/
def forStatement : Parser Stmt := do
  word "for"
  symbol "("
  let init ← localDeclaration g <|> (do return .evaluate (← sepBy (g.expr true) comma))
  semicolon
  let condition ← option (g.expr true)
  semicolon
  let update ← sepBy (g.expr true) comma
  symbol ")"
  return .forLoop init condition.toList update (← g.statement)

/-- A `synchronized` statement. -/
def synchronizedStatement : Parser Stmt := do
  word "synchronized"
  let lock ← parenthesized g
  return .synchronized lock (← block g)

/-- A labeled statement. -/
def labeledStatement : Parser Stmt := do
  let _ ← identifier
  symbol ":"
  return .labeled (← g.statement)

/-! ## Exceptions -/

/-- A `catch` clause; of several alternatives the first type counts. -/
def catchClause : Parser Handler := do
  word "catch"
  symbol "("
  let _ ← modifiers
  let ts ← sepBy1 type (symbol "|")
  let name ← identifier
  symbol ")"
  return .catchClause (ts.headD .void) name (← block g)

/-- A `finally` clause. -/
def finallyClause : Parser Handler := do
  word "finally"
  return .finallyClause (← block g)

/-- A resource of a `try` statement. -/
def resource : Parser Resource :=
  (do
    let _ ← modifiers
    if ← declarationAhead then
      let t ← type
      let name ← identifier
      let _ ← dimensions
      symbol "="
      return .declared t name (← g.expr true)
    else failure) <|>
  (do return .existing (← g.expr true))

/-- A `try` statement. -/
def tryStatement : Parser Stmt := do
  word "try"
  let resources ← option do
    symbol "("
    let rs ← sepBy1 (resource g) semicolon
    let _ ← symbol? ";"
    symbol ")"
    return rs
  let body ← block g
  let handlers ← many (catchClause g <|> finallyClause g)
  match resources with
  | none => return .tryPlain body handlers
  | some rs => return .tryWith rs body handlers

/-! ## Statements -/

/-- A type declared inside a body. -/
def localTypeStatement (localType : Parser TypeTree) : Parser Stmt := do
  let t ← localType
  match t.header.kind with
  | .annotationType => return .localAnnotationType t
  | _ => return .localType t

/-- **A statement.** -/
def statementRule (localType : Parser TypeTree) : Parser Stmt :=
  (do
    semicolon
    return .evaluate []) <|>
  (do return .block (← block g)) <|>
  ifStatement g <|>
  whileStatement g <|>
  doStatement g <|>
  forEachStatement g <|>
  forStatement g <|>
  tryStatement g <|>
  synchronizedStatement g <|>
  keywordStatement g "return" <|>
  keywordStatement g "throw" <|>
  assertStatement g <|>
  jumpStatement "break" <|>
  jumpStatement "continue" <|>
  yieldStatement g <|>
  localTypeStatement localType <|>
  (do
    let s ← localDeclaration g
    semicolon
    return s) <|>
  labeledStatement g <|>
  expressionStatement g

end JavaCallGraph.Syntax.Parser

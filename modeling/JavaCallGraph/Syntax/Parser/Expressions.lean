import JavaCallGraph.Syntax.Parser.Types

/-!
# Parsing expressions

The grammar of expressions, statements and types is mutually recursive.  Here each rule is written
once, as a parser over a `Grammar`: the parsers to use for what is nested inside.  The module
`Syntax.Parser` closes the circle.

Three places need more than the next token.

* **Casts.**  `(T) e` is a cast when a type fits between the parentheses and an operand follows; a
  reference type in parentheses before `+` or `-` is an operand of that operator.
* **Lambdas.**  A parenthesis whose partner is followed by `->` begins a lambda.  In the label of a
  `switch` the arrow ends the label, so there the flag `lambdas` is off.
* **Types as operands.**  `int[].class` and `List<String>::new` begin with a type that is no
  expression.

Binary operators are read as a flat sequence and grouped by `Pending.fold`.
-/

set_option autoImplicit false

namespace JavaCallGraph.Syntax

/-- The parsers for nested constructs. -/
structure Grammar where
  /-- An expression; the flag says whether it may be a lambda. -/
  expr : Bool → Parser Expr
  /-- An operand of a binary operator. -/
  operand : Bool → Parser Expr
  /-- The initial value of a variable: an expression or elements in braces. -/
  initializer : Parser Expr
  statement : Parser Stmt
  /-- The members of a class, in braces. -/
  classBody : Parser (List Member)

namespace Parser

/-! ## Binary operators -/

/-- How tightly a binary operator binds. -/
def precedence : BinaryOp → Nat
  | .or => 1
  | .and => 2
  | .bitOr => 3
  | .bitXor => 4
  | .bitAnd => 5
  | .eq | .ne => 6
  | .lt | .gt | .le | .ge => 7
  | .shl | .shr | .ushr => 8
  | .add | .sub => 9
  | .mul | .div | .rem => 10

/-- How tightly a type test binds. -/
def testPrecedence : Nat := 7

/-- The operators that do not begin with `>`. -/
def plainOperators : List BinaryOp :=
  [.add, .sub, .mul, .div, .rem, .bitAnd, .bitOr, .bitXor, .shl, .and, .or, .eq, .ne, .lt, .le]

/-- The operators that assign, apart from those that begin with `>`. -/
def plainAssignments : List String :=
  ["=", "+=", "-=", "*=", "/=", "&=", "|=", "^=", "%=", "<<="]

/-- One to three adjacent `>` and possibly an adjacent `=`; yields their joint text. -/
def angleOperator : Parser String := do
  symbol ">"
  let more ← manyUpTo (tokenIf fun t => t.isSymbol ">" && t.adjoins) 2
  let equals ← option (tokenIf fun t => t.isSymbol "=" && t.adjoins)
  return ">" ++ String.join (more.map Token.text) ++ (equals.map Token.text).getD ""

/-- A binary operator. -/
def binaryOperator : Parser BinaryOp :=
  (do
    let t ← tokenIf (·.kind == .symbol)
    match plainOperators.find? fun o => o.symbol == t.text with
    | some o => return o
    | none => failure) <|>
  (do
    match ← angleOperator with
    | ">" => return .gt
    | ">=" => return .ge
    | ">>" => return .shr
    | ">>>" => return .ushr
    | _ => failure)

/-- An assignment operator. -/
def assignmentOperator : Parser Unit :=
  discard (tokenIf fun t => t.kind == .symbol && plainAssignments.contains t.text) <|>
  (do
    match ← angleOperator with
    | ">>=" => return ()
    | ">>>=" => return ()
    | _ => failure)

end Parser

/-- A left operand that waits for the right operand of its operator. -/
structure Pending where
  left : Expr
  op : BinaryOp

/-- Completes the pending operators that bind at least as tightly as `level`. -/
def Pending.fold (level : Nat) : List Pending → Expr → List Pending × Expr
  | [], e => ([], e)
  | p :: ps, e =>
    if level ≤ Parser.precedence p.op then Pending.fold level ps (.binary p.op p.left e)
    else (p :: ps, e)

/-- What may follow an operand: an operator with the next operand, or a type test. -/
inductive Continuation where
  | operator (op : BinaryOp) (operand : Expr)
  | test (type : TypeRef) (binding : Option String)

/-- Adds a continuation to a partial expression: the pending operators and the last operand. -/
def Continuation.apply (s : List Pending × Expr) : Continuation → List Pending × Expr
  | operator op operand =>
    let (ps, e) := Pending.fold (Parser.precedence op) s.1 s.2
    (⟨e, op⟩ :: ps, operand)
  | test type binding =>
    let (ps, e) := Pending.fold Parser.testPrecedence s.1 s.2
    (ps, .instanceOf e type binding)

/-- The expression that an operand and its continuations make. -/
def Continuation.assemble (first : Expr) (rest : List Continuation) : Expr :=
  let (ps, e) := rest.foldl Continuation.apply ([], first)
  (Pending.fold 0 ps e).2

namespace Parser

variable (g : Grammar)

/-! ## Nested expressions -/

/-- Arguments in parentheses. -/
def arguments : Parser (List Expr) := do
  symbol "("
  let args ← sepBy (g.expr true) comma
  symbol ")"
  return args

/-- An expression in parentheses. -/
def parenthesized : Parser Expr := do
  symbol "("
  let e ← g.expr true
  symbol ")"
  return e

/-- Elements in braces; a comma may follow the last one. -/
def arrayInitializer : Parser Expr := do
  symbol "\x7b"
  let es ← sepBy g.initializer comma
  let _ ← symbol? ","
  symbol "\x7d"
  return .arrayInit es

/-- The initial value of a variable. -/
def initializerRule : Parser Expr := arrayInitializer g <|> g.expr true

/-- Statements in braces. -/
def block : Parser (List Stmt) := do
  symbol "\x7b"
  let body ← many g.statement
  symbol "\x7d"
  return body

/-! ## Lambdas -/

/-- The token after the matching parenthesis is an arrow. -/
def arrowAfterParens : Parser Bool := ahead do
  skipParens
  symbol "->"

/-- The parameters of a lambda.  A parameter declared as `var` has no type of its own. -/
def lambdaParameters : Parser (List LambdaParam) :=
  (do return [⟨← identifier, none⟩]) <|>
  (do
    symbol "("
    let ps ← sepBy1 (do return (⟨← identifier, none⟩ : LambdaParam)) comma
    symbol ")"
    return ps) <|>
  (do
    let ps ← formalParameters
    return ps.map fun p => ⟨p.name, if p.type.isInferred then none else some p.type⟩)

/-- A lambda. -/
def lambda : Parser Expr := do
  let ps ← lambdaParameters
  symbol "->"
  if ← nextIs (·.isSymbol "\x7b") then return .lambdaBlock ps (← block g)
  else return .lambda ps (← g.expr true)

/-- Whether a lambda begins here. -/
def lambdaAhead : Parser Bool := do
  if ← nextIs (·.isSymbol "(") then arrowAfterParens
  else ahead do
    let _ ← identifier
    symbol "->"

/-! ## Operands -/

/-- A literal. -/
def literal : Parser Expr := do
  let t ← token
  match t.kind, t.text with
  | .literal l, _ => return .literal l
  | .word, "true" => return .literal .boolean
  | .word, "false" => return .literal .boolean
  | .word, "null" => return .literal .null
  | _, _ => failure

/-- The expressions inside a string. -/
def embedded : Parser (List Expr) := do
  let _ ← tokenIf (·.kind == .piece true false)
  let es ← sepBy1 (g.expr true) (discard (tokenIf (·.kind == .piece false false)))
  let _ ← tokenIf (·.kind == .piece false true)
  return es

/-- What is behind `new`: the created type, then arguments and possibly a class body, or the sizes
and elements of an array. -/
def creation (outer : Option Expr) : Parser Expr := do
  word "new"
  let _ ← annotations
  let _ ← option skipTypeArguments
  let t ← elementType
  if ← nextIs (·.isSymbol "(") then
    let args ← arguments g
    if ← nextIs (·.isSymbol "\x7b") then return .anonymous outer t args (← g.classBody)
    else return .new outer t args
  else
    let sizes ← many do
      let _ ← annotations
      symbol "["
      let e ← g.expr true
      symbol "]"
      return e
    let further ← dimensions
    let init ← option (arrayInitializer g)
    return .newArray (t.withDimensions (max 1 (sizes.length + further))) sizes init

/-- A class literal, or a reference to a method or constructor of a type that is not a plain name. -/
def typeOperand : Parser Expr := do
  let before ← remaining
  let t ← type
  let text := slice before (← remaining)
  if ← symbol? "." then
    word "class"
    return .classLiteral t
  else
    if text.any (fun c => c == '<' || c == '[') then
      symbol "::"
      let _ ← option skipTypeArguments
      let _ ← tokenIf fun t => isIdentifier t || t.isWord "new"
      return .methodReference none
    else failure

/-- A `switch`, as an expression or as a statement.  The arguments are parsers for what is inside the
braces. -/
def switchWith (items : Parser (List Stmt)) : Parser Expr := do
  word "switch"
  let subject ← parenthesized g
  symbol "\x7b"
  let body ← items
  symbol "\x7d"
  return .switch subject body

/-! ## Switch labels -/

/-- A component of a record pattern, where `nested` reads another record pattern. -/
def patternComponent (nested : Parser Unit) : Parser Unit :=
  nested <|>
  (do
    let _ ← modifiers
    let _ ← type
    discard identifier) <|>
  word "_"

/-- A record pattern: a type with component patterns.  The flag says whether there may be none; in a
`switch` label a name with empty parentheses is a method call. -/
def recordPattern (mayBeEmpty : Bool) : Nat → Parser Unit
  | 0 => failure
  | n + 1 => do
    let _ ← namedType anyTypeArgument
    symbol "("
    let components ← sepBy (patternComponent (recordPattern mayBeEmpty n)) comma
    symbol ")"
    if components.isEmpty && !mayBeEmpty then failure

/-- A pattern of a `switch` label, which holds no calls. -/
def pattern : Parser Unit :=
  (do recordPattern false (← remaining).length) <|>
  (do
    let _ ← modifiers
    let _ ← type
    discard identifier)

/-- One alternative of a `case`: a pattern, `default`, or a constant. -/
def caseTest : Parser (List Expr) :=
  (do
    pattern
    if ← nextIs fun t =>
        t.isSymbol "," || t.isSymbol ":" || t.isSymbol "->" || t.isWord "when" || t.isSymbol "&&" then
      return []
    else failure) <|>
  (do
    word "default"
    return []) <|>
  (do return [← g.expr false])

/-- A label with the expressions that it evaluates. -/
def switchLabel : Parser Stmt := do
  if ← word? "default" then
    return .evaluate []
  else
    word "case"
    let tests ← sepBy1 (caseTest g) comma
    let guard ← option do
      word "when"
      g.expr false
    return .evaluate (tests.flatten ++ guard.toList)

/-- What is inside the braces of a `switch`: labels and statements. -/
def switchItems : Parser (List Stmt) :=
  many ((do
      let label ← switchLabel g
      symbol ":" <|> symbol "->"
      return label) <|> g.statement)

/-! ## Chains -/

/-- The first link of a chain of accesses, on the given line. -/
def primary (line : Nat) : Parser Expr :=
  literal <|>
  (do return .text (← embedded g)) <|>
  typeOperand <|>
  (do
    let name ← identifier
    if ← nextIs (·.isSymbol "(") then return .call line none name (← arguments g)
    else return .name name) <|>
  (do
    word "this"
    return .this) <|>
  (do
    word "super"
    return .super) <|>
  (do return .parens (← parenthesized g)) <|>
  creation g none <|>
  switchWith g (switchItems g)

/-- A field access or a method call on `e`. -/
def memberAccess (line : Nat) (e : Expr) : Parser Expr := do
  let _ ← option skipTypeArguments
  let name ← identifier
  if ← nextIs (·.isSymbol "(") then return .call line (some e) name (← arguments g)
  else return .field e name

/-- The next link of a chain: what follows the operand `e`. -/
def link (line : Nat) (e : Expr) : Parser Expr :=
  (do
    symbol "."
    (memberAccess g line e <|>
      (do
        word "this"
        return .field e "this") <|>
      (do
        word "super"
        if ← nextIs (·.isSymbol "::") then return e
        else
          symbol "."
          memberAccess g line e) <|>
      creation g (some e) <|>
      (do
        let _ ← tokenIf fun t => t.kind == .literal .string
        return .template e []) <|>
      (do return .template e (← embedded g)))) <|>
  (do
    symbol "["
    let i ← g.expr true
    symbol "]"
    return .index e i) <|>
  (do
    symbol "::"
    let _ ← option skipTypeArguments
    let _ ← tokenIf fun t => isIdentifier t || t.isWord "new"
    return .methodReference (some e))

/-- The further links of a chain, at most `n`. -/
def links (line : Nat) : Nat → Expr → Parser Expr
  | 0, e => return e
  | n + 1, e => do
    match ← option (link g line e) with
    | none => return e
    | some e => links line n e

/-- The operators `++` and `--`. -/
def stepOperator : Parser Unit := symbol "++" <|> symbol "--"

/-- The operation of an update expression with the given text: an increment when two signs `+` stand
next to each other anywhere in it. -/
def stepOf (text : String) : UnaryOp :=
  if (Text.cut (· != '+') text.toList).any fun run => 2 ≤ run.length then .increment else .decrement

/-- Names, field accesses and array elements can be assigned to. -/
def isAssignable : Expr → Bool
  | .name _ => true
  | .field _ _ => true
  | .index _ _ => true
  | _ => false

/-- A chain of accesses, with what may directly follow it: an assignment or a step operator. -/
def chain : Parser Expr := do
  let start ← remaining
  let line := (start.head?.map Token.line).getD 0
  let first ← primary g line
  let e ← links g line start.length first
  if isAssignable e && (← ahead assignmentOperator) then
    assignmentOperator
    return .assign e (← g.expr true)
  else if ← nextIs fun t => t.isSymbol "++" || t.isSymbol "--" then
    let steps ← many stepOperator
    let op := stepOf (slice start (← remaining))
    return steps.foldl (fun e _ => .unary op e) e
  else return e

/-- The type and the operand of a cast may be set next to each other: an operand must follow, and one
that begins with a sign only after a primitive type. -/
def operandFollows (t : TypeRef) (next : Token) : Bool :=
  match t with
  | .primitive _ => !next.isSymbol ")" && !next.isSymbol "]" && !next.isSymbol ","
  | _ =>
    match next.kind with
    | .word => !next.isWord "instanceof"
    | .literal _ => true
    | .piece first _ => first
    | .symbol => next.isSymbol "(" || next.isSymbol "!" || next.isSymbol "~"

/-- The parenthesised type of a cast; of several types joined by `&` the first counts. -/
def castType : Parser TypeRef := do
  symbol "("
  let ts ← sepBy1 type (symbol "&")
  symbol ")"
  match ts, ← peek? with
  | t :: _, some next => if operandFollows t next then return t else failure
  | _, _ => failure

/-- The operators in front of an operand. -/
def signOperators : List UnaryOp := [.plus, .neg, .not, .bitNot]

/-- An operand of a binary operator: a chain, a cast, or either with operators in front. -/
def operandRule (lambdas : Bool) : Parser Expr := do
  let start ← remaining
  match start with
  | [] => failure
  | t :: _ =>
    match signOperators.find? fun o => t.isSymbol o.symbol with
    | some op =>
      let _ ← token
      return .unary op (← g.operand lambdas)
    | none =>
      if t.isSymbol "++" || t.isSymbol "--" then
        let _ ← token
        let e ← g.operand lambdas
        return .unary (stepOf (slice start (← remaining))) e
      else
        match ← option castType with
        | some t =>
          if (← lambdaAhead) && lambdas then return .cast t (← lambda g)
          else return .cast t (← g.operand lambdas)
        | none => chain g

/-! ## Expressions -/

/-- A type test behind an operand. -/
def typeTest : Parser Continuation := do
  word "instanceof"
  let _ ← modifiers
  (do
    recordPattern true (← remaining).length
    return .test .void none) <|>
  (do
    let t ← type
    return .test t (← option identifier))

/-- What may follow an operand. -/
def continuation (lambdas : Bool) : Parser Continuation :=
  typeTest <|>
  (do
    let op ← binaryOperator
    return .operator op (← g.operand lambdas))

/-- **An expression.** -/
def exprRule (lambdas : Bool) : Parser Expr := do
  if lambdas && (← lambdaAhead) then lambda g
  else
    let first ← g.operand lambdas
    let rest ← many (continuation g lambdas)
    let e := Continuation.assemble first rest
    if ← symbol? "?" then
      let positive ← g.expr true
      symbol ":"
      return .conditional e positive (← g.expr lambdas)
    else return e

end Parser

end JavaCallGraph.Syntax

import JavaCallGraph.Typing.Context

/-!
# Certain resolution

The types and calls that follow from declarations alone.  Whatever needs a guess has no type here:
`var`, implicit lambda parameters, members of the types around the own one, overloads between which
the argument types do not decide.

* `Codebase.certainType?` — the type of an expression;
* `Codebase.resolveCall?` — the declaration that a call refers to.

A call is resolved by its *signature*.  The candidates are the applicable methods of the receiver and
of its supertypes, of which only the nearest counts for each list of parameter types.  A single
candidate is the answer, and so is the only one of several whose parameter types are exactly the
argument types.
-/

set_option autoImplicit false

namespace JavaCallGraph

/-- A method that a call may refer to. -/
structure Candidate where
  declaring : TypeInfo
  params : List TypeInfo
  /-- Its declaration, when that is in the analyzed source. -/
  declaration : Option MethodRef
  returnType : Option TypeInfo

/-- The canonical names of the parameter types. -/
def Candidate.signature (k : Candidate) : List String := k.params.map TypeInfo.name

/-- What a call refers to. -/
structure ResolvedCall where
  declaring : TypeInfo
  name : String
  params : List String
  declaration : Option MethodRef
  returnType : Option TypeInfo

namespace Codebase

variable (c : Codebase)

/-! ## Candidates -/

/-- The declared result of a method, unless it is `void`. -/
def returnType? (m : MethodRef) : Option TypeInfo :=
  if (c.method m).returnType.isVoid then none
  else some (c.qualify (c.methodScope m) (c.method m).returnType)

/-- The result of a described method, unless it is `void`. -/
def compiledReturnType? (m : CompiledMethod) : Option TypeInfo :=
  if m.returns == "void" then none else some (c.typeInfo m.returns)

/-- The parameter types of a described method. -/
def compiledParamTypes (m : CompiledMethod) : List TypeInfo := m.params.map c.typeInfo

/-- The methods with the given name and number of parameters that a type itself declares.  Described
methods with a variable number of arguments are left out. -/
def declaredCandidates (owner : TypeInfo) (name : String) (arity : Nat) : List Candidate :=
  match owner with
  | .source id _ =>
    ((c.methodsOf id).filter fun m =>
      (c.method m).name == name && (c.method m).params.length == arity).map fun m =>
        ⟨owner, c.paramTypes m, some m, c.returnType? m⟩
  | .compiled t =>
    ((t.methodsNamed name).filter fun m => m.params.length == arity && !m.varargs).map fun m =>
      ⟨owner, c.compiledParamTypes m, none, c.compiledReturnType? m⟩
  | _ => []

/-- The applicable methods of a type and its supertypes, nearest first. -/
def applicableCandidates (receiver : TypeInfo) (name : String) (args : List TypeInfo) :
    List Candidate :=
  ((c.withAncestors receiver).flatMap fun t => c.declaredCandidates t name args.length).filter
    fun k => c.acceptsAll k.params args

/-- The first candidate for each signature. -/
def nearestBySignature : List (List String) → List Candidate → List Candidate
  | _, [] => []
  | seen, k :: ks =>
    if seen.contains k.signature then nearestBySignature seen ks
    else k :: nearestBySignature (k.signature :: seen) ks

/-- The candidate that the argument types decide for. -/
def choose? (args : List TypeInfo) : List Candidate → Option Candidate
  | [] => none
  | [k] => some k
  | ks =>
    match ks.filter fun k => (k.params.zip args).all fun (p, a) => p.name == a.name with
    | [k] => some k
    | _ => none

/-- The declaration that a call with the given receiver and argument types refers to. -/
def selectCall? (receiver : TypeInfo) (name : String) (args : List TypeInfo) :
    Option ResolvedCall :=
  (choose? args (nearestBySignature [] (c.applicableCandidates receiver name args))).map fun k =>
    ⟨k.declaring, name, k.signature, k.declaration, k.returnType⟩

/-! ## Names -/

/-- The type of a name that is a variable or a field of the own type. -/
def certainNameType? (ctx : ExprContext) (name : String) : Option TypeInfo :=
  match ctx.binding? name with
  | some (.local v) => if v.type.isInferred then none else some (c.qualify ctx.typeScope v.type)
  | some (.lambdaParam p) => p.type.map (c.qualify ctx.typeScope)
  | some (.param p) => some (c.paramType ctx.typeScope p)
  | none =>
    ((c.decl ctx.type).field? name).map fun f => c.qualify (c.typeScope ctx.type) f.type

/-- The name is neither a variable nor a field of the own type, so as a receiver it names a type. -/
def isTypeName (ctx : ExprContext) (name : String) : Bool :=
  (ctx.binding? name).isNone && ((c.decl ctx.type).field? name).isNone

/-! ## Expressions -/

/-- The part that an expression plays: a receiver may also be `super` or the name of a type. -/
inductive Role where
  | value
  | receiver
  deriving DecidableEq

mutual

/-- The type of an expression in the given role. -/
def certainTypeAs? (ctx : ExprContext) (role : Role) : Expr → Option TypeInfo
  | .literal l => c.literalType? l
  | .this => some (c.thisType ctx)
  | .super => if role = .receiver then c.superType? ctx else none
  | .name n =>
    if role = .receiver ∧ c.isTypeName ctx n then c.lookup? n ctx.type
    else c.certainNameType? ctx n
  | .new t _ => (c.qualify ctx.typeScope t).known?
  | .cast t _ => (c.qualify ctx.typeScope t).known?
  | .field receiver n =>
    ((certainTypeAs? ctx .receiver receiver).bind TypeInfo.known?).bind fun owner =>
      (c.fieldType? owner n).bind TypeInfo.known?
  | .call receiver n args =>
    (certainOwnerType? ctx receiver).bind fun owner =>
      (certainTypes? ctx args).bind fun args =>
        (c.selectCall? owner n args).bind fun r => r.returnType.bind TypeInfo.known?
  | _ => none

/-- The type under which a call is looked up.  Without a receiver, or with the receiver `this`, it is
the type of `this`, known or not; any other receiver must be of a known type. -/
def certainOwnerType? (ctx : ExprContext) : Option Expr → Option TypeInfo
  | none => some (c.thisType ctx)
  | some .this => some (c.thisType ctx)
  | some e => (certainTypeAs? ctx .receiver e).bind TypeInfo.known?

/-- The types of all arguments. -/
def certainTypes? (ctx : ExprContext) : List Expr → Option (List TypeInfo)
  | [] => some []
  | e :: es =>
    (certainTypeAs? ctx .value e).bind fun t => (certainTypes? ctx es).map (t :: ·)

end

/-- **The type of an expression** as far as declarations tell. -/
def certainType? (ctx : ExprContext) (e : Expr) : Option TypeInfo := c.certainTypeAs? ctx .value e

/-- The type under which a member of the receiver `e` is looked up; it is a known one. -/
def certainReceiverType? (ctx : ExprContext) (e : Expr) : Option TypeInfo :=
  (c.certainTypeAs? ctx .receiver e).bind TypeInfo.known?

/-- **The declaration that a call refers to** as far as declarations tell. -/
def resolveCall? (ctx : ExprContext) (call : MethodCall) : Option ResolvedCall :=
  (c.certainOwnerType? ctx call.receiver).bind fun owner =>
    (c.certainTypes? ctx call.args).bind fun args => c.selectCall? owner call.name args

end Codebase

end JavaCallGraph

import JavaCallGraph.Typing.Certain

/-!
# Inference

What is guessed about the expressions and calls that certain resolution leaves open.

* `Codebase.typeOf?` — the type of an expression: the certain one, else one found by its structure;
* `Codebase.inferCall?` — the callee of a call: its identity and the type it was found on.

A call is looked up by applicability: the first type among the receiver and its supertypes that
declares a method fitting the arguments.  Without a receiver the types around the own one are searched
too, and the statically imported ones last.  An overload described in the catalog is chosen by how
closely its parameters fit.

The type of a variable declared with `var` is that of its initial value.  This is the only step that
leaves the expression at hand, so the type is computed with a budget for such steps; a body cannot
take more of them than it declares variables without going in a circle.
-/

set_option autoImplicit false

namespace JavaCallGraph

/-- A guess at a callee. -/
structure InferredCall where
  id : MethodId
  declaring : TypeInfo

/-- A described method with the type that describes it. -/
structure CompiledCandidate where
  owner : CompiledType
  method : CompiledMethod
  deriving Inhabited

namespace Codebase

variable (c : Codebase)

/-! ## Applicability -/

/-- The type of an argument, if it has one. -/
abbrev Argument := Option TypeInfo

/-- A parameter accepts an argument; an argument without a type fits everywhere. -/
def fits (param : TypeInfo) : Argument → Bool
  | none => true
  | some arg => c.accepts param arg

/-- The arguments behind the fixed ones fit the last parameter `last`: as its elements, or, when
`whole` is set, as the array itself. -/
def fitsRest (whole : Bool) (last : Option TypeInfo) (arg : Argument) : Bool :=
  match arg, last with
  | none, _ => true
  | some _, none => false
  | some arg, some array =>
    (whole && c.accepts array arg) ||
      match array.component? with
      | some component => c.accepts component arg
      | none => false

/-- **A method with these parameters can be called with these arguments.** -/
def applicable (params : List TypeInfo) (varargs : Bool) (args : List Argument) : Bool :=
  if varargs then
    let fixed := params.length - 1
    fixed ≤ args.length &&
      ((params.take fixed).zip args).all (fun (p, a) => c.fits p a) &&
        (args.drop fixed).all (c.fitsRest (args.length == params.length) params.getLast?)
  else
    args.length == params.length && (params.zip args).all fun (p, a) => c.fits p a

/-- The applicable methods of that name that a type declares. -/
def sourceCandidates (id : TypeId) (name : String) (args : List Argument) : List MethodRef :=
  (c.methodsOf id).filter fun m =>
    (c.method m).name == name && c.applicable (c.paramTypes m) (c.method m).isVarargs args

/-- A described method can be called with these arguments. -/
def compiledApplicable (m : CompiledMethod) (args : List Argument) : Bool :=
  c.applicable (c.compiledParamTypes m) m.varargs args

/-- The type itself declares an applicable method of that name. -/
def declaresApplicable (t : TypeInfo) (name : String) (args : List Argument) : Bool :=
  match t with
  | .source id _ => !(c.sourceCandidates id name args).isEmpty
  | .compiled ct => (ct.methodsNamed name).any fun m => c.compiledApplicable m args
  | _ => false

/-! ## Described overloads -/

/-- The parameter that takes the argument at position `i` of `arity` arguments. -/
def paramAt? (params : List TypeInfo) (varargs : Bool) (i arity : Nat) : Option TypeInfo :=
  match params.getLast? with
  | none => none
  | some array =>
    let last := params.length - 1
    if varargs && last ≤ i && !(arity == params.length && i == last) then array.component?
    else params[i]?

/-- A type that is known to be an interface. -/
def isInterfaceType : TypeInfo → Bool
  | .source id _ => (c.decl id).isInterface
  | .compiled t => t.isInterface
  | _ => false

/-- How two parameter types compare for an argument that both accept: `lt` when the first fits more
closely. -/
def prefer (a b arg : TypeInfo) : Ordering :=
  if a.name == b.name then .eq
  else if a.name == arg.name then .lt
  else if b.name == arg.name then .gt
  else
    match a.primitive?, b.primitive?, arg.primitive? with
    | some p, some q, some _ =>
      if q.accepts p then .lt else if p.accepts q then .gt else .eq
    | some _, none, some _ => .lt
    | some _, none, none => .gt
    | none, some _, some _ => .gt
    | none, some _, none => .lt
    | _, _, _ =>
      match c.isInterfaceType a, c.isInterfaceType b with
      | false, true => .lt
      | true, false => .gt
      | _, _ =>
        if c.isAssignable b a.name then .lt
        else if c.isAssignable a b.name then .gt
        else .eq

/-- How the parameters of two methods compare at every argument that has a type. -/
def preferences (a b : CompiledMethod) (args : List Argument) : List Ordering :=
  args.zipIdx.filterMap fun (arg, i) =>
    match paramAt? (c.compiledParamTypes a) a.varargs i args.length,
      paramAt? (c.compiledParamTypes b) b.varargs i args.length, arg with
    | some p, some q, some arg => some (c.prefer p q arg)
    | _, _, _ => none

/-- The first method is strictly more specific: nowhere worse and somewhere better. -/
def moreSpecific (a b : CompiledMethod) (args : List Argument) : Bool :=
  let ps := c.preferences a b args
  ps.contains .lt && !ps.contains .gt

/-- The first candidate for each list of parameter types. -/
def distinctCompiled : List (List String) → List CompiledCandidate → List CompiledCandidate
  | _, [] => []
  | seen, k :: ks =>
    if seen.contains k.method.params then distinctCompiled seen ks
    else k :: distinctCompiled (k.method.params :: seen) ks

/-- The described methods of that name on a type and its supertypes. -/
def compiledCandidates (start : TypeInfo) (name : String) : List CompiledCandidate :=
  distinctCompiled [] <| (c.withAncestors start).flatMap fun t =>
    match t with
    | .compiled ct => (ct.methodsNamed name).map fun m => ⟨ct, m⟩
    | _ => []

/-- The candidates than which no other one is more specific. -/
def mostSpecific (ks : List CompiledCandidate) (args : List Argument) : List CompiledCandidate :=
  (ks.zipIdx.filter fun (k, i) =>
    ks.zipIdx.all fun (l, j) => i == j || !c.moreSpecific l.method k.method args).map (·.1)

/-- **The described overload that a call means.**  A single method of that name is taken as it is;
of several the applicable ones count, and of several of these the most specific one. -/
def selectCompiled? (start : TypeInfo) (name : String) (args : List Argument) :
    Option CompiledCandidate :=
  match c.compiledCandidates start name with
  | [] => none
  | [k] => some k
  | ks =>
    match ks.filter fun k => c.compiledApplicable k.method args with
    | [] => none
    | [k] => some k
    | ks =>
      if args.any Option.isNone then none
      else
        match c.mostSpecific ks args with
        | [k] => some k
        | _ => none

/-! ## Where a method is found -/

/-- The types that an unqualified name is searched in, in order: the type written at an anonymous
class, the own type and the types around it, each with its supertypes. -/
def unqualifiedScopes (ctx : ExprContext) : List TypeInfo :=
  ((ctx.anonymousBase?.map (c.qualify ctx.typeScope)).toList ++
    (c.enclosing ctx.type).map c.sourceType).flatMap c.withAncestors

/-- The type that an unqualified call is found on. -/
def lookupUnqualified? (ctx : ExprContext) (name : String) (args : List Argument) :
    Option TypeInfo :=
  ((c.unqualifiedScopes ctx).find? fun t => c.declaresApplicable t name args).or
    ((c.staticImportOwners ctx.type name).find? fun t => c.declaresApplicable t name args)

/-- The result of the first applicable method on a type or its supertypes.  The search ends at the
first described type, whether or not that has the method. -/
def resultOn? (name : String) (args : List Argument) : List TypeInfo → Option TypeInfo
  | [] => none
  | .source id _ :: ts =>
    match c.sourceCandidates id name args with
    | m :: _ => c.returnType? m
    | [] => resultOn? name args ts
  | .compiled ct :: _ =>
    (c.selectCompiled? (.compiled ct) name args).bind fun k => c.compiledReturnType? k.method
  | _ :: ts => resultOn? name args ts

/-! ## Operators -/

/-- The truth values, boxed or not. -/
def isBooleanType (t : TypeInfo) : Bool := t.name == "boolean" || t.name == "java.lang.Boolean"

/-- The type of an operation that is neither a comparison nor a concatenation with a literal. -/
def arithmeticType? (op : BinaryOp) (l r : TypeInfo) : Option TypeInfo :=
  if op.isBitwise && isBooleanType l && isBooleanType r then some (.primitive .boolean)
  else
    match Primitive.promote l.name (if op.isShift then l.name else r.name) with
    | some p => some (.primitive p)
    | none =>
      if op == .add && (l.name == stringName || r.name == stringName) then
        some (c.typeInfo stringName)
      else none

/-- The superclasses of `t` below the root class. -/
def superclassesBelowObject (t : TypeInfo) : List TypeInfo :=
  (c.superclasses t).takeWhile fun s => s.name != objectName

/-- The interfaces that two types have in common. -/
def sharedInterfaces (a b : TypeInfo) : List TypeInfo :=
  let others := c.ancestors b
  (c.ancestors a).filter fun t => c.isInterfaceType t && others.any fun o => o.name == t.name

/-- **The type of a conditional with two typed branches**: a branch that accepts the other one, the
promoted numeric type, the nearest common superclass, the only common interface, or the root class. -/
def joinTypes (a b : TypeInfo) : TypeInfo :=
  if c.accepts a b then a
  else if c.accepts b a then b
  else
    match Primitive.promote a.name b.name with
    | some p => .primitive p
    | none =>
      match (c.superclassesBelowObject a).find? fun s => c.isAssignable s b.name with
      | some s => s
      | none =>
        match c.sharedInterfaces a b with
        | [i] => i
        | _ => c.objectType

/-- The type of a conditional; a branch without a type does not count. -/
def conditionalType? : Option TypeInfo → Option TypeInfo → Option TypeInfo
  | some a, some b => some (c.joinTypes a b)
  | some a, none => some a
  | none, b => b

/-! ## Names -/

/-- The type of a name that is no variable: a field of the own type or of one around it, a type, or a
statically imported field. -/
def globalNameType? (ctx : ExprContext) (name : String) : Option TypeInfo :=
  ((c.enclosing ctx.type).findSome? fun t => c.fieldType? (c.sourceType t) name).or <|
    (c.lookup? name ctx.type).or <|
      (c.staticImportOwners ctx.type name).findSome? fun t => c.fieldType? t name

/-- The type of a name, where `typeOf` types the initial values of variables declared with `var`. -/
def nameType? (typeOf : Expr → Option TypeInfo) (ctx : ExprContext) (name : String) :
    Option TypeInfo :=
  match ctx.binding? name with
  | some (.local v) =>
    if v.type.isInferred then
      match v.init, v.iterable with
      | some init, _ => typeOf init
      | none, some iterable => (typeOf iterable).bind TypeInfo.component?
      | none, none => none
    else some (c.qualify ctx.typeScope v.type)
  | some (.lambdaParam p) => p.type.map (c.qualify ctx.typeScope)
  | some (.param p) => some (c.paramType ctx.typeScope p)
  | none => c.globalNameType? ctx name

/-! ## Expressions -/

mutual

/-- The type of an expression: the certain one, else that of its structure.  `typeOf` types the
initial values of variables. -/
def typeWith? (typeOf : Expr → Option TypeInfo) (ctx : ExprContext) (e : Expr) : Option TypeInfo :=
  (c.certainType? ctx e).or <|
    match e with
    | .literal l => c.literalType? l
    | .name n => c.nameType? typeOf ctx n
    | .field receiver n =>
      ((typeWith? typeOf ctx receiver).bind fun owner => c.fieldType? owner n).or <|
        (Expr.dottedName? (.field receiver n)).bind fun d => c.lookup? d ctx.type
    | .call receiver n args =>
      ((c.resolveCall? ctx ⟨receiver, n, args⟩).bind (·.returnType)).or <|
        let args := typesWith typeOf ctx args
        (ownerWith? typeOf ctx n args receiver).bind fun owner =>
          c.resultOn? n args (c.withAncestors owner)
    | .new t _ => some (c.qualify ctx.typeScope t)
    | .newArray t => some (c.qualify ctx.typeScope t)
    | .cast t _ => some (c.qualify ctx.typeScope t)
    | .index array => (typeWith? typeOf ctx array).bind TypeInfo.component?
    | .binary op l r =>
      if op.isBoolean then some (.primitive .boolean)
      else if op == .add && (l.isStringLiteral || r.isStringLiteral) then
        some (c.typeInfo stringName)
      else
        (typeWith? typeOf ctx l).bind fun lt =>
          (typeWith? typeOf ctx r).bind fun rt => c.arithmeticType? op lt rt
    | .unary .not _ => some (.primitive .boolean)
    | .unary _ operand => typeWith? typeOf ctx operand
    | .instanceOf _ => some (.primitive .boolean)
    | .conditional positive negative =>
      c.conditionalType? (typeWith? typeOf ctx positive) (typeWith? typeOf ctx negative)
    | .assign target _ => typeWith? typeOf ctx target
    | .this => some (c.thisType ctx)
    | .super => c.superType? ctx
    | .classLiteral _ => some (c.typeInfo className)
    | .lambda => none
    | .methodReference => none
    | .unsupported _ => none

/-- The types of arguments, as far as they have one. -/
def typesWith (typeOf : Expr → Option TypeInfo) (ctx : ExprContext) : List Expr → List Argument
  | [] => []
  | e :: es => typeWith? typeOf ctx e :: typesWith typeOf ctx es

/-- The type whose methods, or whose supertypes' methods, give the result of a call. -/
def ownerWith? (typeOf : Expr → Option TypeInfo) (ctx : ExprContext) (name : String)
    (args : List Argument) : Option Expr → Option TypeInfo
  | none => c.lookupUnqualified? ctx name args
  | some .super => c.superType? ctx
  | some e => (typeWith? typeOf ctx e).map c.erased

end

/-- The type of an expression, where at most `n` initial values of variables are typed inside each
other. -/
def typeWithin? (ctx : ExprContext) : Nat → Expr → Option TypeInfo
  | 0, e => c.typeWith? (fun _ => none) ctx e
  | n + 1, e => c.typeWith? (typeWithin? ctx n) ctx e

/-- **The type of an expression**, certain or inferred. -/
def typeOf? (ctx : ExprContext) (e : Expr) : Option TypeInfo :=
  c.typeWithin? ctx ctx.localCount e

/-! ## Calls -/

/-- The type that a call is found on: the first of the receiver and its supertypes that declares an
applicable method, else the receiver itself. -/
def inferredOwner? (ctx : ExprContext) (call : MethodCall) (args : List Argument) :
    Option TypeInfo :=
  let nearest (receiver : TypeInfo) : TypeInfo :=
    ((c.withAncestors receiver).find? fun t => c.declaresApplicable t call.name args).getD receiver
  match call.receiver with
  | none => c.lookupUnqualified? ctx call.name args
  | some .super => (c.superType? ctx).map nearest
  | some e => ((c.typeOf? ctx e).map c.erased).map nearest

/-- The identity of a call that is found on `owner`: that of a described overload or of the only
applicable declaration, else one made up from the argument types. -/
def identifyOn (owner : TypeInfo) (name : String) (args : List TypeInfo) : InferredCall :=
  let byArguments : InferredCall := ⟨⟨owner.name, name, args.map TypeInfo.name⟩, owner⟩
  match owner with
  | .compiled _ =>
    match c.selectCompiled? owner name (args.map some) with
    | some k => ⟨⟨k.owner.name, name, k.method.params⟩, .compiled k.owner⟩
    | none => byArguments
  | .source id _ =>
    match c.sourceCandidates id name (args.map some) with
    | [m] => ⟨c.methodId m, owner⟩
    | _ => byArguments
  | _ => byArguments

/-- **The inferred callee of a call.**  There is none when the receiver's name is excluded, when an
argument has no type, or when no type is found to look the method up on. -/
def inferCall? (excluded : List String) (ctx : ExprContext) (call : MethodCall) :
    Option InferredCall :=
  match call.receiverName? with
  | some n => if excluded.contains n then none else infer
  | none => infer
where
  /-- The inferred callee, whatever the receiver is called. -/
  infer : Option InferredCall :=
    (call.args.mapM (c.typeOf? ctx)).bind fun args =>
      (c.inferredOwner? ctx call (args.map some)).map fun owner => c.identifyOn owner call.name args

end Codebase

end JavaCallGraph

import JavaCallGraph.Codebase.Hierarchy

/-!
# Overridden declarations

A method is linked to the declarations above it that it can override: along the chain of superclasses
as long as these are declared in the analyzed source, and in every declared interface.  A declaration
above can be overridden when it has the same name and number of parameters and each of its parameters
accepts the parameter below it.

The links decide whether an identity, which may name the parameters as any of these declarations do,
means the method (`LinkedMethod.isCompatible`).
-/

set_option autoImplicit false

namespace JavaCallGraph

/-- A method with the declarations it can override. -/
structure LinkedMethod where
  current : MethodRef
  /-- On the superclasses, nearest first. -/
  fromExtend : List MethodRef
  /-- On the interfaces. -/
  fromImpl : List MethodRef
  deriving Repr

/-- The method and all the declarations it can override. -/
def LinkedMethod.all (l : LinkedMethod) : List MethodRef :=
  l.current :: (l.fromExtend ++ l.fromImpl)

namespace Codebase

variable (c : Codebase)

/-- The methods of `ancestor` that `m` can override. -/
def compatibleIn (ancestor : TypeId) (m : MethodRef) : List MethodRef :=
  let own := (c.paramTypes m).map c.erased
  (c.methodsOf ancestor).filter fun up =>
    (c.method up).name == (c.method m).name &&
      (c.method up).params.length == (c.method m).params.length &&
        c.acceptsAll (c.paramTypes up) own

/-- The declared superclasses up to the first that is not declared. -/
def declaredSuperclasses (id : TypeId) : List TypeId :=
  ((c.superclasses (c.sourceType id)).takeWhile fun t => t.sourceId?.isSome).filterMap
    TypeInfo.sourceId?

/-- The declared interfaces among all supertypes. -/
def declaredInterfaces (id : TypeId) : List TypeId :=
  ((c.ancestors (c.sourceType id)).filterMap TypeInfo.sourceId?).filter fun t =>
    (c.decl t).isInterface

/-- **The declarations that a method can override.** -/
def link (m : MethodRef) : LinkedMethod where
  current := m
  fromExtend := (c.declaredSuperclasses m.owner).flatMap fun t => c.compatibleIn t m
  fromImpl := (c.declaredInterfaces m.owner).flatMap fun t => c.compatibleIn t m

/-- Whether a value of the type named `expected` fits a declared parameter type. -/
def isTypeOf : TypeInfo → String → Bool
  | .typeVar _ _, _ => true
  | .primitive p, expected => p.name == expected
  | .array component, expected =>
    TypeInfo.name (.array component) == expected ||
      match componentName? expected with
      | some expected => isTypeOf component expected
      | none => false
  | t, expected =>
    t.name == expected ||
      match Primitive.ofName? expected with
      | some p => c.isAssignable t p.wrapper
      | none => c.isAssignable t expected

/-- **A linked method answers to an identity**: name and number of parameters agree, and at every
position the parameter of some linked declaration fits the named type. -/
def isCompatible (l : LinkedMethod) (id : MethodId) : Bool :=
  let linked := l.all.map c.paramTypes
  (c.method l.current).name == id.name &&
    (c.method l.current).params.length == id.params.length &&
      id.params.zipIdx.all fun (expected, i) =>
        linked.any fun params =>
          match params[i]? with
          | some p => c.isTypeOf p expected
          | none => false

end Codebase

end JavaCallGraph

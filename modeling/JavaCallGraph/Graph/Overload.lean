import JavaCallGraph.Graph.Link

/-!
# Choosing among overloads

Of several methods that answer to an identity the best one is taken.  Candidates are compared position
by position with the expected parameter types: a parameter of exactly that name comes first, then
types before type variables, then the smaller distance up the hierarchy; the first position with a
difference decides, and among equals the earlier candidate stays in front.

`findIn?` finds the method of one type that an identity means, `findDeclaration?` goes on to the
supertypes.
-/

set_option autoImplicit false

namespace JavaCallGraph

/-- How well a parameter fits an expected type, the better the smaller. -/
structure Fit where
  inexact : Bool
  isVariable : Bool
  /-- The steps up from the expected type; `none` when they lead nowhere. -/
  distance : Option Nat
  deriving DecidableEq, Repr

namespace Fit

/-- `false` comes before `true`. -/
def compareFlags : Bool → Bool → Ordering
  | false, true => .lt
  | true, false => .gt
  | _, _ => .eq

/-- An unreachable type comes last. -/
def compareDistances : Option Nat → Option Nat → Ordering
  | some a, some b => Ord.compare a b
  | some _, none => .lt
  | none, some _ => .gt
  | none, none => .eq

/-- The three criteria in their order. -/
def compare (a b : Fit) : Ordering :=
  (compareFlags a.inexact b.inexact).then
    ((compareFlags a.isVariable b.isVariable).then (compareDistances a.distance b.distance))

/-- The first position with a difference decides. -/
def compareAll : List Fit → List Fit → Ordering
  | a :: as, b :: bs => (a.compare b).then (compareAll as bs)
  | _, _ => .eq

end Fit

namespace Codebase

variable (c : Codebase)

/-- How well a parameter fits an expected type. -/
def fit (param expected : TypeInfo) : Fit :=
  ⟨param.name != expected.name, param.isVariable, c.distance? expected param.name⟩

/-- How well the parameters of a method fit the expected types. -/
def fitsOf (expected : List TypeInfo) (m : MethodRef) : List Fit :=
  (c.paramTypes m).zipWith c.fit expected

/-- Puts a candidate behind all that are not worse, in a list that has the best candidate last. -/
def rank {α : Type} (compare : α → α → Ordering) (x : α) : List α → List α
  | [] => [x]
  | y :: ys => if compare x y = .lt then y :: rank compare x ys else x :: y :: ys

/-- **The best of several methods** for the named parameter types. -/
def pickBest? (candidates : List MethodRef) (expected : List String) : Option MethodRef :=
  let types := expected.map c.typeInfo
  let keyed := candidates.map fun m => (m, c.fitsOf types m)
  let ranked := keyed.foldl (fun done k => rank (fun a b => Fit.compareAll a.2 b.2) k done) []
  ranked.getLast?.map (·.1)

/-- The methods of a type that answer to an identity. -/
def candidatesIn (t : TypeId) (id : MethodId) : List MethodRef :=
  (c.methodsOf t).filter fun m =>
    (c.method m).name == id.name && c.isCompatible (c.link m) id

/-- **The method of a type that an identity means.** -/
def findIn? (t : TypeId) (id : MethodId) : Option MethodRef :=
  match c.candidatesIn t id with
  | [] => none
  | [m] => some m
  | ms => c.pickBest? ms id.params

/-- **The declaration that an identity means**: on its own type, else on the first supertype that has
one. -/
def findDeclaration? (id : MethodId) : Option MethodRef :=
  (c.resolveType? id.declaringType).bind fun t =>
    (c.findIn? t id).or <|
      ((c.ancestors (c.sourceType t)).filterMap TypeInfo.sourceId?).findSome? fun a =>
        c.findIn? a id

end Codebase

end JavaCallGraph

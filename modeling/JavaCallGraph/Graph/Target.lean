import JavaCallGraph.Codebase.Index
import JavaCallGraph.Graph.MethodInfo
import JavaCallGraph.Graph.Overload
import JavaCallGraph.Typing.Inference

/-!
# One step of the graph

What a single method leads to, before anything is resolved recursively:

* `Index.resolveTarget?` — where one call lands;
* `Index.targets` — where the calls of a body land, each identity once, in the order of the body;
* `Index.overriding` — the methods that override a given one.

The choices that a user can make about a graph are collected in `GraphConfig`.
-/

set_option autoImplicit false

namespace JavaCallGraph

/-- Which subtypes are searched for overriding methods. -/
inductive SubtypeStrategy where
  | all
  /-- Only the subtype of a type that has exactly one. -/
  | singleOnly
  deriving DecidableEq, Repr

/-- The choices about a graph. -/
structure GraphConfig where
  /-- Whether a declared callee, given by its identity and the type it is declared on, is expanded. -/
  methodFilter : MethodId → TypeInfo → Bool
  /-- Whether an edge is kept. -/
  callingFilter : Calling → Bool
  subtypes : SubtypeStrategy
  /-- Whether calls are inferred that certain resolution leaves open. -/
  heuristics : Bool
  /-- The names of receivers whose calls are never inferred. -/
  excludedReceivers : List String

namespace GraphConfig

/-- The receivers that are excluded from the start. -/
def loggers : List String := ["log", "LOGGER", "logger"]

/-- Everything but the standard library is expanded, every edge is kept. -/
def default : GraphConfig where
  methodFilter _ t := !isStdlib t.name
  callingFilter _ := true
  subtypes := .all
  heuristics := true
  excludedReceivers := loggers

/-- The standard library is expanded too. -/
def withStdlib (g : GraphConfig) : GraphConfig := { g with methodFilter := fun _ _ => true }

end GraphConfig

/-- Where a call lands. -/
structure CallTarget where
  id : MethodId
  declaring : TypeInfo
  /-- The declaration, if it is in the analyzed source. -/
  declaration : Option MethodRef

/-- The first target for each identity. -/
def CallTarget.distinct : List String → List CallTarget → List CallTarget
  | _, [] => []
  | seen, t :: ts =>
    if seen.contains t.id.canonical then distinct seen ts
    else t :: distinct (t.id.canonical :: seen) ts

namespace Codebase

variable (c : Codebase)

/-- Where a resolved call lands. -/
def certainTarget (r : ResolvedCall) : CallTarget :=
  ⟨⟨r.declaring.name, r.name, r.params⟩, r.declaring, r.declaration⟩

/-- Where an inferred call lands: on the declaration that its identity means, if there is one. -/
def inferredTarget (k : InferredCall) : CallTarget :=
  match c.findDeclaration? k.id with
  | some m => ⟨c.methodId m, c.sourceType m.owner, some m⟩
  | none => ⟨k.id, k.declaring, none⟩

/-- **Where a call lands**: by certain resolution, else by inference. -/
def resolveTarget? (g : GraphConfig) (ctx : ExprContext) (call : MethodCall) :
    Option CallTarget :=
  match c.resolveCall? ctx call with
  | some r => some (certainTarget r)
  | none =>
    if g.heuristics then (c.inferCall? g.excludedReceivers ctx call).map c.inferredTarget
    else none

/-- The call sites of a method. -/
def callSites (m : MethodRef) : List CallSite :=
  match (c.method m).body with
  | some b => b.calls
  | none => []

/-- **Where the calls of a method land**, each identity once. -/
def targets (g : GraphConfig) (m : MethodRef) : List CallTarget :=
  CallTarget.distinct [] <| (c.callSites m).filterMap fun s =>
    c.resolveTarget? g (c.context m s.scope) s.call

end Codebase

namespace Index

variable (i : Index)

/-- The subtypes of a type that are searched for overriding methods. -/
def searchedSubtypes (g : GraphConfig) (t : TypeId) : List TypeId :=
  let subs := i.directSubtypes t
  match g.subtypes with
  | .all => subs
  | .singleOnly => if subs.length == 1 then subs else []

/-- Searches the types in `pending` and their subtypes for methods that answer to an identity.  A type
that has one hides the types below it; no type is searched twice. -/
def overridingFrom (g : GraphConfig) (id : MethodId) :
    Nat → List TypeId → List TypeId → List MethodRef
  | 0, _, _ => []
  | _ + 1, _, [] => []
  | n + 1, visited, t :: pending =>
    if visited.contains t then overridingFrom g id n visited pending
    else
      match i.code.findIn? t id with
      | some m => m :: overridingFrom g id n (t :: visited) pending
      | none =>
        overridingFrom g id n (t :: visited) (i.searchedSubtypes g t ++ pending)

/-- More than the number of types that a search can take up: every entry of the table of subtypes
once. -/
def subtypeBudget : Nat := i.subtypes.flatten.length + 1

/-- **The methods that override a method**, in the order of a walk down the hierarchy. -/
def overriding (g : GraphConfig) (m : MethodRef) : List MethodRef :=
  i.overridingFrom g (i.code.methodId m) i.subtypeBudget [m.owner] (i.searchedSubtypes g m.owner)

end Index

end JavaCallGraph

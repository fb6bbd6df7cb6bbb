import JavaCallGraph.Graph.Target

/-!
# Resolving a method

`build` resolves a method and everything reachable from it.  It carries a state through the whole
traversal:

* a `Cache` of finished nodes, from which a node never disappears and in which the first entry of a
  key is final;
* a `ResolutionContext` of the methods that are still being resolved; a call of one of these is cut.

What a single method leads to is decided in `JavaCallGraph.Graph.Target`; here is only the traversal.
A method is entered at most once at a time, so the depth of the traversal is bounded by the number of
methods, and the budget of `resolveMethod` is never used up.
-/

set_option autoImplicit false

namespace JavaCallGraph

/-! ## Cache -/

/-- Finished nodes by identity and by requested text, the last added first. -/
structure Cache where
  entries : List (String × MethodInfo)

namespace Cache

/-- No entries. -/
def empty : Cache := ⟨[]⟩

instance : Inhabited Cache := ⟨empty⟩

/-- The node under a key. -/
def find? (c : Cache) (key : String) : Option MethodInfo := c.entries.lookup key

/-- The number of keys. -/
def size (c : Cache) : Nat := c.entries.length

/-- Adds a node under a key that has none. -/
def insertNew (c : Cache) (key : String) (m : MethodInfo) : Cache :=
  match c.find? key with
  | some _ => c
  | none => ⟨(key, m) :: c.entries⟩

/-- The node under a key, or else a new one. -/
def findOr (c : Cache) (key : String) (m : MethodInfo) : MethodInfo := (c.find? key).getD m

theorem find?_insertNew (c : Cache) (key : String) (m : MethodInfo) :
    (c.insertNew key m).find? key = some (c.findOr key m) := by
  unfold insertNew findOr
  cases h : c.find? key with
  | none => simp [find?]
  | some v => simp [h]

end Cache

/-! ## Methods in flight -/

/-- The methods that are being resolved. -/
structure ResolutionContext where
  /-- In the order of entry. -/
  stack : List MethodId
  /-- Their canonical texts. -/
  inFlight : List String
  deriving Repr

namespace ResolutionContext

/-- Nothing is being resolved. -/
def empty : ResolutionContext := ⟨[], []⟩

/-- Begins with a method. -/
def enter (x : ResolutionContext) (id : MethodId) : ResolutionContext where
  stack := x.stack ++ [id]
  inFlight := if x.inFlight.contains id.canonical then x.inFlight else id.canonical :: x.inFlight

/-- Ends a method: takes away its last entry. -/
def leave (x : ResolutionContext) (id : MethodId) : ResolutionContext where
  stack := (x.stack.reverse.eraseP fun m => m.canonical == id.canonical).reverse
  inFlight := x.inFlight.filter (· != id.canonical)

/-- Whether a method is being resolved. -/
def isInFlight (x : ResolutionContext) (id : MethodId) : Bool := x.inFlight.contains id.canonical

/-- The number of methods being resolved. -/
def depth (x : ResolutionContext) : Nat := x.stack.length

end ResolutionContext

/-- The state of a traversal. -/
structure Resolution where
  cache : Cache
  context : ResolutionContext

namespace Resolution

/-- Begins with a method. -/
def enter (s : Resolution) (id : MethodId) : Resolution := { s with context := s.context.enter id }

/-- Ends a method. -/
def leave (s : Resolution) (id : MethodId) : Resolution := { s with context := s.context.leave id }

/-- Adds a finished node under its own identity. -/
def finish (s : Resolution) (m : MethodInfo) : Resolution :=
  { s with cache := s.cache.insertNew m.key m }

end Resolution

/-! ## Traversal -/

/-- A step of the traversal that gives a value, or runs out of budget. -/
abbrev Traversal (α : Type) := Resolution → Option (α × Resolution)

namespace Index

variable (i : Index) (g : GraphConfig)

/-- The relation of a target to the calling type. -/
def targetRelation (caller : TypeInfo) (t : CallTarget) : Relation :=
  match t.declaration with
  | some _ => i.code.classify t.declaring caller
  | none => i.code.classifyByName t.declaring.name caller

/-- The declaration of a target if it is to be expanded. -/
def expandable? (t : CallTarget) : Option MethodRef :=
  t.declaration.filter fun _ => g.methodFilter t.id t.declaring

/-- The edge to a target: back to a method in flight, to an expanded method, or to a mere identity. -/
def edgeTo (build : MethodRef → Traversal MethodInfo) (caller : TypeInfo) (t : CallTarget) :
    Traversal Calling := fun s =>
  if s.context.isInFlight t.id then
    some (.recursiveAt t.id (i.code.classify t.declaring caller), s)
  else
    match expandable? g t with
    | some m => (build m s).map fun (callee, s) => (.method callee (i.targetRelation caller t), s)
    | none => some (.method (.reference t.id) (i.targetRelation caller t), s)

/-- The edges to some targets, without those that the configuration drops. -/
def edgesTo (build : MethodRef → Traversal MethodInfo) (caller : TypeInfo) :
    List CallTarget → Traversal (List Calling)
  | [], s => some ([], s)
  | t :: ts, s =>
    (i.edgeTo g build caller t s).bind fun (edge, s) =>
      (edgesTo build caller ts s).map fun (edges, s) =>
        (if g.callingFilter edge then edge :: edges else edges, s)

/-- The nodes of some overriding methods; one in flight is a mere identity. -/
def overridesBy (build : MethodRef → Traversal MethodInfo) :
    List MethodRef → Traversal (List MethodInfo)
  | [], s => some ([], s)
  | m :: ms, s =>
    let first :=
      if s.context.isInFlight (i.code.methodId m) then
        some (.reference (i.code.methodId m), s)
      else build m s
    first.bind fun (node, s) => (overridesBy build ms s).map fun (nodes, s) => (node :: nodes, s)

/-- **Resolves a method**, unless the cache has it: its calls first, then the methods that override it.
The first argument bounds the depth. -/
def build : Nat → MethodRef → Traversal MethodInfo
  | 0, _, _ => none
  | n + 1, m, s =>
    let id := i.code.methodId m
    match s.cache.find? id.canonical with
    | some node => some (node, s)
    | none =>
      (i.edgesTo g (build n) (i.code.sourceType m.owner) (i.code.targets g m) (s.enter id)).bind
        fun (edges, s) =>
          (i.overridesBy (build n) (i.overriding g m) s).map fun (nodes, s) =>
            let node := MethodInfo.mk id (some m) edges nodes
            (s.cache.findOr id.canonical node, (s.leave id).finish node)

/-- More than the number of methods that can be in flight at once. -/
def depthBudget : Nat := (i.code.types.flatMap TypeDecl.methods).length + 1

/-- **Resolves a method with a cache**, and gives the cache with all that was resolved. -/
def resolveMethod (cache : Cache) (m : MethodRef) : MethodInfo × Cache :=
  match i.build g i.depthBudget m ⟨cache, .empty⟩ with
  | some (node, s) => (node, s.cache)
  | none => (.reference (i.code.methodId m), cache)

end Index

end JavaCallGraph

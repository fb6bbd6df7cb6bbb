import JavaCallGraph.Proofs.Lowering.Nodes

/-!
# The calls of a body are the invocations of its text

A body records its calls in the order in which the walk comes to them.  That is the pre-order of the
syntax tree: an invocation before those in its receiver and its arguments, one statement after the
other.  No invocation is recorded twice and none is missed but those that do not belong to the body:
the ones in types declared inside it, annotation types apart, and in those members of an anonymous
class that are no fields, methods or initializers.  `Node.children` leaves out exactly these.

* `Node.invocations` — the method calls inside a node;
* `Node.recorded_walk` — what a walk adds to the recorded calls;
* `recorded_lowerBody` — the calls of a lowered body.
-/

set_option autoImplicit false

namespace JavaCallGraph

/-- The recorded calls with their lines, without their scopes. -/
def Body.recorded (b : Body) : List (Nat × MethodCall) := b.calls.map fun site => (site.line, site.call)

namespace Syntax

/-! ## The invocations of a syntax tree -/

namespace Node

/-- The line of a node that is a method call, with the receiver, the name and the arguments that stand
there. -/
def invocation? : Node → Option (Nat × MethodCall)
  | expr (.call line object name args) => some (line, ⟨lowerOption object, name, lowerAll args⟩)
  | _ => none

/-- **The method calls inside a node**, in pre-order. -/
def invocations (n : Node) : List (Nat × MethodCall) := n.preorder.filterMap invocation?

theorem invocations_eq (n : Node) :
    n.invocations = n.invocation?.toList ++ n.children.flatMap invocations := by
  rw [invocations, preorder_eq, List.filterMap_cons, List.filterMap_flatMap]
  cases n.invocation? <;> rfl

end Node

/-! ## The calls that a walk records -/

namespace Part

mutual

/-- The calls that are recorded while a part is done. -/
def invocations : Part → List (Nat × MethodCall)
  | node n => n.invocations
  | call line c => [(line, c)]
  | declare _ => []
  | scope _ _ inside => invocationsOfAll inside

/-- The calls that are recorded while several parts are done. -/
def invocationsOfAll : List Part → List (Nat × MethodCall)
  | [] => []
  | p :: ps => p.invocations ++ invocationsOfAll ps

end

@[simp] theorem invocationsOfAll_append (ps qs : List Part) :
    invocationsOfAll (ps ++ qs) = invocationsOfAll ps ++ invocationsOfAll qs := by
  induction ps with
  | nil => rfl
  | cons p ps ih => simp [invocationsOfAll, ih]

@[simp] theorem invocationsOfAll_enter (ns : List Node) :
    invocationsOfAll (enter ns) = ns.flatMap Node.invocations := by
  induction ns with
  | nil => rfl
  | cons n ns ih => simp [invocationsOfAll, invocations, ih]

@[simp] theorem invocationsOfAll_declareParams (ps : List Param) :
    invocationsOfAll (declareParams ps) = [] := by
  induction ps with
  | nil => rfl
  | cons p ps ih => exact ih

/-- The parts of a node record its own call first, then those of the children. -/
theorem invocationsOfAll_parts (n : Node) : invocationsOfAll n.parts = n.invocations := by
  rw [Node.invocations_eq]
  fun_cases Node.parts n <;>
    simp [Node.children, Node.invocation?, lowerCall, block, invocationsOfAll, invocations]

mutual

theorem recorded_walk (scope : ScopeId) (p : Part) (b : Body)
    (h : ∀ n ∈ p.nodes, ∀ s b, (n.walk s b).recorded = b.recorded ++ n.invocations) :
    (p.walk scope b).recorded = b.recorded ++ p.invocations := by
  cases p with
  | node n => exact h n (List.mem_singleton_self n) scope b
  | call line c => simp [walk, Body.recorded, Body.addCall, invocations]
  | declare v => simp [walk, Body.recorded, Body.addLocal, invocations]
  | scope kind params inside => exact recorded_walkAll _ inside _ h

theorem recorded_walkAll (scope : ScopeId) (ps : List Part) (b : Body)
    (h : ∀ n ∈ nodesOfAll ps, ∀ s b, (n.walk s b).recorded = b.recorded ++ n.invocations) :
    (walkAll scope ps b).recorded = b.recorded ++ invocationsOfAll ps := by
  cases ps with
  | nil => simp [walkAll, invocationsOfAll]
  | cons p ps =>
    rw [walkAll, recorded_walkAll scope ps _ fun n hn => h n (List.mem_append_right _ hn),
      recorded_walk scope p b fun n hn => h n (List.mem_append_left _ hn), invocationsOfAll,
      List.append_assoc]

end

end Part

/-- **A walk adds the invocations of its node to the recorded calls**, in pre-order. -/
theorem Node.recorded_walk (n : Node) (scope : ScopeId) (b : Body) :
    (n.walk scope b).recorded = b.recorded ++ n.invocations := by
  induction n using Node.induction generalizing scope b with
  | step n ih =>
    rw [walk_eq, Part.recorded_walkAll scope n.parts b, Part.invocationsOfAll_parts]
    rw [nodesOfAll_parts]
    exact fun m hm s b => ih m hm s b

/-- **The calls of a body are the method calls of its statements**, each once, in pre-order. -/
theorem recorded_lowerBody (statements : List Stmt) :
    (lowerBody statements).recorded =
      (statements.flatMap fun s => (Node.stmt s).preorder).filterMap Node.invocation? := by
  have hall (ss : List Stmt) (b : Body) :
      (walkStmts 0 ss b).recorded = b.recorded ++ ss.flatMap fun s => (Node.stmt s).invocations := by
    rw [walkStmts_eq, Part.recorded_walkAll 0 _ b fun n _ => n.recorded_walk,
      Part.invocationsOfAll_enter, List.flatMap_map]
  rw [lowerBody, hall, List.filterMap_flatMap]
  rfl

end Syntax

end JavaCallGraph

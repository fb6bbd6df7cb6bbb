import JavaCallGraph.Codebase.Layers
import JavaCallGraph.Declaration.Basic
import JavaCallGraph.Graph.Relation
import JavaCallGraph.MethodId

/-!
# Resolved methods

A `MethodInfo` is a method with everything reachable from it: the methods it calls and the methods
that override it.  A call back to a method that is still being resolved is cut and only names it, so
the graph is a finite tree in which parts may be shared.

A node without a declaration carries nothing but its identity; it stands for a method outside the
analyzed source, for one that is not to be expanded, or for an overriding method that is still being
resolved.
-/

set_option autoImplicit false

namespace JavaCallGraph

mutual

/-- A resolved method. -/
inductive MethodInfo where
  | mk (id : MethodId) (declaration : Option MethodRef) (dependencies : List Calling)
      (overrides : List MethodInfo)

/-- An edge to a called method. -/
inductive Calling where
  | method (callee : MethodInfo) (relation : Relation)
  /-- A call of a method that is still being resolved. -/
  | recursiveAt (id : MethodId) (relation : Relation)

end

namespace Calling

/-- The relation of callee and caller. -/
def relation : Calling → Relation
  | method _ r => r
  | recursiveAt _ r => r

/-- The called method, unless the edge only names it. -/
def callee? : Calling → Option MethodInfo
  | method m _ => some m
  | recursiveAt _ _ => none

/-- The edge only names its callee. -/
def isRecursive : Calling → Bool
  | method _ _ => false
  | recursiveAt _ _ => true

end Calling

namespace MethodInfo

instance : Inhabited MethodInfo := ⟨mk default none [] []⟩

/-- The identity. -/
def id : MethodInfo → MethodId
  | mk id _ _ _ => id

/-- The declaration, if the node is expanded. -/
def declaration : MethodInfo → Option MethodRef
  | mk _ d _ _ => d

/-- The calls, in the order of the body. -/
def dependencies : MethodInfo → List Calling
  | mk _ _ ds _ => ds

/-- The overriding methods. -/
def overrides : MethodInfo → List MethodInfo
  | mk _ _ _ os => os

/-- The canonical text of the identity. -/
def key (m : MethodInfo) : String := m.id.canonical

/-- A node that carries nothing but its identity. -/
def reference (id : MethodId) : MethodInfo := mk id none [] []

/-- The called and the overriding methods. -/
def children (m : MethodInfo) : List MethodInfo :=
  m.dependencies.filterMap Calling.callee? ++ m.overrides

end MethodInfo

/-- The identity of the called method. -/
def Calling.calleeId : Calling → MethodId
  | method m _ => m.id
  | recursiveAt id _ => id

/-! ## Size

The children of a node are smaller than the node, also all of them together; a walk that replaces a
node by some of its children ends. -/

/-- The sum of the sizes of some nodes. -/
noncomputable def totalSize : List MethodInfo → Nat
  | [] => 0
  | m :: ms => sizeOf m + totalSize ms

@[simp]
theorem totalSize_nil : totalSize [] = 0 := rfl

@[simp]
theorem totalSize_cons (m : MethodInfo) (ms : List MethodInfo) :
    totalSize (m :: ms) = sizeOf m + totalSize ms := rfl

@[simp]
theorem totalSize_append (ms ns : List MethodInfo) :
    totalSize (ms ++ ns) = totalSize ms + totalSize ns := by
  induction ms with
  | nil => simp
  | cons m ms ih => simp only [List.cons_append, totalSize_cons, ih, Nat.add_assoc]

theorem totalSize_le_sizeOf (ms : List MethodInfo) : totalSize ms ≤ sizeOf ms := by
  induction ms with
  | nil => simp [totalSize]
  | cons m ms ih => simp only [totalSize_cons, List.cons.sizeOf_spec]; omega

theorem totalSize_callees_le (ds : List Calling) :
    totalSize (ds.filterMap Calling.callee?) ≤ sizeOf ds := by
  induction ds with
  | nil => simp
  | cons d ds ih =>
    cases d with
    | method m r =>
      simp only [Calling.callee?, List.filterMap_cons, totalSize_cons, List.cons.sizeOf_spec,
        Calling.method.sizeOf_spec]
      omega
    | recursiveAt i r =>
      simp only [Calling.callee?, List.filterMap_cons, List.cons.sizeOf_spec]
      omega

/-- **The children of a node are together smaller than the node.** -/
theorem totalSize_children_lt (m : MethodInfo) : totalSize m.children < sizeOf m := by
  obtain ⟨i, d, ds, os⟩ := m
  simp only [MethodInfo.children, MethodInfo.dependencies, MethodInfo.overrides, totalSize_append,
    MethodInfo.mk.sizeOf_spec]
  have h1 := totalSize_callees_le ds
  have h2 := totalSize_le_sizeOf os
  omega

theorem totalSize_fresh_le (seen : List String) (ms : List MethodInfo) :
    totalSize (Layers.fresh MethodInfo.key seen ms) ≤ totalSize ms := by
  induction ms generalizing seen with
  | nil => simp [Layers.fresh]
  | cons m ms ih =>
    rw [Layers.fresh]
    split
    · exact Nat.le_trans (ih _) (by simp)
    · simp only [totalSize_cons]
      exact Nat.add_le_add_left (ih _) _

end JavaCallGraph

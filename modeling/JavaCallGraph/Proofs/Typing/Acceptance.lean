import JavaCallGraph.Proofs.Graph.Termination
import JavaCallGraph.Proofs.Typing.Proper

/-!
# Type variables as arguments

A parameter accepts an argument by its type.  Of a type that is not primitive only the name is looked
at (`Codebase.acceptsNamed`), and what that name stands for is looked up anew.  For a type variable this
means that its bounds do not count.  There is no type of its name, so nothing is above it.

* `TypeInfo.TakesVariable` — the parameters that accept a type variable;
* `Codebase.variable_argument` — these are all of them, and every parameter that accepts the root class
  is one;
* `Codebase.bounded_argument_sample` — a variable that is not accepted where its bound is.
-/

set_option autoImplicit false

namespace JavaCallGraph

namespace TypeInfo

/-- Neither primitive nor an array nor a variable. -/
def isNominal : TypeInfo → Bool
  | source _ _ | compiled _ | unresolved _ => true
  | primitive _ | array _ | typeVar _ _ => false

/-- **A parameter of this type accepts any variable with the name `n`.** -/
inductive TakesVariable (n : String) : TypeInfo → Prop
  /-- The parameter goes by the same name. -/
  | same {p : TypeInfo} (h : p.name = n) : TakesVariable n p
  /-- The parameter is of the root class. -/
  | root {p : TypeInfo} (hp : p.isNominal = true) (h : p.name = objectName) : TakesVariable n p
  /-- The parameter is a variable itself, and all its bounds do. -/
  | bounded {m : String} {bounds : List TypeInfo} (h : ∀ b ∈ bounds, TakesVariable n b) :
    TakesVariable n (typeVar m bounds)

/-- A type variable with the name `n`, or one that is bounded by such a variable. -/
inductive HasVariable (n : String) : TypeInfo → Prop
  | self {bounds : List TypeInfo} : HasVariable n (typeVar n bounds)
  | bound {m : String} {bounds : List TypeInfo} {b : TypeInfo} (hb : b ∈ bounds)
    (h : HasVariable n b) : HasVariable n (typeVar m bounds)

/-- The variables of a proper type are declared somewhere. -/
theorem Proper.mem_variableNames_of_hasVariable {c : Codebase} {Q : String → Prop} {n : String}
    {p : TypeInfo} (hp : p.Proper c Q) (h : p.HasVariable n) : n ∈ c.variableNames := by
  induction h with
  | self => exact hp.mem_variableNames rfl
  | bound hb _ ih =>
    cases hp with
    | typeVar _ _ hbounds => exact ih (hbounds _ hb)

/-- What goes by the name of the root class is no array and not primitive. -/
theorem isNominal_of_name {p : TypeInfo} (hv : p.isVariable = false) (h : p.name = objectName) :
    p.isNominal = true := by
  cases p with
  | primitive q => cases q <;> exact absurd h (by decide)
  | array t =>
    have hlast := getLast?_name_array t
    rw [h] at hlast
    exact absurd hlast (by decide)
  | typeVar n bounds => exact absurd hv (by simp [isVariable])
  | _ => rfl

theorem eq_primitive {t : TypeInfo} {q : Primitive} (h : t.primitive? = some q) :
    t = .primitive q := by
  cases t with
  | primitive => exact congrArg TypeInfo.primitive (Option.some.inj h)
  | _ => exact absurd h (by simp [primitive?])

end TypeInfo

namespace Codebase

variable {c : Codebase} {n : String} {p : TypeInfo}

/-! ## Acceptance by name -/

/-- A parameter accepts an argument of the given name, which is not that of a primitive type. -/
def acceptsNamed (c : Codebase) : TypeInfo → String → Bool
  | .primitive p, arg => (Primitive.ofWrapper? arg).any p.accepts
  | param, arg => c.isAssignable param arg

/-- **Only the name of an argument counts** that is not primitive. -/
theorem accepts_eq_acceptsNamed {arg : TypeInfo} (h : arg.primitive? = none) :
    c.accepts p arg = c.acceptsNamed p arg.name := by
  cases arg with
  | primitive a => exact absurd h (by simp [TypeInfo.primitive?])
  | _ =>
    cases p with
    | primitive q =>
      simp only [accepts, acceptsNamed]
      cases Primitive.ofWrapper? _ <;> rfl
    | _ => rfl

/-- A type accepts its own name. -/
theorem isAssignable_typeInfo (n : String) : c.isAssignable (c.typeInfo n) n = true := by
  have hname := c.name_typeInfo n
  generalize c.typeInfo n = t at hname
  subst hname
  cases t <;> simp [isAssignable, TypeInfo.name]

theorem isAssignable_nominal (hp : p.isNominal = true) (sub : String) :
    c.isAssignable p sub = (p.name == sub || (!isPrimitiveName sub &&
      (p.name == objectName || (c.ancestors (c.typeInfo sub)).any fun a => a.name == p.name))) := by
  cases p with
  | source id n => rw [isAssignable] <;> simp
  | compiled t => rw [isAssignable] <;> simp
  | unresolved n => rw [isAssignable] <;> simp
  | _ => exact absurd hp (by simp [TypeInfo.isNominal])

theorem allAssignable_iff {ts : List TypeInfo} {sub : String} :
    c.allAssignable ts sub = true ↔ ∀ t ∈ ts, c.isAssignable t sub = true := by
  induction ts with
  | nil => simp [allAssignable]
  | cons t ts ih => simp [allAssignable, ih]

/-! ## What is above a name -/

/-- Nothing is above a type of which only the name is known. -/
theorem ancestors_unresolved (n : String) : c.ancestors (.unresolved n) = [] := by
  have hchain : c.superclasses (.unresolved n) = [] := by
    rw [superclasses]
    cases c.searchBudget <;> rfl
  rw [ancestors, hchain]
  cases c.searchBudget <;> rfl

/-- A name that stands for an unknown type has no dimensions. -/
theorem componentName?_of_unresolved (h : c.typeInfo n = .unresolved n) :
    componentName? n = none := by
  rw [componentName?]
  split
  · next cs hcs =>
    rw [typeInfo, hcs, countDimensions] at h
    exact absurd h (by simp [TypeInfo.withDimensions])
  · rfl

theorem isPrimitiveName_array (t : TypeInfo) : isPrimitiveName (TypeInfo.array t).name = false := by
  have hlast := TypeInfo.getLast?_name_array t
  generalize (TypeInfo.array t).name = n at hlast ⊢
  rw [isPrimitiveName, Option.isSome_eq_false_iff, Option.isNone_iff_eq_none]
  cases hp : Primitive.ofName? n with
  | none => rfl
  | some q =>
    have hname : q.name = n := by simpa using List.find?_some hp
    rw [← hname] at hlast
    cases q <;> exact absurd hlast (by decide)

theorem primitive?_typeInfo (hprim : isPrimitiveName n = false) :
    (c.typeInfo n).primitive? = none := by
  cases ht : c.typeInfo n with
  | primitive q =>
    have hname := c.name_typeInfo n
    rw [ht, TypeInfo.name] at hname
    rw [← hname, isPrimitiveName, Primitive.ofName?_name] at hprim
    exact absurd hprim (by simp)
  | _ => rfl

/-! ## Which parameters accept a name -/

theorem isAssignable_of_takesVariable (hprim : isPrimitiveName n = false)
    (h : p.TakesVariable n) : c.isAssignable p n = true := by
  induction h with
  | @same p h => cases p <;> simp_all [isAssignable, TypeInfo.name]
  | root hp h => simp [isAssignable_nominal hp, hprim, h]
  | bounded _ ih => simp [isAssignable, allAssignable_iff.mpr ih]

/-- A name with nothing above it is accepted by no other parameters. -/
theorem takesVariable_of_isAssignable (hcomponent : componentName? n = none)
    (habove : c.ancestors (c.typeInfo n) = []) :
    ∀ {p : TypeInfo}, c.isAssignable p n = true → p.TakesVariable n
  | .typeVar m bounds, h => by
    rw [isAssignable, Bool.or_eq_true, beq_iff_eq] at h
    rcases h with h | h
    · exact .same h
    · exact .bounded fun b hb =>
        takesVariable_of_isAssignable hcomponent habove (allAssignable_iff.mp h b hb)
  | .primitive p, h => by
    rw [isAssignable, beq_iff_eq] at h
    exact .same h
  | .array t, h => by
    rw [isAssignable, hcomponent] at h
    exact .same (by simpa using h)
  | .source _ _, h | .compiled _, h | .unresolved _, h => by
    rw [isAssignable_nominal rfl, habove] at h
    simp only [List.any_nil, Bool.or_false, Bool.or_eq_true, Bool.and_eq_true, beq_iff_eq] at h
    rcases h with h | ⟨-, h⟩
    · exact .same h
    · exact .root rfl h

/-- A parameter that takes a variable is not primitive, so it accepts the name. -/
theorem acceptsNamed_of_takesVariable (hprim : isPrimitiveName n = false)
    (h : p.TakesVariable n) : c.acceptsNamed p n = true := by
  have hassignable := isAssignable_of_takesVariable (c := c) hprim h
  cases p with
  | primitive q =>
    rw [isAssignable, beq_iff_eq] at hassignable
    rw [← hassignable, isPrimitiveName, Primitive.ofName?_name] at hprim
    exact absurd hprim (by simp)
  | _ => exact hassignable

theorem takesVariable_of_acceptsNamed (hwrapper : Primitive.ofWrapper? n = none)
    (hcomponent : componentName? n = none) (habove : c.ancestors (c.typeInfo n) = [])
    (h : c.acceptsNamed p n = true) : p.TakesVariable n := by
  cases p with
  | primitive q => exact absurd h (by simp [acceptsNamed, hwrapper])
  | _ => exact takesVariable_of_isAssignable hcomponent habove h

/-- A parameter that takes the root class takes every variable. -/
theorem takesVariable_of_root (hp : ¬p.HasVariable objectName) (h : p.TakesVariable objectName) :
    p.TakesVariable n := by
  induction h with
  | @same p h =>
    cases p with
    | typeVar m bounds =>
      obtain rfl : m = objectName := h
      exact absurd .self hp
    | _ => exact .root (TypeInfo.isNominal_of_name rfl h) h
  | root hnominal h => exact .root hnominal h
  | bounded _ ih => exact .bounded fun b hb => ih b hb fun h => hp (.bound hb h)

/-! ## Variables as arguments -/

/-- **Which parameters accept a type variable.** -/
structure VariableArgument (c : Codebase) (n : String) (bounds : List TypeInfo) (p : TypeInfo) :
    Prop where
  /-- The bounds do not count: the variable is accepted where a type of its name is. -/
  byName : c.accepts p (.typeVar n bounds) = c.accepts p (c.typeInfo n)
  /-- If there is no type of its name, these are all parameters that accept it. -/
  exactly : c.typeInfo n = .unresolved n →
    (c.accepts p (.typeVar n bounds) = true ↔ p.TakesVariable n)
  /-- So no other class or interface accepts it, not even a bound. -/
  never : c.typeInfo n = .unresolved n → p.isVariable = false → p.name ≠ n →
    p.name ≠ objectName → c.accepts p (.typeVar n bounds) = false
  /-- It is accepted where the root class is. -/
  root : c.accepts p c.objectType = true → c.accepts p (.typeVar n bounds) = true

/-- No primitive type has a wrapper with a simple name. -/
theorem ofWrapper?_of_simple (hsimple : isDotted n = false) : Primitive.ofWrapper? n = none := by
  cases hw : Primitive.ofWrapper? n with
  | none => rfl
  | some q =>
    have hname : q.wrapper = n := by simpa using List.find?_some hw
    rw [← hname] at hsimple
    cases q <;> exact absurd hsimple (by decide)

/-- **What accepts a type variable** with a simple name: the parameters of the same name, of the root
class, and the variables whose bounds all do.  The root class is taken to have no supertypes. -/
theorem variable_argument (hprim : isPrimitiveName n = false) (hsimple : isDotted n = false)
    (hroot : c.ancestors c.objectType = []) (hp : ¬p.HasVariable objectName)
    (bounds : List TypeInfo) : c.VariableArgument n bounds p := by
  have hname : c.accepts p (.typeVar n bounds) = c.acceptsNamed p n := accepts_eq_acceptsNamed rfl
  have hexactly : c.typeInfo n = .unresolved n →
      (c.accepts p (.typeVar n bounds) = true ↔ p.TakesVariable n) := by
    intro hunknown
    rw [hname]
    refine ⟨takesVariable_of_acceptsNamed (ofWrapper?_of_simple hsimple)
      (componentName?_of_unresolved hunknown) ?_, acceptsNamed_of_takesVariable hprim⟩
    rw [hunknown, ancestors_unresolved]
  refine ⟨?_, hexactly, fun hunknown hv hne hno => ?_, fun h => ?_⟩
  · rw [hname, accepts_eq_acceptsNamed (primitive?_typeInfo hprim), name_typeInfo]
  · rw [← Bool.not_eq_true, hexactly hunknown]
    intro h
    cases h with
    | same h => exact hne h
    | root _ h => exact hno h
    | bounded _ => exact absurd hv (by simp [TypeInfo.isVariable])
  · rw [objectType, accepts_eq_acceptsNamed (primitive?_typeInfo (by decide)), name_typeInfo] at h
    have htakes := takesVariable_of_acceptsNamed (by decide) (by decide) hroot h
    rw [hname]
    exact acceptsNamed_of_takesVariable hprim (takesVariable_of_root hp htakes)

end Codebase

/-! ## A bounded variable

The method `go` of `D` passes its parameter, of type `T extends Shape`, to a method that takes a
`Shape`. -/

namespace Sample

/-- The call of `draw` with the parameter of the method around. -/
def callDraw : CallSite := ⟨⟨none, "draw", [.name "p"]⟩, 0, 1⟩

/-- The two classes. -/
def shapes : Codebase where
  units := [⟨"Shapes.java", none, [], none⟩]
  types :=
    [classDecl "Shape" [] [],
     classDecl "D" [] [unary "draw" (.simple "Shape") [],
       { unary "go" (.simple "T") [callDraw] with typeParams := [⟨"T", [.simple "Shape"]⟩] }]]
  catalog := .empty

end Sample

namespace Codebase

/-- The parameter of `go` is accepted as an object, but not as a shape. -/
theorem variable_argument_sample :
    Sample.shapes.accepts Sample.shapes.objectType
        (.typeVar "T" [Sample.shapes.sourceType ⟨0⟩]) = true ∧
      Sample.shapes.accepts (Sample.shapes.sourceType ⟨0⟩)
        (.typeVar "T" [Sample.shapes.sourceType ⟨0⟩]) = false := by
  have hunknown : Sample.shapes.objectType = .unresolved objectName := by rfl
  have hroot : Sample.shapes.ancestors Sample.shapes.objectType = [] := by
    rw [hunknown, ancestors_unresolved]
  have hobject : objectName ∉ Sample.shapes.variableNames := by decide
  have hargument {p : TypeInfo} (hp : p.Proper Sample.shapes fun _ => True) :=
    variable_argument (n := "T") (by decide) (by decide) hroot
      (fun h => hobject (hp.mem_variableNames_of_hasVariable h)) [Sample.shapes.sourceType ⟨0⟩]
  constructor
  · exact (hargument (Obeys.trivial _).objectType).root (by decide +kernel)
  · have hshape := hargument (p := Sample.shapes.sourceType ⟨0⟩)
      ((Obeys.trivial _).sourceType (by decide))
    exact hshape.never (by rfl) rfl (by decide) (by decide)

/-- **A variable that is not accepted where its bound is.**  The method that takes a shape does not
accept the parameter of `go`. -/
theorem bounded_argument_sample :
    ¬∀ (c : Codebase) (m k : MethodRef) (p b : TypeInfo) (n : String) (bounds : List TypeInfo),
      .typeVar n bounds ∈ c.paramTypes m → p ∈ c.paramTypes k → b ∈ bounds →
      c.accepts p b = true → c.accepts p (.typeVar n bounds) = true := by
  intro h
  have hgo : Sample.shapes.paramTypes ⟨⟨1⟩, 1⟩ = [.typeVar "T" [Sample.shapes.sourceType ⟨0⟩]] := by
    with_unfolding_all rfl
  have hdraw : Sample.shapes.paramTypes ⟨⟨1⟩, 0⟩ = [Sample.shapes.sourceType ⟨0⟩] := by
    with_unfolding_all rfl
  have hshape : Sample.shapes.accepts (Sample.shapes.sourceType ⟨0⟩)
      (Sample.shapes.sourceType ⟨0⟩) = true := by decide +kernel
  have hvariable : Sample.shapes.accepts (Sample.shapes.sourceType ⟨0⟩)
      (.typeVar "T" [Sample.shapes.sourceType ⟨0⟩]) = false := by decide +kernel
  have haccepts := h Sample.shapes ⟨⟨1⟩, 1⟩ ⟨⟨1⟩, 0⟩ (Sample.shapes.sourceType ⟨0⟩)
    (Sample.shapes.sourceType ⟨0⟩) "T" [Sample.shapes.sourceType ⟨0⟩]
    (by rw [hgo]; exact List.mem_singleton_self _) (by rw [hdraw]; exact List.mem_singleton_self _)
    (List.mem_singleton_self _) hshape
  rw [hvariable] at haccepts
  exact Bool.false_ne_true haccepts

end Codebase

end JavaCallGraph

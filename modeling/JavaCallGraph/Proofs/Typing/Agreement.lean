import JavaCallGraph.Proofs.Graph.Termination

/-!
# The two typings of a receiver

An expression is typed twice: by certain resolution, from declarations alone, and by its structure.
Inference asks the one first and the other when it fails.  A call is looked up on its receiver, so the
two should not tell different types for one.

They tell different types in one situation.  A simple name that is neither a variable nor a field of
the own type is certain to be the name of a type; but for the structure of an expression it means a
field first, also one that is inherited, one of the types around, or an enum constant.

* `Codebase.structuralType?` — the type of an expression by its structure, and
  `Codebase.typeOf?_eq_or`, which says how inference uses it;
* `Codebase.Disagrees` — the ways in which a name can mean two things;
* `Codebase.certain_receiver_agrees` — apart from these, a certain type of a receiver is the one that
  its structure gives, too.
-/

set_option autoImplicit false

namespace JavaCallGraph

namespace Codebase

variable {c : Codebase}

/-! ## Typing by structure -/

/-- The type of an expression by its structure, where `typeOf` types the initial values of variables.
The parts of the expression are typed as inference does. -/
def structuralWith? (c : Codebase) (typeOf : Expr → Option TypeInfo) (ctx : ExprContext) :
    Expr → Option TypeInfo
  | .literal l => c.literalType? l
  | .name n => c.nameType? typeOf ctx n
  | .field receiver n =>
    ((c.typeWith? typeOf ctx receiver).bind fun owner => c.fieldType? owner n).or <|
      (Expr.dottedName? (.field receiver n)).bind fun d => c.lookup? d ctx.type
  | .call receiver n args =>
    ((c.resolveCall? ctx ⟨receiver, n, args⟩).bind (·.returnType)).or <|
      (c.ownerWith? typeOf ctx n (c.typesWith typeOf ctx args) receiver).bind fun owner =>
        c.resultOn? n (c.typesWith typeOf ctx args) (c.withAncestors owner)
  | .new t _ | .newArray t | .cast t _ => some (c.qualify ctx.typeScope t)
  | .index array => (c.typeWith? typeOf ctx array).bind TypeInfo.component?
  | .binary op l r =>
    if op.isBoolean then some (.primitive .boolean)
    else if op == .add && (l.isStringLiteral || r.isStringLiteral) then
      some (c.typeInfo stringName)
    else
      (c.typeWith? typeOf ctx l).bind fun lt =>
        (c.typeWith? typeOf ctx r).bind fun rt => c.arithmeticType? op lt rt
  | .unary .not _ | .instanceOf _ => some (.primitive .boolean)
  | .unary _ operand => c.typeWith? typeOf ctx operand
  | .conditional positive negative =>
    c.conditionalType? (c.typeWith? typeOf ctx positive) (c.typeWith? typeOf ctx negative)
  | .assign target _ => c.typeWith? typeOf ctx target
  | .this => some (c.thisType ctx)
  | .super => c.superType? ctx
  | .classLiteral _ => some (c.typeInfo className)
  | .lambda | .methodReference | .unsupported _ => none

/-- Inference asks certain resolution first, and the structure of the expression when that fails. -/
theorem typeWith?_eq_or (typeOf : Expr → Option TypeInfo) (ctx : ExprContext) (e : Expr) :
    c.typeWith? typeOf ctx e = (c.certainType? ctx e).or (c.structuralWith? typeOf ctx e) := by
  rw [typeWith?.eq_def]
  cases e with
  | unary op operand => cases op <;> rfl
  | _ => rfl

/-- The type of an initial value, where at most `n` of them are typed inside each other. -/
def initialType? (c : Codebase) (ctx : ExprContext) : Nat → Expr → Option TypeInfo
  | 0, _ => none
  | n + 1, e => c.typeWithin? ctx n e

/-- **The type of an expression by its structure.** -/
def structuralType? (c : Codebase) (ctx : ExprContext) (e : Expr) : Option TypeInfo :=
  c.structuralWith? (c.initialType? ctx ctx.localCount) ctx e

theorem typeOf?_eq_typeWith? (ctx : ExprContext) (e : Expr) :
    c.typeOf? ctx e = c.typeWith? (c.initialType? ctx ctx.localCount) ctx e := by
  rw [typeOf?]
  cases ctx.localCount <;> rfl

theorem typeOf?_eq_or (ctx : ExprContext) (e : Expr) :
    c.typeOf? ctx e = (c.certainType? ctx e).or (c.structuralType? ctx e) := by
  rw [typeOf?_eq_typeWith?, typeWith?_eq_or, structuralType?]

/-! ## What a name can mean -/

/-- The type of the field that a name means where no variable has it: of the own type or an inherited
one, else of a type around. -/
def memberType? (c : Codebase) (ctx : ExprContext) (name : String) : Option TypeInfo :=
  (c.enclosing ctx.type).findSome? fun t => c.fieldType? (c.sourceType t) name

/-- Certain resolution takes the name for that of a type, although it means a field. -/
structure ObscuresField (c : Codebase) (ctx : ExprContext) (name : String) (field : TypeInfo) :
    Prop where
  typeName : c.isTypeName ctx name = true
  member : c.memberType? ctx name = some field

/-- **How the structure of a receiver can give it another type** than certain resolution does. -/
inductive Disagrees (c : Codebase) (ctx : ExprContext) : Expr → Option TypeInfo → Prop
  /-- A field is taken for a type. -/
  | name {n : String} {f : TypeInfo} (h : c.ObscuresField ctx n f) : Disagrees c ctx (.name n) (some f)
  /-- A member is looked up on a type instead of a field. -/
  | member {n x : String} {f : TypeInfo} (h : c.ObscuresField ctx n f) :
    Disagrees c ctx (.field (.name n) x)
      ((c.fieldType? f x).or (c.lookup? (n ++ "." ++ x) ctx.type))
  /-- A field of the own type is taken although that has an enum constant of the same name. -/
  | constant {n : String} {f : FieldDecl} (unbound : ctx.binding? n = none)
    (field : (c.decl ctx.type).field? n = some f)
    (constant : n ∈ (c.decl ctx.type).enumConstants) :
    Disagrees c ctx (.name n) (some (c.sourceType ctx.type))

theorem isTypeName_iff {ctx : ExprContext} {n : String} :
    c.isTypeName ctx n = true ↔ ctx.binding? n = none ∧ (c.decl ctx.type).field? n = none := by
  simp [isTypeName]

theorem memberType?_eq_or (ctx : ExprContext) (n : String) :
    ∃ others, c.memberType? ctx n = (c.fieldType? (c.sourceType ctx.type) n).or others := by
  rw [memberType?, enclosing, List.findSome?_cons]
  cases c.fieldType? (c.sourceType ctx.type) n with
  | none => exact ⟨_, rfl⟩
  | some f => exact ⟨none, rfl⟩

/-- A field or constant that the own type declares comes before all others. -/
theorem memberType?_of_declared {ctx : ExprContext} {n : String} {f : TypeInfo}
    (hf : c.declaredFieldType? (c.sourceType ctx.type) n = some f) :
    c.memberType? ctx n = some f := by
  have hown : c.fieldType? (c.sourceType ctx.type) n = some f := by
    simp only [sourceType] at hf
    simp [fieldType?, sourceType, erased, withAncestors, hf]
  obtain ⟨others, ho⟩ := c.memberType?_eq_or ctx n
  rw [ho, hown, Option.some_or]

/-- A name that is no variable means a field before it means a type. -/
theorem nameType?_of_member {typeOf : Expr → Option TypeInfo} {ctx : ExprContext} {n : String}
    {f : TypeInfo} (hb : ctx.binding? n = none) (hf : c.memberType? ctx n = some f) :
    c.nameType? typeOf ctx n = some f := by
  rw [memberType?] at hf
  simp only [nameType?, hb, globalNameType?, hf, Option.some_or]

/-! ## Where the typings agree -/

theorem eq_of_known? {t s : TypeInfo} (h : t.known? = some s) : s = t := by
  rw [TypeInfo.known?] at h
  split at h
  · exact (Option.some.inj h).symm
  · exact absurd h (by simp)

/-- A call has the type of the declaration that it refers to. -/
theorem certainTypeAs?_call (ctx : ExprContext) (role : Role) (receiver : Option Expr) (n : String)
    (args : List Expr) :
    c.certainTypeAs? ctx role (.call receiver n args) =
      (c.resolveCall? ctx ⟨receiver, n, args⟩).bind fun r => r.returnType.bind TypeInfo.known? := by
  rw [certainTypeAs?, resolveCall?]
  simp only [Option.bind_assoc]

/-- A variable has the type that it is declared with. -/
theorem nameType?_of_bound {typeOf : Expr → Option TypeInfo} {ctx : ExprContext} {n : String}
    {b : Binding} {t : TypeInfo} (hb : ctx.binding? n = some b)
    (ht : c.certainNameType? ctx n = some t) : c.nameType? typeOf ctx n = some t := by
  rw [certainNameType?, hb] at ht
  rw [nameType?, hb]
  cases b with
  | «local» v =>
    simp only at ht ⊢
    split at ht
    · exact absurd ht (by simp)
    · next hv => rwa [if_neg hv]
  | lambdaParam p => exact ht
  | param p => exact ht

/-- The type that a name has as a receiver is the one that it has by its structure, unless it means
two things. -/
theorem nameType?_of_certain (typeOf : Expr → Option TypeInfo) {ctx : ExprContext} {n : String}
    {t : TypeInfo} (ht : c.certainTypeAs? ctx .receiver (.name n) = some t) :
    c.nameType? typeOf ctx n = some t ∨
      c.Disagrees ctx (.name n) (c.nameType? typeOf ctx n) := by
  rw [certainTypeAs?] at ht
  cases hb : ctx.binding? n with
  | some b =>
    have hvar : c.isTypeName ctx n = false := by simp [isTypeName, hb]
    simp only [hvar, Bool.false_eq_true, and_false, if_false] at ht
    exact .inl (nameType?_of_bound hb ht)
  | none =>
    cases hfield : (c.decl ctx.type).field? n with
    | some d =>
      have hvar : c.isTypeName ctx n = false := by simp [isTypeName, hfield]
      simp only [hvar, Bool.false_eq_true, and_false, if_false, certainNameType?, hb, hfield,
        Option.map_some, Option.some.injEq] at ht
      by_cases hconst : n ∈ (c.decl ctx.type).enumConstants
      · right
        have hmember : c.memberType? ctx n = some (c.sourceType ctx.type) :=
          memberType?_of_declared (by simp [declaredFieldType?, sourceType, hconst])
        rw [nameType?_of_member hb hmember]
        exact .constant hb hfield hconst
      · left
        refine nameType?_of_member hb (memberType?_of_declared ?_)
        simp [declaredFieldType?, sourceType, hconst, hfield, ht]
    | none =>
      have htype : c.isTypeName ctx n = true := isTypeName_iff.mpr ⟨hb, hfield⟩
      simp only [htype, and_self, if_true] at ht
      cases hmember : c.memberType? ctx n with
      | some f =>
        right
        rw [nameType?_of_member hb hmember]
        exact .name ⟨htype, hmember⟩
      | none =>
        left
        rw [memberType?] at hmember
        simp only [nameType?, hb, globalNameType?, hmember, ht, Option.none_or, Option.some_or]

/-- A receiver has its certain type as a value, too, unless it is `super` or the name of a type. -/
theorem certainType?_of_receiver {ctx : ExprContext} {e : Expr} {t : TypeInfo}
    (ht : c.certainTypeAs? ctx .receiver e = some t) :
    c.certainType? ctx e = some t ∨ e = .super ∨
      ∃ n, e = .name n ∧ c.isTypeName ctx n = true := by
  cases e with
  | super => exact .inr (.inl rfl)
  | name n =>
    by_cases hn : c.isTypeName ctx n = true
    · exact .inr (.inr ⟨n, rfl, hn⟩)
    · left
      rw [certainTypeAs?, if_neg (by simp [hn])] at ht
      simp [certainType?, certainTypeAs?, ht]
  | literal | this | new | cast | field | call =>
    left
    rw [certainType?]
    rw [certainTypeAs?] at ht ⊢
    exact ht
  | _ => exact absurd ht (by simp [certainTypeAs?])

/-- Inference types a receiver as certain resolution does, or that is the name of a type and of a
field. -/
theorem typeWith?_of_receiver (typeOf : Expr → Option TypeInfo) {ctx : ExprContext} {e : Expr}
    {t : TypeInfo} (ht : c.certainTypeAs? ctx .receiver e = some t) :
    c.typeWith? typeOf ctx e = some t ∨
      ∃ n f, e = .name n ∧ c.ObscuresField ctx n f ∧ c.typeWith? typeOf ctx e = some f := by
  rw [typeWith?_eq_or]
  rcases certainType?_of_receiver ht with hvalue | rfl | ⟨n, rfl, hn⟩
  · left
    rw [hvalue, Option.some_or]
  · left
    rw [certainTypeAs?, if_pos rfl] at ht
    simp [certainType?, certainTypeAs?, structuralWith?, ht]
  · obtain ⟨hb, hfield⟩ := isTypeName_iff.mp hn
    have hvalue : c.certainType? ctx (.name n) = none := by
      simp [certainType?, certainTypeAs?, certainNameType?, hb, hfield]
    rw [hvalue, Option.none_or, structuralWith?]
    rcases nameType?_of_certain typeOf ht with hname | hname
    · exact .inl hname
    · right
      generalize hs : c.nameType? typeOf ctx n = s at hname
      cases hname with
      | name h => exact ⟨n, _, rfl, h, rfl⟩
      | constant _ hown _ => exact absurd hfield (by simp [hown])

/-- **The structure of a receiver gives it the type that certain resolution gives it**, unless its
name means two things. -/
theorem certain_receiver_agrees {ctx : ExprContext} {e : Expr} {t : TypeInfo}
    (h : c.certainReceiverType? ctx e = some t) :
    c.structuralType? ctx e = some t ∨ c.Disagrees ctx e (c.structuralType? ctx e) := by
  obtain ⟨s, hs, hknown⟩ := Option.bind_eq_some_iff.mp h
  obtain rfl := eq_of_known? hknown
  rw [structuralType?]
  cases e with
  | literal l =>
    rw [certainTypeAs?] at hs
    exact .inl hs
  | this =>
    rw [certainTypeAs?] at hs
    exact .inl hs
  | super =>
    rw [certainTypeAs?, if_pos rfl] at hs
    exact .inl hs
  | name n => exact nameType?_of_certain _ hs
  | new r args =>
    rw [certainTypeAs?] at hs
    rw [eq_of_known? hs]
    exact .inl rfl
  | cast r operand =>
    rw [certainTypeAs?] at hs
    rw [eq_of_known? hs]
    exact .inl rfl
  | field receiver x =>
    rw [certainTypeAs?] at hs
    obtain ⟨owner, howner, hs⟩ := Option.bind_eq_some_iff.mp hs
    obtain ⟨r, hr, hrknown⟩ := Option.bind_eq_some_iff.mp howner
    obtain rfl := eq_of_known? hrknown
    obtain ⟨f, hf, hfknown⟩ := Option.bind_eq_some_iff.mp hs
    obtain rfl := eq_of_known? hfknown
    rw [structuralWith?]
    -- the owner is a receiver, too; it is typed as a value, in which only a name makes a difference
    rcases typeWith?_of_receiver (c.initialType? ctx ctx.localCount) hr with
      htype | ⟨n, g, rfl, hobscures, htype⟩
    · left
      rw [htype, Option.bind_some, hf, Option.some_or]
    · right
      rw [htype, Option.bind_some]
      exact .member hobscures
  | call receiver n args =>
    left
    rw [certainTypeAs?_call] at hs
    obtain ⟨r, hcall, hs⟩ := Option.bind_eq_some_iff.mp hs
    obtain ⟨u, hu, huknown⟩ := Option.bind_eq_some_iff.mp hs
    obtain rfl := eq_of_known? huknown
    rw [structuralWith?, hcall, Option.bind_some, hu, Option.some_or]
  | _ => exact absurd hs (by simp [certainTypeAs?])

end Codebase

/-! ## A field that is called like a type

`Sub` inherits a field `Printer` of type `Other`, and there is a class `Printer`. -/

namespace Sample

/-- A class whose method calls a method on the inherited field, and one that has the name of it. -/
def obscuring : Codebase where
  units := [⟨"Obscuring.java", none, [], none⟩]
  types :=
    [{ classDecl "Base" [] [] with fields := [⟨"Printer", .simple "Other", false, false, []⟩] },
     classDecl "Sub" [.simple "Base"] [method "go" [call (some (.name "Printer")) "run"]],
     classDecl "Printer" [] [method "run" []],
     classDecl "Other" [] [method "run" []]]
  catalog := .empty

end Sample

namespace Codebase

/-- With `this` in front there is no doubt. -/
theorem certain_receiver_agrees_sample :
    (Sample.obscuring.certainReceiverType? (Sample.obscuring.context ⟨⟨1⟩, 0⟩ 0)
        (.field .this "Printer")).map TypeInfo.name = some "Other" ∧
      (Sample.obscuring.structuralType? (Sample.obscuring.context ⟨⟨1⟩, 0⟩ 0)
        (.field .this "Printer")).map TypeInfo.name = some "Other" := by
  have hname : (Sample.obscuring.certainReceiverType? (Sample.obscuring.context ⟨⟨1⟩, 0⟩ 0)
      (.field .this "Printer")).map TypeInfo.name = some "Other" := by decide +kernel
  refine ⟨hname, ?_⟩
  obtain ⟨t, ht, htname⟩ := Option.map_eq_some_iff.mp hname
  rcases certain_receiver_agrees ht with hagrees | hdisagrees
  · rw [hagrees, Option.map_some, htname]
  · exact nomatch hdisagrees

/-- **A receiver with two types.**  `Printer.run()` in `Sub` means a method of the class for certain
resolution, and one of the type of the field for inference. -/
theorem certain_receiver_disagrees_sample :
    ¬∀ (c : Codebase) (m : MethodRef) (s : CallSite) (e : Expr) (t : TypeInfo),
      s ∈ c.callSites m → s.call.receiver = some e →
      c.certainReceiverType? (c.context m s.scope) e = some t →
        ∃ u, c.structuralType? (c.context m s.scope) e = some u ∧ u.name = t.name := by
  intro h
  have hcertain : (Sample.obscuring.certainReceiverType? (Sample.obscuring.context ⟨⟨1⟩, 0⟩ 0)
      (.name "Printer")).map TypeInfo.name = some "Printer" := by decide +kernel
  have hstructural : (Sample.obscuring.structuralType? (Sample.obscuring.context ⟨⟨1⟩, 0⟩ 0)
      (.name "Printer")).map TypeInfo.name = some "Other" := by decide +kernel
  obtain ⟨t, ht, htname⟩ := Option.map_eq_some_iff.mp hcertain
  obtain ⟨u, hu, hname⟩ := h Sample.obscuring ⟨⟨1⟩, 0⟩ (Sample.call (some (.name "Printer")) "run")
    (.name "Printer") t (List.mem_singleton_self _) rfl ht
  change Sample.obscuring.structuralType? (Sample.obscuring.context ⟨⟨1⟩, 0⟩ 0)
    (.name "Printer") = some u at hu
  rw [hu, Option.map_some, hname, htname] at hstructural
  exact absurd hstructural (by decide)

end Codebase

end JavaCallGraph

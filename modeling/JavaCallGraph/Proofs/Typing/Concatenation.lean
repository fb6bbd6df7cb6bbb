import JavaCallGraph.Proofs.Typing.Agreement
import Mathlib.Data.List.Induction

/-!
# When a sum is a string

The operands of `e₁ + e₂ + … + eₙ` are added from left to right.  A string literal makes a sum a string
whatever the other operand is.  Any other operand that is a string does so only if the other operand has
a type, because without one the sum has no type.  So a string that comes in somewhere is lost at the next
operand without a type, and comes back with the next literal.

* `Codebase.isString_add_iff` — when a sum of two operands is a string;
* `Codebase.Concatenates` — the places at which a string can come into a sum and reach its end;
* `Codebase.sum_is_string_iff` — a sum is a string exactly then;
* `Codebase.sum_loses_string_sample` — a sum with a string that is none.
-/

set_option autoImplicit false

namespace JavaCallGraph

/-- The sum of several operands, added from left to right. -/
def Expr.sum (e : Expr) (es : List Expr) : Expr := es.foldl (.binary .add) e

namespace Expr

theorem sum_append (e : Expr) (es fs : List Expr) : e.sum (es ++ fs) = (e.sum es).sum fs :=
  List.foldl_append

theorem sum_concat (e : Expr) (es : List Expr) (x : Expr) :
    e.sum (es ++ [x]) = .binary .add (e.sum es) x :=
  e.sum_append es [x]

/-- A sum is no literal unless it is one operand. -/
theorem eq_nil_of_sum_isStringLiteral {e : Expr} {es : List Expr}
    (h : (e.sum es).isStringLiteral = true) : es = [] ∧ e.isStringLiteral = true := by
  cases es using List.reverseRecOn with
  | nil => exact ⟨rfl, h⟩
  | append_singleton es x => rw [sum_concat] at h; exact absurd h (by simp [isStringLiteral])

end Expr

namespace Codebase

variable {c : Codebase} {ctx : ExprContext}

/-- The expression has a type. -/
def Typed (c : Codebase) (ctx : ExprContext) (e : Expr) : Prop := ∃ t, c.typeOf? ctx e = some t

/-- The expression is typed as a string. -/
def IsString (c : Codebase) (ctx : ExprContext) (e : Expr) : Prop :=
  ∃ t, c.typeOf? ctx e = some t ∧ t.name = stringName

theorem IsString.typed {e : Expr} (h : c.IsString ctx e) : c.Typed ctx e := h.imp fun _ => And.left

/-! ## Two operands -/

theorem typeOf?_add (l r : Expr) :
    c.typeOf? ctx (.binary .add l r) =
      if l.isStringLiteral || r.isStringLiteral then some (c.typeInfo stringName)
      else (c.typeOf? ctx l).bind fun lt => (c.typeOf? ctx r).bind fun rt =>
        c.arithmeticType? .add lt rt := by
  rw [typeOf?_eq_typeWith?, typeOf?_eq_typeWith?, typeOf?_eq_typeWith?, typeWith?_eq_or,
    structuralWith?]
  rfl

theorem arithmeticType?_add (l r : TypeInfo) :
    c.arithmeticType? .add l r =
      ((Primitive.promote l.name r.name).map TypeInfo.primitive).or
        (if l.name = stringName ∨ r.name = stringName then some (c.typeInfo stringName) else none) := by
  have hshift : BinaryOp.add.isShift = false := rfl
  cases hp : Primitive.promote l.name r.name <;>
    simp [arithmeticType?, BinaryOp.isBitwise, hshift, hp]

/-- A string is not promoted. -/
theorem promote_eq_none {l r : String} (h : l = stringName ∨ r = stringName) :
    Primitive.promote l r = none := by
  have hnone : Primitive.unboxed? stringName = none := by decide
  rw [Primitive.promote]
  rcases h with rfl | rfl
  · rw [hnone]
  · rw [hnone]
    cases Primitive.unboxed? l <;> rfl

theorem arithmeticType?_add_of_string {l r : TypeInfo}
    (h : l.name = stringName ∨ r.name = stringName) :
    c.arithmeticType? .add l r = some (c.typeInfo stringName) := by
  rw [arithmeticType?_add, promote_eq_none h, Option.map_none, Option.none_or, if_pos h]

theorem string_of_arithmeticType?_add {l r t : TypeInfo} (h : c.arithmeticType? .add l r = some t)
    (ht : t.name = stringName) : l.name = stringName ∨ r.name = stringName := by
  rw [arithmeticType?_add] at h
  cases hp : Primitive.promote l.name r.name with
  | some p =>
    rw [hp, Option.map_some, Option.some_or, Option.some.injEq] at h
    rw [← h] at ht
    cases p <;> exact absurd ht (by decide)
  | none =>
    rw [hp, Option.map_none, Option.none_or] at h
    by_contra hno
    rw [if_neg hno] at h
    exact nomatch h

/-- A sum of two operands that is a string has the type of string literals. -/
theorem isString_add {l r : Expr} :
    c.IsString ctx (.binary .add l r) ↔
      c.typeOf? ctx (.binary .add l r) = some (c.typeInfo stringName) := by
  refine ⟨fun ⟨t, ht, hname⟩ => ?_, fun h => ⟨_, h, c.name_typeInfo stringName⟩⟩
  rw [typeOf?_add] at ht ⊢
  split at ht
  · next hl => rw [if_pos hl]
  · next hl =>
    obtain ⟨lt, hlt, ht⟩ := Option.bind_eq_some_iff.mp ht
    obtain ⟨rt, hrt, ht⟩ := Option.bind_eq_some_iff.mp ht
    rw [if_neg hl, hlt, Option.bind_some, hrt, Option.bind_some]
    exact arithmeticType?_add_of_string (string_of_arithmeticType?_add ht hname)

/-- **A sum of two operands is a string** if one of them is a string literal, or if both have types and
one of them is a string. -/
theorem isString_add_iff {l r : Expr} :
    c.IsString ctx (.binary .add l r) ↔
      (l.isStringLiteral = true ∨ r.isStringLiteral = true) ∨
        (c.Typed ctx l ∧ c.Typed ctx r ∧ (c.IsString ctx l ∨ c.IsString ctx r)) := by
  rw [IsString, typeOf?_add]
  by_cases hlit : l.isStringLiteral = true ∨ r.isStringLiteral = true
  · simp [hlit, c.name_typeInfo stringName]
  simp only [Bool.or_eq_true, hlit, if_false, false_or]
  constructor
  · rintro ⟨t, ht, hname⟩
    obtain ⟨lt, hlt, ht⟩ := Option.bind_eq_some_iff.mp ht
    obtain ⟨rt, hrt, ht⟩ := Option.bind_eq_some_iff.mp ht
    refine ⟨⟨lt, hlt⟩, ⟨rt, hrt⟩, ?_⟩
    exact (string_of_arithmeticType?_add ht hname).imp (⟨lt, hlt, ·⟩) (⟨rt, hrt, ·⟩)
  · rintro ⟨⟨lt, hlt⟩, ⟨rt, hrt⟩, hstring⟩
    refine ⟨c.typeInfo stringName, ?_, c.name_typeInfo stringName⟩
    rw [hlt, Option.bind_some, hrt, Option.bind_some]
    refine arithmeticType?_add_of_string (hstring.imp ?_ ?_)
    · rintro ⟨t, ht, hname⟩
      rwa [Option.some.inj (hlt.symm.trans ht)]
    · rintro ⟨t, ht, hname⟩
      rwa [Option.some.inj (hrt.symm.trans ht)]

/-! ## Several operands -/

/-- **A string comes into the sum `e + es` and reaches its end**: all operands behind `x`, the one at
which it comes in, have types. -/
inductive Concatenates (c : Codebase) (ctx : ExprContext) : Expr → List Expr → Prop
  /-- The first operand is a literal; the second one need not have a type. -/
  | firstLiteral {e x : Expr} {post : List Expr} (hfirst : e.isStringLiteral = true)
    (hpost : ∀ y ∈ post, c.Typed ctx y) : Concatenates c ctx e (x :: post)
  /-- The first operand is a string. -/
  | first {e x : Expr} {post : List Expr} (hfirst : c.IsString ctx e) (hx : c.Typed ctx x)
    (hpost : ∀ y ∈ post, c.Typed ctx y) : Concatenates c ctx e (x :: post)
  /-- A later operand is a literal; the operands before it need not have types. -/
  | literal {e x : Expr} {pre post : List Expr} (hx : x.isStringLiteral = true)
    (hpost : ∀ y ∈ post, c.Typed ctx y) : Concatenates c ctx e (pre ++ x :: post)
  /-- A later operand is a string, and the sum of the operands before it has a type. -/
  | operand {e x : Expr} {pre post : List Expr} (hpre : c.Typed ctx (e.sum pre))
    (hx : c.IsString ctx x) (hpost : ∀ y ∈ post, c.Typed ctx y) :
    Concatenates c ctx e (pre ++ x :: post)

/-- A string in a sum is still there after a further operand with a type. -/
theorem Concatenates.concat {e y : Expr} {es : List Expr} (h : c.Concatenates ctx e es)
    (hy : c.Typed ctx y) : c.Concatenates ctx e (es ++ [y]) := by
  have hbehind {post : List Expr} (hpost : ∀ z ∈ post, c.Typed ctx z) :
      ∀ z ∈ post ++ [y], c.Typed ctx z := by
    simpa [or_imp, forall_and] using ⟨hpost, hy⟩
  cases h with
  | firstLiteral hfirst hpost => exact .firstLiteral hfirst (hbehind hpost)
  | first hfirst hx hpost => exact .first hfirst hx (hbehind hpost)
  | literal hx hpost =>
    rw [List.append_assoc, List.cons_append]
    exact .literal hx (hbehind hpost)
  | operand hpre hx hpost =>
    rw [List.append_assoc, List.cons_append]
    exact .operand hpre hx (hbehind hpost)

/-- A sum that is a string stays one when operands with types are added. -/
theorem IsString.sum {e : Expr} {es : List Expr} (h : c.IsString ctx e)
    (hes : ∀ y ∈ es, c.Typed ctx y) : c.IsString ctx (e.sum es) := by
  induction es generalizing e with
  | nil => exact h
  | cons y es ih =>
    have hy : c.Typed ctx y := hes y List.mem_cons_self
    exact ih (isString_add_iff.mpr (.inr ⟨h.typed, hy, .inl h⟩))
      fun z hz => hes z (List.mem_cons_of_mem _ hz)

/-- A string that comes in at `x` reaches the end behind operands with types. -/
theorem IsString.sum_behind {e x : Expr} (pre : List Expr) {post : List Expr}
    (h : c.IsString ctx (.binary .add (e.sum pre) x)) (hpost : ∀ y ∈ post, c.Typed ctx y) :
    c.IsString ctx (e.sum (pre ++ x :: post)) := by
  rw [Expr.sum_append]
  change c.IsString ctx ((Expr.binary .add (e.sum pre) x).sum post)
  exact h.sum hpost

theorem Concatenates.isString {e : Expr} {es : List Expr} (h : c.Concatenates ctx e es) :
    c.IsString ctx (e.sum es) := by
  cases h with
  | firstLiteral hfirst hpost =>
    exact IsString.sum_behind [] (isString_add_iff.mpr (.inl (.inl hfirst))) hpost
  | first hfirst hx hpost =>
    exact IsString.sum_behind []
      (isString_add_iff.mpr (.inr ⟨hfirst.typed, hx, .inl hfirst⟩)) hpost
  | literal hx hpost => exact IsString.sum_behind _ (isString_add_iff.mpr (.inl (.inr hx))) hpost
  | operand hpre hx hpost =>
    exact IsString.sum_behind _ (isString_add_iff.mpr (.inr ⟨hpre, hx.typed, .inr hx⟩)) hpost

theorem concatenates_of_isString {e : Expr} {es : List Expr} (hes : es ≠ [])
    (h : c.IsString ctx (e.sum es)) : c.Concatenates ctx e es := by
  have hnone : ∀ y ∈ ([] : List Expr), c.Typed ctx y := fun y hy => absurd hy List.not_mem_nil
  -- the last operand is added to the sum of the others
  induction es using List.reverseRecOn with
  | nil => exact absurd rfl hes
  | append_singleton es y ih =>
    rw [Expr.sum_concat, isString_add_iff] at h
    obtain (hlit | hlit) | ⟨hsum, hy, hstring | hstring⟩ := h
    · obtain ⟨rfl, he⟩ := Expr.eq_nil_of_sum_isStringLiteral hlit
      exact .firstLiteral he hnone
    · exact .literal hlit hnone
    · by_cases hes : es = []
      · subst hes
        exact .first hstring hy hnone
      · exact (ih hes hstring).concat hy
    · exact .operand hsum hstring hnone

/-- **A sum is a string exactly when a string comes into it and reaches its end.** -/
theorem sum_is_string_iff (e x : Expr) (es : List Expr) :
    c.typeOf? ctx (e.sum (x :: es)) = some (c.typeInfo stringName) ↔
      c.Concatenates ctx e (x :: es) := by
  refine ⟨fun h => ?_, fun h => ?_⟩
  · exact concatenates_of_isString (List.cons_ne_nil x es) ⟨_, h, c.name_typeInfo stringName⟩
  · have hstring := h.isString
    obtain ⟨fs, y, hfs⟩ := (List.eq_nil_or_concat (x :: es)).resolve_left (List.cons_ne_nil x es)
    rw [hfs, List.concat_eq_append, Expr.sum_concat] at hstring ⊢
    exact isString_add.mp hstring

/-! ## A string that is lost

`("a" + null) + null` -/

/-- **A sum with a string that is none**: the second `null` has no type. -/
theorem sum_loses_string_sample :
    ¬∀ (c : Codebase) (ctx : ExprContext) (e x : Expr) (es : List Expr),
      (∃ y ∈ e :: x :: es, c.IsString ctx y) →
        c.typeOf? ctx (e.sum (x :: es)) = some (c.typeInfo stringName) := by
  intro h
  let c : Codebase := ⟨[], [], .empty⟩
  let ctx : ExprContext := ⟨⟨⟨0⟩, 0⟩, default, 0⟩
  have hnull : c.typeOf? ctx (.literal .null) = none := by decide +kernel
  have hstring : c.IsString ctx (.literal .string) := ⟨_, rfl, c.name_typeInfo stringName⟩
  have hsum := h c ctx (.literal .string) (.literal .null) [.literal .null]
    ⟨_, List.mem_cons_self, hstring⟩
  rw [Expr.sum, List.foldl_cons, List.foldl_cons, List.foldl_nil, typeOf?_add, hnull] at hsum
  simp [Expr.isStringLiteral] at hsum

end Codebase

end JavaCallGraph

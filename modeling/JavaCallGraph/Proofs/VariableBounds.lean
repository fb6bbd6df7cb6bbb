import JavaCallGraph.Proofs.Assembly
import Mathlib.Logic.Relation

/-!
# The bounds of type variables

The bounds of a type variable are written where the variable is declared, but they are resolved anew in
every scope in which the variable is used.  A declaration between the two places that takes a name out of a
bound changes what the variable is bounded by.  Nothing else does.

* `Codebase.MentionsBound` — a name that is written in a bound of a variable.
* `Codebase.Keeps` — what stands between a scope and a type around it leaves a name its meaning.
* `Codebase.qualifyNameAt_congr` — a name is resolved through the names in its bounds alone, over any
  number of variables.
* `Codebase.variable_keeps_bounds` — hence the main statement, `Codebase.BoundsKept`.
* `Codebase.captured_bounds_sample` — a type parameter of a method that captures a bound.
-/

set_option autoImplicit false

namespace JavaCallGraph

/-- The simple name that a dotted name begins with. -/
def headName (n : String) : String := ((Text.splitFirst? '.' n).map Prod.fst).getD n

namespace Codebase

/-- What the body of a type means by a simple name if nothing further inside takes it: a type nested in it,
or the type itself. -/
def inside? (c : Codebase) (t : TypeId) (name : String) : Option TypeInfo :=
  (c.known? ((c.decl t).qualifiedName ++ "$" ++ name)).or
    (if (c.decl t).name == name then some (c.sourceType t) else none)

/-- A bound of the variable `n` is written with the name `m`. -/
def MentionsBound (c : Codebase) (scope : TypeScope) (n m : String) : Prop :=
  ∃ p, c.typeParam? scope n = some p ∧ ∃ r ∈ p.bounds, m ∈ r.names

/-- **What stands between a scope and a type around it leaves a name its meaning**: whatever goes by the
name there is what the outer type means by it as well.  If nothing goes by it, that is so. -/
structure Keeps (c : Codebase) (owner : TypeId) (between : List TypeId) (scope : TypeScope)
    (n : String) : Prop where
  /-- The type parameters of the method. -/
  params : ∀ p, (scope.params.find? fun p => p.name == n) = some p →
    c.typeParam? (c.typeScope owner) n = some p
  /-- The type parameters of the types between. -/
  typeParams : ∀ t ∈ between, ∀ p, ((c.decl t).typeParams.find? fun p => p.name == n) = some p →
    c.typeParam? (c.typeScope owner) n = some p
  /-- These types and the types nested in them, unless the name is that of a variable anyway. -/
  types : c.typeParam? (c.typeScope owner) n = none → ∀ t ∈ between, ∀ u,
    c.inside? t (headName n) = some u → c.lookupAround? (headName n) owner = some u

variable {c : Codebase} {owner : TypeId} {between : List TypeId} {scope : TypeScope} {n : String}

/-- A name that is declared nowhere between keeps its meaning. -/
theorem keeps_of_absent (hparams : (scope.params.find? fun p => p.name == n) = none)
    (hbetween : ∀ t ∈ between, ((c.decl t).typeParams.find? fun p => p.name == n) = none ∧
      c.inside? t (headName n) = none) : c.Keeps owner between scope n where
  params p hp := absurd (hparams.symm.trans hp) (by simp)
  typeParams t ht p hp := absurd ((hbetween t ht).1.symm.trans hp) (by simp)
  types _ t ht u hu := absurd ((hbetween t ht).2.symm.trans hu) (by simp)

/-! ## The same meaning in two scopes -/

/-- What is found first is found behind, if all that is found before is. -/
theorem findSome?_append_eq_right {α β : Type} {f : α → Option β} {xs ys : List α}
    (h : ∀ x ∈ xs, ∀ u, f x = some u → ys.findSome? f = some u) :
    (xs ++ ys).findSome? f = ys.findSome? f := by
  rw [List.findSome?_append]
  cases hx : xs.findSome? f with
  | none => rfl
  | some u =>
    obtain ⟨x, hmem, hu⟩ := List.exists_of_findSome?_eq_some hx
    exact (h x hmem u hu).symm

theorem typeParam?_typeScope {owner : TypeId} {n : String} (hn : isDotted n = false) :
    c.typeParam? (c.typeScope owner) n =
      (c.enclosing owner).findSome? fun t => (c.decl t).typeParams.find? fun p => p.name == n := by
  have henclosing : ∃ ts, c.enclosing owner = owner :: ts := by
    rw [enclosing]
    exact ⟨_, rfl⟩
  obtain ⟨ts, hts⟩ := henclosing
  rw [typeParam?, hn, if_neg (by simp), typeScope, hts, List.findSome?_cons]
  cases (c.decl owner).typeParams.find? fun p => p.name == n <;> rfl

theorem Keeps.typeParam?_eq (h : c.Keeps owner between scope n)
    (haround : c.enclosing scope.type = between ++ c.enclosing owner) :
    c.typeParam? scope n = c.typeParam? (c.typeScope owner) n := by
  cases hn : isDotted n with
  | true => rw [typeParam?, typeParam?, hn, if_pos rfl, if_pos rfl]
  | false =>
    have hparams := h.params
    have htypes := h.typeParams
    rw [typeParam?_typeScope hn] at hparams htypes ⊢
    rw [typeParam?, hn, if_neg (by simp), haround, findSome?_append_eq_right htypes]
    cases hp : scope.params.find? fun p => p.name == n with
    | none => rfl
    | some p => exact (hparams p hp).symm

theorem lookupSimple?_congr {context context' : TypeId} (hunit : c.unitOf context = c.unitOf context')
    (haround : c.lookupAround? n context = c.lookupAround? n context') :
    c.lookupSimple? n context = c.lookupSimple? n context' := by
  simp only [lookupSimple?, lookupImported?, lookupOnDemand?, inPackageOf, importsOf, packageOf, hunit,
    haround]

/-- A name is looked up through the types around and the head of the file alone. -/
theorem qualifyName_congr {scope' : TypeScope} (hunit : c.unitOf scope.type = c.unitOf scope'.type)
    (haround : c.lookupAround? (headName n) scope.type = c.lookupAround? (headName n) scope'.type) :
    c.qualifyName scope n = c.qualifyName scope' n := by
  have hlookup : c.lookup? n scope.type = c.lookup? n scope'.type := by
    rw [headName] at haround
    rw [lookup?, lookup?]
    cases hsplit : Text.splitFirst? '.' n with
    | none =>
      rw [hsplit] at haround
      exact lookupSimple?_congr hunit haround
    | some d =>
      rw [hsplit] at haround
      exact congrArg (fun o => (c.knownDotted? n).or (Option.bind o _))
        (lookupSimple?_congr hunit haround)
  rw [qualifyName, qualifyName, hlookup]
  simp only [inPackageOf, packageOf, hunit]

theorem Keeps.qualifyName_eq (h : c.Keeps owner between scope n)
    (haround : c.enclosing scope.type = between ++ c.enclosing owner)
    (hunit : c.unitOf scope.type = c.unitOf owner)
    (hn : c.typeParam? (c.typeScope owner) n = none) :
    c.qualifyName scope n = c.qualifyName (c.typeScope owner) n := by
  refine qualifyName_congr hunit ?_
  rw [lookupAround?, haround]
  exact findSome?_append_eq_right (h.types hn)

/-! ## Bounds -/

theorem qualifyWith_congr {f g : String → TypeInfo} {r : TypeRef} (h : ∀ n ∈ r.names, f n = g n) :
    c.qualifyWith f r = c.qualifyWith g r := by
  fun_induction qualifyWith c f r with
  | case4 bound ih => exact ih h
  | case6 t ih => exact congrArg TypeInfo.array (ih h)
  | case7 n args => exact h n (by simp [TypeRef.names])
  | _ => rfl

/-- **A name is resolved through the names in its bounds alone.**  By induction on the depth, the bounds of
a variable lead to further names. -/
theorem qualifyNameAt_congr {scope' : TypeScope} (depth : Nat)
    (hsame : ∀ m, Relation.ReflTransGen (c.MentionsBound scope') n m →
      c.typeParam? scope m = c.typeParam? scope' m ∧
        (c.typeParam? scope' m = none → c.qualifyName scope m = c.qualifyName scope' m)) :
    c.qualifyNameAt scope depth n = c.qualifyNameAt scope' depth n := by
  have hn := hsame n .refl
  induction depth generalizing n with
  | zero =>
    rw [qualifyNameAt, qualifyNameAt, hn.1]
    cases hp : c.typeParam? scope' n with
    | none => exact hn.2 hp
    | some p => rfl
  | succ depth ih =>
    rw [qualifyNameAt, qualifyNameAt, hn.1]
    cases hp : c.typeParam? scope' n with
    | none => exact hn.2 hp
    | some p =>
      refine congrArg (TypeInfo.typeVar p.name) (List.map_congr_left fun r hr => ?_)
      refine qualifyWith_congr fun m hm => ?_
      have hmention : c.MentionsBound scope' n m := ⟨p, hp, r, hr, hm⟩
      exact ih (fun k hk => hsame k (hk.head hmention)) (hsame m (.single hmention))

/-! ## The main statement -/

/-- **A type variable has the bounds of its declaration**, in a scope inside the owner of the declaration. -/
structure BoundsKept (c : Codebase) (owner : TypeId) (scope : TypeScope) (p : TypeParam) : Prop where
  /-- It is the variable that it is in the scope of the owner. -/
  same : c.qualify scope (.simple p.name) = c.qualify (c.typeScope owner) (.simple p.name)
  /-- Its bounds are resolved in the scope of the owner, one level less deep than itself. -/
  bounds : c.qualify scope (.simple p.name) = .typeVar p.name
    (p.bounds.map (c.qualifyWith (c.qualifyNameAt (c.typeScope owner) (boundDepth - 1))))
  /-- The depth makes no difference to bounds that are no variables. -/
  plain : (∀ m, c.MentionsBound (c.typeScope owner) p.name m →
      c.typeParam? (c.typeScope owner) m = none) →
    c.qualify scope (.simple p.name) =
      .typeVar p.name (p.bounds.map (c.qualify (c.typeScope owner)))

theorem qualify_of_typeParam? {p : TypeParam} (h : c.typeParam? scope n = some p) :
    c.qualify scope (.simple n) =
      .typeVar p.name (p.bounds.map (c.qualifyWith (c.qualifyNameAt scope (boundDepth - 1)))) := by
  show c.qualifyNameAt scope boundDepth n = _
  rw [boundDepth, qualifyNameAt, h]

theorem qualifyNameAt_of_plain (h : c.typeParam? scope n = none) (depth : Nat) :
    c.qualifyNameAt scope depth n = c.qualifyName scope n := by
  simp only [qualifyNameAt.eq_def, h]

/-- **A type variable keeps its bounds** wherever all names keep their meaning that its bounds are written
with, and those that the bounds of the variables among them are. -/
theorem variable_keeps_bounds (h : c.WellFormed) {p : TypeParam}
    (haround : c.enclosing scope.type = between ++ c.enclosing owner)
    (hp : c.typeParam? (c.typeScope owner) p.name = some p)
    (hkeeps : ∀ m, Relation.ReflTransGen (c.MentionsBound (c.typeScope owner)) p.name m →
      c.Keeps owner between scope m) : c.BoundsKept owner scope p := by
  have howner : owner ∈ c.enclosing scope.type := by
    rw [haround, h.enclosing_eq owner]
    simp
  have hunit : c.unitOf scope.type = c.unitOf owner := (h.unitOf_eq_of_mem_enclosing howner).symm
  have hsame : c.qualify scope (.simple p.name) = c.qualify (c.typeScope owner) (.simple p.name) := by
    refine qualifyNameAt_congr boundDepth fun m hm => ?_
    exact ⟨(hkeeps m hm).typeParam?_eq haround, (hkeeps m hm).qualifyName_eq haround hunit⟩
  have hbounds := hsame.trans (qualify_of_typeParam? hp)
  refine ⟨hsame, hbounds, fun hplain => hbounds.trans ?_⟩
  refine congrArg (TypeInfo.typeVar p.name) (List.map_congr_left fun r hr => ?_)
  refine qualifyWith_congr fun m hm => ?_
  have hvariable := hplain m ⟨p, hp, r, hr, hm⟩
  rw [qualifyNameAt_of_plain hvariable, qualifyNameAt_of_plain hvariable]

end Codebase

/-! ## Captured bounds

The parameter of `D` is bounded by the class `Foo`.  A method of `D` and the class `In` inside `D` have a
type parameter of that name, and in `Mem` there is another class `Foo`; in `Free` there is nothing of the
kind. -/

namespace Sample

/-- A method with a parameter of type `T`. -/
def takesT (name : String) (typeParams : List TypeParam) : Syntax.Member :=
  .method ⟨⟨[], []⟩, typeParams, .void, name, [⟨"t", .simple "T", false⟩], 1, 1⟩ []

/-- A class with type parameters. -/
def genericTree (name : String) (typeParams : List TypeParam) (members : List Syntax.Member) :
    Syntax.TypeTree :=
  .mk ⟨⟨[], []⟩, .plainClass, name, typeParams, [], [], [], 1⟩ members

/-- The file with the two classes. -/
def captureFile : SourceTree :=
  ⟨"D.java", none, ⟨[.package "demo", .type (genericTree "Foo" [] []),
    .type (genericTree "D" [⟨"T", [.simple "Foo"]⟩]
      [takesT "m" [⟨"Foo", []⟩],
       .type (genericTree "In" [⟨"Foo", []⟩] [takesT "k" []]),
       .type (genericTree "Mem" [] [.type (genericTree "Foo" [] []), takesT "h" []]),
       .type (genericTree "Free" [⟨"U", []⟩] [takesT "own" [⟨"V", []⟩]])])]⟩⟩

/-- The two classes and the five inside them. -/
def captures : Codebase := .assemble true .empty ([captureFile].map SourceTree.lower)

theorem captures_wellFormed : captures.WellFormed :=
  Codebase.WellFormed.assemble_lower true .empty [captureFile]

end Sample

namespace Codebase

/-- In the class `Free` the variable keeps its bound. -/
theorem variable_keeps_bounds_sample :
    Sample.captures.qualify (Sample.captures.methodScope ⟨⟨5⟩, 0⟩) (.simple "T") =
      .typeVar "T" [.source ⟨0⟩ "demo.Foo"] := by
  have haround : Sample.captures.enclosing (Sample.captures.methodScope ⟨⟨5⟩, 0⟩).type =
      [⟨5⟩] ++ Sample.captures.enclosing ⟨1⟩ := by with_unfolding_all rfl
  have hvariable : Sample.captures.typeParam? (Sample.captures.typeScope ⟨1⟩) "T" =
      some ⟨"T", [.simple "Foo"]⟩ := by with_unfolding_all rfl
  have hclass : Sample.captures.typeParam? (Sample.captures.typeScope ⟨1⟩) "Foo" = none := by
    with_unfolding_all rfl
  have habsent : ∀ m ∈ ["T", "Foo"],
      Sample.captures.Keeps ⟨1⟩ [⟨5⟩] (Sample.captures.methodScope ⟨⟨5⟩, 0⟩) m := by
    intro m hm
    refine keeps_of_absent ?_ fun t ht => ?_
    · revert m
      decide +kernel
    · rw [List.mem_singleton.mp ht, ← Option.isNone_iff_eq_none, ← Option.isNone_iff_eq_none]
      revert m
      decide +kernel
  -- the bound of `T` is written with `Foo`, and that is no variable
  have hfirst : ∀ m, Sample.captures.MentionsBound (Sample.captures.typeScope ⟨1⟩) "T" m →
      m = "Foo" := by
    rintro m ⟨p, hp, r, hr, hm⟩
    rw [← Option.some.inj (hvariable.symm.trans hp)] at hr
    rw [List.mem_singleton.mp hr] at hm
    exact List.mem_singleton.mp hm
  have hlast : ∀ m, ¬Sample.captures.MentionsBound (Sample.captures.typeScope ⟨1⟩) "Foo" m := by
    rintro m ⟨p, hp, -⟩
    exact absurd (hclass.symm.trans hp) (by simp)
  have hkept : Sample.captures.BoundsKept ⟨1⟩ (Sample.captures.methodScope ⟨⟨5⟩, 0⟩)
      ⟨"T", [.simple "Foo"]⟩ := by
    refine variable_keeps_bounds Sample.captures_wellFormed haround hvariable fun m hm => habsent m ?_
    obtain rfl | ⟨k, hk, hkm⟩ := Relation.ReflTransGen.cases_head hm
    · simp
    · rw [hfirst k hk] at hkm
      obtain rfl | ⟨j, hj, -⟩ := Relation.ReflTransGen.cases_head hkm
      · simp
      · exact absurd hj (hlast j)
  refine (hkept.plain fun m hm => ?_).trans (by with_unfolding_all rfl)
  rw [hfirst m hm]
  exact hclass

/-- **Bounds are captured** by a type parameter of a method, by one of a class and by a nested class. -/
theorem captured_bounds_sample :
    (¬∀ (c : Codebase) (owner : TypeId) (between : List TypeId) (scope : TypeScope) (p : TypeParam),
      c.WellFormed → c.enclosing scope.type = between ++ c.enclosing owner →
      p ∈ (c.decl owner).typeParams →
      c.typeParam? (c.typeScope owner) p.name = some p →
      (scope.params.find? fun q => q.name == p.name) = none →
      (∀ t ∈ between, ((c.decl t).typeParams.find? fun q => q.name == p.name) = none) →
      c.qualify scope (.simple p.name) = c.qualify (c.typeScope owner) (.simple p.name)) ∧
    Sample.captures.qualify (Sample.captures.methodScope ⟨⟨1⟩, 0⟩) (.simple "T") =
      .typeVar "T" [.typeVar "Foo" []] ∧
    Sample.captures.qualify (Sample.captures.methodScope ⟨⟨2⟩, 0⟩) (.simple "T") =
      .typeVar "T" [.typeVar "Foo" []] ∧
    Sample.captures.qualify (Sample.captures.methodScope ⟨⟨3⟩, 0⟩) (.simple "T") =
      .typeVar "T" [.source ⟨4⟩ "demo.D$Mem$Foo"] := by
  have hmethod : Sample.captures.qualify (Sample.captures.methodScope ⟨⟨1⟩, 0⟩) (.simple "T") =
      .typeVar "T" [.typeVar "Foo" []] := by with_unfolding_all rfl
  have howner : Sample.captures.qualify (Sample.captures.typeScope ⟨1⟩) (.simple "T") =
      .typeVar "T" [.source ⟨0⟩ "demo.Foo"] := by with_unfolding_all rfl
  refine ⟨fun h => ?_, hmethod, by with_unfolding_all rfl, by with_unfolding_all rfl⟩
  have hsame := h Sample.captures ⟨1⟩ [] (Sample.captures.methodScope ⟨⟨1⟩, 0⟩)
    ⟨"T", [.simple "Foo"]⟩ Sample.captures_wellFormed rfl (List.mem_singleton_self _)
    (by with_unfolding_all rfl) (by decide +kernel) fun t ht => absurd ht List.not_mem_nil
  rw [hmethod, howner] at hsame
  injection hsame with _ hbounds
  exact absurd (List.cons.inj hbounds).1 TypeInfo.noConfusion

end Codebase

end JavaCallGraph

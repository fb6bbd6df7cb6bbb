import JavaCallGraph.Graph.Session
import JavaCallGraph.Proofs.Graph.Target

/-!
# A declaration is found by its own identity

`Codebase.findDeclaration?` is generous: an identity may name its parameters as an overridden
declaration does, and among several methods that answer to it the best one is taken.  In general a
method need not be the one that its own identity means.  In an *unambiguous* code base it is, which
is the content of `Codebase.Unambiguous.findDeclaration?_methodId`: the type is found because it is
the only one of its name, the method answers to its identity because every type is a type of its own
name, and it beats every other candidate at the first parameter in which the two differ.

From this follows all that the traversal needs to know about identities:

* `Codebase.Unambiguous.eq_of_canonical_eq` — methods with the same written identity are the same;
* `Codebase.Unambiguous.declaration_of_key_eq` — a call that lands on the identity of a declared
  method lands on that method;
* `Session.declarationOf_methodId` — a requested text that is the written identity of a method means
  that method.
-/

set_option autoImplicit false

namespace JavaCallGraph

/-- **Nothing in the code base can be taken for something else.** -/
structure Codebase.Unambiguous (c : Codebase) : Prop where
  /-- No two types have the same canonical name. -/
  types : ∀ s ∈ c.typeIds, ∀ t ∈ c.typeIds,
    (c.decl s).qualifiedName = (c.decl t).qualifiedName → s = t
  /-- No two methods of a type have the same identity. -/
  methods : ∀ t ∈ c.typeIds, ∀ m ∈ c.methodsOf t, ∀ k ∈ c.methodsOf t,
    (c.methodId m).canonical = (c.methodId k).canonical → m = k
  /-- All names can be read back from an identity. -/
  names : ∀ n ∈ c.names, IsName n
  /-- No type variable is spelled like the canonical name of another type of a parameter. -/
  typeVariables : ∀ t ∈ c.typeIds, ∀ m ∈ c.methodsOf t, ∀ p ∈ c.paramTypes m,
    p.isVariable = false → p.name ∉ c.variableNames

instance (c : Codebase) : Decidable c.Unambiguous :=
  decidable_of_iff
    ((∀ s ∈ c.typeIds, ∀ t ∈ c.typeIds,
        (c.decl s).qualifiedName = (c.decl t).qualifiedName → s = t) ∧
      (∀ t ∈ c.typeIds, ∀ m ∈ c.methodsOf t, ∀ k ∈ c.methodsOf t,
        (c.methodId m).canonical = (c.methodId k).canonical → m = k) ∧
      (∀ n ∈ c.names, IsName n) ∧
      ∀ t ∈ c.typeIds, ∀ m ∈ c.methodsOf t, ∀ p ∈ c.paramTypes m,
        p.isVariable = false → p.name ∉ c.variableNames)
    ⟨fun ⟨h₁, h₂, h₃, h₄⟩ => ⟨h₁, h₂, h₃, h₄⟩, fun h => ⟨h.1, h.2, h.3, h.4⟩⟩

/-! ## The best candidate -/

namespace Fit

theorem compareFlags_self (b : Bool) : compareFlags b b = .eq := by cases b <;> rfl

theorem compareDistances_self (d : Option Nat) : compareDistances d d = .eq := by
  cases d with
  | none => rfl
  | some n => exact Nat.compare_eq_eq.mpr rfl

theorem compare_self (a : Fit) : a.compare a = .eq := by
  rw [compare, compareFlags_self, compareFlags_self, compareDistances_self]
  rfl

/-- A parameter of the right name is better than any other. -/
theorem compare_exact {a b : Fit} (ha : a.inexact = false) (hb : b.inexact = true) :
    a.compare b = .lt ∧ b.compare a = .gt := by
  rw [compare, compare, ha, hb]
  exact ⟨rfl, rfl⟩

end Fit

namespace Codebase

variable {c : Codebase}

section Rank

variable {α : Type} (compare : α → α → Ordering)

theorem rank_eq_append {x : α} {l : List α} (h : ∀ y ∈ l, compare x y = .lt) :
    rank compare x l = l ++ [x] := by
  induction l with
  | nil => rfl
  | cons y l ih =>
    rw [rank, if_pos (h y List.mem_cons_self), ih fun z hz => h z (List.mem_cons_of_mem _ hz)]
    rfl

theorem getLast?_rank {x y : α} {l : List α} (hl : l.getLast? = some x) (hy : compare y x ≠ .lt) :
    (rank compare y l).getLast? = some x := by
  induction l with
  | nil => exact absurd hl (by simp)
  | cons z l ih =>
    rw [rank]
    split
    · next hlt =>
      cases l with
      | nil =>
        -- the walk would go past the last element only if that were worse
        rw [List.getLast?_singleton, Option.some.injEq] at hl
        rw [hl] at hlt
        exact absurd hlt hy
      | cons w l =>
        rw [List.getLast?_cons_cons] at hl
        rw [List.getLast?_cons, ih hl, Option.getD_some]
    · rw [List.getLast?_cons_cons]
      exact hl

/-- **An element that is better than all others ends up last.** -/
theorem getLast?_foldl_rank {x : α} {l done : List α} (hxx : compare x x ≠ .lt)
    (hl : ∀ y ∈ l, y ≠ x → compare x y = .lt ∧ compare y x ≠ .lt)
    (hdone : (x ∈ l ∧ ∀ y ∈ done, compare x y = .lt) ∨ done.getLast? = some x) :
    (l.foldl (fun done k => rank compare k done) done).getLast? = some x := by
  classical
  induction l generalizing done with
  | nil => exact hdone.resolve_left fun h => absurd h.1 List.not_mem_nil
  | cons y l ih =>
    refine ih (fun z hz => hl z (List.mem_cons_of_mem _ hz)) ?_
    rcases hdone with ⟨hx, hlt⟩ | hlast
    · by_cases hyx : y = x
      · refine Or.inr ?_
        rw [hyx]
        exact (congrArg List.getLast? (rank_eq_append compare hlt)).trans List.getLast?_concat
      · have hxl : x ∈ l := (List.mem_cons.mp hx).resolve_left fun he => hyx he.symm
        refine Or.inl ⟨hxl, fun z hz => ?_⟩
        rcases (mem_rank compare).mp hz with rfl | hz
        · exact (hl _ List.mem_cons_self hyx).1
        · exact hlt z hz
    · refine Or.inr (getLast?_rank compare hlast ?_)
      by_cases hyx : y = x
      · rw [hyx]
        exact hxx
      · exact (hl y List.mem_cons_self hyx).2

end Rank

/-! ## Fitting one's own parameters -/

/-- The types that the names of some types stand for. -/
def namedTypes (c : Codebase) (ps : List TypeInfo) : List TypeInfo :=
  (ps.map TypeInfo.name).map c.typeInfo

theorem compareAll_self (fs : List Fit) : Fit.compareAll fs fs = .eq := by
  induction fs with
  | nil => rfl
  | cons f fs ih =>
    rw [Fit.compareAll, Fit.compare_self, ih]
    rfl

/-- **Nothing fits the names of some types as well as these types themselves**: the first name that
differs decides, and up to there the fits are the same. -/
theorem compareAll_own {ps qs : List TypeInfo} (hlen : qs.length = ps.length)
    (hvar : ∀ p ∈ ps, ∀ q ∈ qs, p.name = q.name → p.isVariable = q.isVariable)
    (hne : ps.map TypeInfo.name ≠ qs.map TypeInfo.name) :
    Fit.compareAll (ps.zipWith c.fit (c.namedTypes ps)) (qs.zipWith c.fit (c.namedTypes ps)) = .lt ∧
      Fit.compareAll (qs.zipWith c.fit (c.namedTypes ps)) (ps.zipWith c.fit (c.namedTypes ps)) =
        .gt := by
  induction ps generalizing qs with
  | nil => exact absurd (by rw [List.length_eq_zero_iff.mp hlen]) hne
  | cons p ps ih =>
    cases qs with
    | nil => exact absurd hlen (by simp)
    | cons q qs =>
      simp only [namedTypes, List.map_cons, List.zipWith_cons_cons, Fit.compareAll]
      by_cases hpq : p.name = q.name
      · have hfit : c.fit p (c.typeInfo p.name) = c.fit q (c.typeInfo p.name) := by
          rw [fit, fit, hpq, hvar p List.mem_cons_self q List.mem_cons_self hpq]
        rw [hfit, Fit.compare_self]
        refine ih (Nat.succ.inj hlen) ?_ ?_
        · exact fun r hr s hs => hvar r (List.mem_cons_of_mem _ hr) s (List.mem_cons_of_mem _ hs)
        · rw [List.map_cons, List.map_cons, hpq] at hne
          exact fun he => hne (congrArg _ he)
      · have hp : (c.fit p (c.typeInfo p.name)).inexact = false := by
          simp only [fit, name_typeInfo, bne_self_eq_false]
        have hq : (c.fit q (c.typeInfo p.name)).inexact = true := by
          simp only [fit, name_typeInfo, bne_iff_ne]
          exact fun he => hpq he.symm
        obtain ⟨hlt, hgt⟩ := Fit.compare_exact hp hq
        rw [hlt, hgt]
        exact ⟨rfl, rfl⟩

theorem isTypeOf_name (t : TypeInfo) : c.isTypeOf t t.name = true := by
  cases t with
  | typeVar n bounds => rfl
  | primitive p => exact beq_self_eq_true _
  | _ => simp [isTypeOf]

theorem length_paramTypes (m : MethodRef) :
    (c.paramTypes m).length = (c.method m).params.length :=
  List.length_map _

/-- **A method answers to an identity** if each of its own parameters fits the named type. -/
theorem mem_candidatesIn {t : TypeId} {id : MethodId} {m : MethodRef} (hm : m ∈ c.methodsOf t)
    (hname : (c.method m).name = id.name) (hlen : (c.paramTypes m).length = id.params.length)
    (hfits : ∀ (i : Nat) p n, (c.paramTypes m)[i]? = some p → id.params[i]? = some n →
      c.isTypeOf p n = true) : m ∈ c.candidatesIn t id := by
  refine List.mem_filter.mpr ⟨hm, ?_⟩
  simp only [isCompatible, link, Bool.and_eq_true, beq_iff_eq, List.all_eq_true, List.any_eq_true]
  refine ⟨hname, ⟨hname, by rw [← hlen, length_paramTypes]⟩, fun named hnamed => ?_⟩
  obtain ⟨n, i⟩ := named
  refine ⟨c.paramTypes m, List.mem_map_of_mem List.mem_cons_self, ?_⟩
  have hget := List.mk_mem_zipIdx_iff_getElem?.mp hnamed
  have hlt : i < (c.paramTypes m).length := by
    rw [hlen]
    exact (List.getElem?_eq_some_iff.mp hget).1
  simp only [List.getElem?_eq_getElem hlt]
  exact hfits i _ n (List.getElem?_eq_getElem hlt) hget

/-- **A method answers to its own identity.** -/
theorem mem_candidatesIn_methodId {m : MethodRef} (hm : c.Declared m) :
    m ∈ c.candidatesIn m.owner (c.methodId m) := by
  refine mem_candidatesIn hm rfl (List.length_map _).symm fun i p n hp hn => ?_
  rw [methodId, List.getElem?_map, hp] at hn
  rw [← Option.some.inj hn]
  exact isTypeOf_name p

theorem length_paramTypes_of_mem_candidatesIn {t : TypeId} {id : MethodId} {m : MethodRef}
    (h : m ∈ c.candidatesIn t id) : (c.paramTypes m).length = id.params.length := by
  have hcompat := (List.mem_filter.mp h).2
  simp only [isCompatible, link, Bool.and_eq_true, beq_iff_eq] at hcompat
  rw [length_paramTypes, hcompat.2.1.2]

theorem name_of_mem_candidatesIn {t : TypeId} {id : MethodId} {m : MethodRef}
    (h : m ∈ c.candidatesIn t id) : (c.method m).name = id.name := by
  have hcompat := (List.mem_filter.mp h).2
  rw [Bool.and_eq_true, beq_iff_eq] at hcompat
  exact hcompat.1

namespace Unambiguous

variable {m k : MethodRef}

theorem mem_typeIds (hm : c.Declared m) : m.owner ∈ c.typeIds :=
  List.mem_map.mpr ⟨m.owner.index, List.mem_range.mpr hm.owner_lt, rfl⟩

theorem obeys (h : c.Unambiguous) : c.Obeys IsName := ⟨.isName, h.names⟩

theorem isNamed (h : c.Unambiguous) (hm : c.Declared m) : (c.methodId m).IsNamed :=
  h.obeys.isNamed_methodId hm

theorem resolveType?_owner (h : c.Unambiguous) (hm : c.Declared m) :
    c.resolveType? (c.decl m.owner).qualifiedName = some m.owner := by
  cases hres : c.resolveType? (c.decl m.owner).qualifiedName with
  | none =>
    rw [resolveType?, Option.map_eq_none_iff, List.findIdx?_eq_none_iff] at hres
    have hself := hres _ (List.getElem_mem hm.owner_lt)
    rw [decl_eq_getElem hm.owner_lt, beq_self_eq_true] at hself
    exact absurd hself (by decide)
  | some t =>
    obtain ⟨hlt, hname⟩ := resolveType?_eq_some hres
    refine congrArg some (h.types _ ?_ _ (mem_typeIds hm) hname)
    exact List.mem_map.mpr ⟨t.index, List.mem_range.mpr hlt, rfl⟩

theorem isVariable_eq (h : c.Unambiguous) (hm : c.Declared m) (hk : c.Declared k) {p q : TypeInfo}
    (hp : p ∈ c.paramTypes m) (hq : q ∈ c.paramTypes k) (hn : p.name = q.name) :
    p.isVariable = q.isVariable := by
  have hpm := h.typeVariables _ (mem_typeIds hm) m hm p hp
  have hqk := h.typeVariables _ (mem_typeIds hk) k hk q hq
  cases hpv : p.isVariable <;> cases hqv : q.isVariable
  · rfl
  · exact absurd (hn ▸ (h.obeys.paramTypes hq).mem_variableNames hqv) (hpm hpv)
  · exact absurd (hn ▸ (h.obeys.paramTypes hp).mem_variableNames hpv) (hqk hqv)
  · rfl

/-- A method beats every other one that answers to its identity. -/
theorem compare_candidate (h : c.Unambiguous) (hm : c.Declared m)
    (hk : k ∈ c.candidatesIn m.owner (c.methodId m)) (hne : k ≠ m) :
    Fit.compareAll (c.fitsOf (c.namedTypes (c.paramTypes m)) m)
        (c.fitsOf (c.namedTypes (c.paramTypes m)) k) = .lt ∧
      Fit.compareAll (c.fitsOf (c.namedTypes (c.paramTypes m)) k)
        (c.fitsOf (c.namedTypes (c.paramTypes m)) m) = .gt := by
  have hmem := (List.mem_filter.mp hk).1
  have howner := (mem_methodsOf.mp hmem).1
  refine compareAll_own ?_ ?_ fun hparams => hne ?_
  · rw [length_paramTypes_of_mem_candidatesIn hk, methodId, List.length_map]
  · exact fun p hp q hq => h.isVariable_eq hm (declared_of_mem_methodsOf hmem) hp hq
  · refine h.methods _ (mem_typeIds hm) k hmem m hm (congrArg MethodId.canonical ?_)
    have hname : (c.method k).name = (c.method m).name := name_of_mem_candidatesIn hk
    rw [methodId, methodId, howner, hname, hparams]

theorem findIn?_methodId (h : c.Unambiguous) (hm : c.Declared m) :
    c.findIn? m.owner (c.methodId m) = some m := by
  have hmem := mem_candidatesIn_methodId hm
  rw [findIn?]
  split
  · next hnil =>
    rw [hnil] at hmem
    exact absurd hmem List.not_mem_nil
  · next k hk =>
    rw [hk, List.mem_singleton] at hmem
    rw [hmem]
  · rw [pickBest?, Option.map_eq_some_iff]
    refine ⟨(m, c.fitsOf (c.namedTypes (c.paramTypes m)) m), getLast?_foldl_rank _ ?_ ?_ ?_, rfl⟩
    · rw [compareAll_self]
      exact fun he => Ordering.noConfusion he
    · intro y hy hne
      obtain ⟨k, hk, rfl⟩ := List.mem_map.mp hy
      obtain ⟨hlt, hgt⟩ := h.compare_candidate hm hk fun he => hne (by rw [he]; rfl)
      exact ⟨hlt, fun he => Ordering.noConfusion (hgt.symm.trans he)⟩
    · exact Or.inl ⟨List.mem_map.mpr ⟨m, hmem, rfl⟩, fun y hy => absurd hy List.not_mem_nil⟩

/-- **A declared method is found by its own identity.** -/
theorem findDeclaration?_methodId (h : c.Unambiguous) (hm : c.Declared m) :
    c.findDeclaration? (c.methodId m) = some m := by
  have howner : c.resolveType? (c.methodId m).declaringType = some m.owner :=
    h.resolveType?_owner hm
  rw [findDeclaration?, howner, Option.bind_some, h.findIn?_methodId hm, Option.some_or]

/-! ## Identities -/

/-- **Methods with the same written identity are the same.** -/
theorem eq_of_canonical_eq (h : c.Unambiguous) (hm : c.Declared m) (hk : c.Declared k)
    (he : (c.methodId m).canonical = (c.methodId k).canonical) : m = k := by
  have hid := MethodId.eq_of_canonical_eq (h.isNamed hm) (h.isNamed hk) he
  have hfound := h.findDeclaration?_methodId hm
  rw [hid, h.findDeclaration?_methodId hk] at hfound
  exact (Option.some.inj hfound).symm

/-- **A call that lands on the identity of a method lands on the method.** -/
theorem declaration_of_key_eq (h : c.Unambiguous) {g : GraphConfig} (hm : c.Declared m)
    {t : CallTarget} (ht : t ∈ c.landings g m) (hk : c.Declared k)
    (he : t.key = (c.methodId k).canonical) : t.declaration = some k := by
  obtain ⟨s, hs, hst⟩ := mem_landings.mp ht
  have hlands := h.obeys.lands hm hs hst
  have hspelled := h.obeys.spelled_target hm hs hst
  have hid := MethodId.eq_of_canonical_eq hspelled.isNamed (h.isNamed hk) he
  cases hd : t.declaration with
  | none =>
    have hnone := hlands.undeclared hd
    rw [hid, h.findDeclaration?_methodId hk] at hnone
    exact absurd hnone (by simp)
  | some m' =>
    obtain ⟨hm', hid', -⟩ := hlands.declared m' hd
    refine congrArg some (h.eq_of_canonical_eq hm' hk ?_)
    rw [← hid', ← he]
    rfl

end Unambiguous

end Codebase

/-- **The written identity of a method means the method.** -/
theorem Session.declarationOf_methodId {s : Session} (h : s.index.code.Unambiguous) {m : MethodRef}
    (hm : s.index.code.Declared m) :
    s.declarationOf (s.index.code.methodId m).canonical = .ok m := by
  simp only [declarationOf, MethodId.parse, MethodId.parse?_canonical (h.isNamed hm),
    h.findDeclaration?_methodId hm, bind, Except.bind]

end JavaCallGraph

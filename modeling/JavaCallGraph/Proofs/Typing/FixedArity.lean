import JavaCallGraph.Proofs.Supertypes
import JavaCallGraph.Proofs.Typing.Acceptance
import JavaCallGraph.Proofs.Typing.Applicability

/-!
# Overloads of fixed and of variable arity

A call may fit one overload as it is written and another one only when its last arguments are taken to be
the elements of an array.  The choice between described overloads does not put the former first: all
applicable ones are compared, argument by argument.  This file says what that means for a call that fits
some overload as written.

* `Codebase.writtenOverloads`, `Codebase.expandedOverloads` — the two kinds of applicable overloads;
* `Codebase.selectWritten?` — the choice that there would be without the second kind;
* `Codebase.ExpansionsCount` — how the choice with the second kind compares to it.  An overload that
  needs expansion is beaten only argument by argument, like any other.  If it has as many parameters as
  there are arguments, then its array is compared, which does not accept the argument; so it beats every
  overload that takes an object there.
* `Codebase.chosen_among_expansions` — the main statement;
* `Codebase.not_fixed_arity_first_sample` — a call for which the two choices differ.
-/

set_option autoImplicit false

namespace JavaCallGraph

namespace Codebase

variable {c : Codebase} {args : List TypeInfo}

/-! ## The two choices -/

/-- The overloads that a call fits as written. -/
def writtenOverloads (c : Codebase) (start : TypeInfo) (name : String) (args : List TypeInfo) :
    List CompiledCandidate :=
  (c.compiledCandidates start name).filter fun k => c.takesAsWritten k.method args

/-- The overloads that need expansion. -/
def expandedOverloads (c : Codebase) (start : TypeInfo) (name : String) (args : List TypeInfo) :
    List CompiledCandidate :=
  (c.compiledCandidates start name).filter fun k => c.needsExpansion k.method args

/-- All overloads that are applicable. -/
def applicableOverloads (c : Codebase) (start : TypeInfo) (name : String) (args : List TypeInfo) :
    List CompiledCandidate :=
  (c.compiledCandidates start name).filter fun k => c.compiledApplicable k.method (args.map some)

/-- The choice without the overloads that need expansion. -/
def selectWritten? (c : Codebase) (start : TypeInfo) (name : String) (args : List TypeInfo) :
    Option CompiledCandidate :=
  c.selectAmong? ((c.compiledCandidates start name).filter fun k => !c.needsExpansion k.method args)
    (args.map some)

/-- One overload is more specific than another. -/
def Beats (c : Codebase) (args : List TypeInfo) (a b : CompiledCandidate) : Prop :=
  c.moreSpecific a.method b.method (args.map some) = true

variable {start : TypeInfo} {name : String} {k l : CompiledCandidate}

theorem mem_writtenOverloads : k ∈ c.writtenOverloads start name args ↔
    k ∈ c.compiledCandidates start name ∧ c.takesAsWritten k.method args = true :=
  List.mem_filter

theorem mem_expandedOverloads : k ∈ c.expandedOverloads start name args ↔
    k ∈ c.compiledCandidates start name ∧ c.needsExpansion k.method args = true :=
  List.mem_filter

/-- An applicable overload fits as written or needs expansion. -/
theorem mem_applicableOverloads : k ∈ c.applicableOverloads start name args ↔
    k ∈ c.writtenOverloads start name args ∨ k ∈ c.expandedOverloads start name args := by
  rw [mem_writtenOverloads, mem_expandedOverloads, ← and_or_left, applicableOverloads,
    List.mem_filter, needsExpansion]
  refine and_congr_right fun _ => ?_
  cases hw : c.takesAsWritten k.method args with
  | false => simp
  | true => simp [compiledApplicable_of_takesAsWritten hw]

theorem mem_applicableOverloads_of_written (h : k ∈ c.writtenOverloads start name args) :
    k ∈ c.applicableOverloads start name args := mem_applicableOverloads.mpr (Or.inl h)

theorem mem_applicableOverloads_of_expanded (h : k ∈ c.expandedOverloads start name args) :
    k ∈ c.applicableOverloads start name args := mem_applicableOverloads.mpr (Or.inr h)

/-- What needs expansion does not fit as written. -/
theorem not_mem_writtenOverloads (h : k ∈ c.expandedOverloads start name args) :
    k ∉ c.writtenOverloads start name args := by
  intro hw
  have hexpansion := (mem_expandedOverloads.mp h).2
  rw [needsExpansion, (mem_writtenOverloads.mp hw).2] at hexpansion
  exact absurd hexpansion (by simp)

theorem selectCompiled?_eq_only? (h : k ∈ c.writtenOverloads start name args) :
    c.selectCompiled? start name (args.map some) =
      only? (c.unbeaten (c.applicableOverloads start name args) (args.map some)) := by
  obtain ⟨hk, hw⟩ := mem_writtenOverloads.mp h
  rw [selectCompiled?_eq_selectAmong?]
  exact selectAmong?_eq_only? ⟨k, hk, compiledApplicable_of_takesAsWritten hw⟩

theorem selectWritten?_eq_only? (h : k ∈ c.writtenOverloads start name args) :
    c.selectWritten? start name args =
      only? (c.unbeaten (c.writtenOverloads start name args) (args.map some)) := by
  obtain ⟨hk, hw⟩ := mem_writtenOverloads.mp h
  have hstays : k ∈ (c.compiledCandidates start name).filter fun k => !c.needsExpansion k.method args :=
    List.mem_filter.mpr ⟨hk, by simp [needsExpansion, hw]⟩
  rw [selectWritten?, selectAmong?_eq_only? ⟨k, hstays, compiledApplicable_of_takesAsWritten hw⟩,
    List.filter_filter, writtenOverloads]
  congr 3
  funext l
  cases hl : c.takesAsWritten l.method args with
  | false => simp [needsExpansion, hl]
  | true => simp [needsExpansion, hl, compiledApplicable_of_takesAsWritten hl]

theorem nodup_writtenOverloads : (c.writtenOverloads start name args).Nodup :=
  (c.nodup_compiledCandidates start name).filter _

theorem nodup_applicableOverloads : (c.applicableOverloads start name args).Nodup :=
  (c.nodup_compiledCandidates start name).filter _

/-- No overload of the list is more specific than this one of them. -/
def IsBest (c : Codebase) (args : List TypeInfo) (ks : List CompiledCandidate)
    (k : CompiledCandidate) : Prop :=
  k ∈ ks ∧ ∀ l ∈ ks, ¬c.Beats args l k

theorem only?_unbeaten_eq_some_iff {ks : List CompiledCandidate} (h : ks.Nodup) :
    only? (c.unbeaten ks (args.map some)) = some k ↔
      c.IsBest args ks k ∧ ∀ l, c.IsBest args ks l → l = k := by
  have hmem : ∀ l, l ∈ c.unbeaten ks (args.map some) ↔ c.IsBest args ks l := by
    simp only [mem_unbeaten, IsBest, Beats, Bool.not_eq_true, implies_true]
  have hnodup : (c.unbeaten ks (args.map some)).Nodup := h.filter _
  rw [only?_eq_some_iff hnodup, hmem]
  simp only [hmem]

/-- **The choice without expansion stays** when nothing that needs expansion is better than it or unbeaten. -/
theorem selectCompiled?_eq_some_iff (h : c.selectWritten? start name args = some k)
    (hwritten : l ∈ c.writtenOverloads start name args) :
    c.selectCompiled? start name (args.map some) = some k ↔
      ∀ e ∈ c.expandedOverloads start name args, ¬c.Beats args e k ∧
        ∃ a ∈ c.applicableOverloads start name args, c.Beats args a e := by
  rw [selectWritten?_eq_only? hwritten, only?_unbeaten_eq_some_iff nodup_writtenOverloads] at h
  obtain ⟨⟨hk, hbest⟩, honly⟩ := h
  rw [selectCompiled?_eq_only? hwritten, only?_unbeaten_eq_some_iff nodup_applicableOverloads]
  constructor
  · rintro ⟨⟨-, hbestOfAll⟩, hsingle⟩ e he
    have happ := mem_applicableOverloads_of_expanded he
    refine ⟨hbestOfAll e happ, ?_⟩
    by_contra hnone
    have hek := hsingle e ⟨happ, fun a ha hb => hnone ⟨a, ha, hb⟩⟩
    exact not_mem_writtenOverloads he (hek ▸ hk)
  · intro hexpanded
    refine ⟨⟨mem_applicableOverloads_of_written hk, fun a ha => ?_⟩, fun b hb => ?_⟩
    · rcases mem_applicableOverloads.mp ha with ha | ha
      · exact hbest a ha
      · exact (hexpanded a ha).1
    · rcases mem_applicableOverloads.mp hb.1 with hwrittenb | hexpandedb
      · exact honly b ⟨hwrittenb, fun a ha => hb.2 a (mem_applicableOverloads_of_written ha)⟩
      · obtain ⟨a, ha, hbeats⟩ := (hexpanded b hexpandedb).2
        exact absurd hbeats (hb.2 a ha)

/-- **Nothing changes** when each overload that needs expansion is beaten and beats none that fits as
written. -/
theorem selectCompiled?_eq_selectWritten? (hwritten : l ∈ c.writtenOverloads start name args)
    (h : ∀ e ∈ c.expandedOverloads start name args,
      (∃ a ∈ c.applicableOverloads start name args, c.Beats args a e) ∧
        ∀ k ∈ c.writtenOverloads start name args, ¬c.Beats args e k) :
    c.selectCompiled? start name (args.map some) = c.selectWritten? start name args := by
  have hsame : ∀ k, c.IsBest args (c.applicableOverloads start name args) k ↔
      c.IsBest args (c.writtenOverloads start name args) k := by
    intro k
    constructor
    · rintro ⟨hk, hbest⟩
      rcases mem_applicableOverloads.mp hk with hk | hk
      · exact ⟨hk, fun a ha => hbest a (mem_applicableOverloads_of_written ha)⟩
      · obtain ⟨a, ha, hbeats⟩ := (h k hk).1
        exact absurd hbeats (hbest a ha)
    · rintro ⟨hk, hbest⟩
      refine ⟨mem_applicableOverloads_of_written hk, fun a ha => ?_⟩
      rcases mem_applicableOverloads.mp ha with ha | ha
      · exact hbest a ha
      · exact (h a ha).2 k hk
  rw [selectCompiled?_eq_only? hwritten, selectWritten?_eq_only? hwritten]
  refine Option.ext fun k => ?_
  rw [only?_unbeaten_eq_some_iff nodup_applicableOverloads,
    only?_unbeaten_eq_some_iff nodup_writtenOverloads]
  simp only [hsame]

/-! ## An overload with exactly the types of the arguments -/

theorem exists_takesAt?_of_applicable (h : k ∈ c.applicableOverloads start name args) (i : Nat)
    (hi : i < args.length) : ∃ p, c.takesAt? k.method args.length i = some p :=
  exists_takesAt? (List.mem_filter.mp h).2 hi

/-- Nothing beats an exact overload. -/
theorem isBest_of_takesExactly {ks : List CompiledCandidate} (hk : k ∈ ks)
    (hexact : c.TakesExactly k.method args) : c.IsBest args ks k :=
  ⟨hk, fun l _ => by
    rw [Beats, Bool.not_eq_true]
    exact not_moreSpecific_of_takesExactly hexact l.method⟩

/-- Among some of the applicable overloads an exact one is chosen unless there are two. -/
theorem only?_unbeaten_of_takesExactly {ks : List CompiledCandidate} (hnodup : ks.Nodup)
    (happ : ∀ l ∈ ks, l ∈ c.applicableOverloads start name args) (hk : k ∈ ks)
    (hexact : c.TakesExactly k.method args) :
    only? (c.unbeaten ks (args.map some)) = some k ↔
      ∀ l ∈ ks, c.TakesExactly l.method args → l = k := by
  rw [only?_unbeaten_eq_some_iff hnodup]
  constructor
  · rintro ⟨-, honly⟩ l hl hlexact
    exact honly l (isBest_of_takesExactly hl hlexact)
  · intro hsingle
    refine ⟨isBest_of_takesExactly hk hexact, fun l hl => hsingle l hl.1 ?_⟩
    by_contra hnot
    exact hl.2 k hk ((moreSpecific_iff_of_takesExactly hexact
      (exists_takesAt?_of_applicable (happ l hl.1))).mpr hnot)

/-- Only one overload has exactly the types of the arguments and fits as written. -/
theorem eq_of_takesExactly (hk : k ∈ c.writtenOverloads start name args)
    (hl : l ∈ c.writtenOverloads start name args) (hkexact : c.TakesExactly k.method args)
    (hlexact : c.TakesExactly l.method args) : l = k := by
  obtain ⟨hk, hkw⟩ := mem_writtenOverloads.mp hk
  obtain ⟨hl, hlw⟩ := mem_writtenOverloads.mp hl
  refine eq_of_params_eq hl hk ?_
  rw [(takesExactly_iff hlw).mp hlexact, (takesExactly_iff hkw).mp hkexact]

/-- Without expansion the exact overload is chosen. -/
theorem selectWritten?_of_takesExactly (hk : k ∈ c.writtenOverloads start name args)
    (hexact : c.TakesExactly k.method args) : c.selectWritten? start name args = some k := by
  rw [selectWritten?_eq_only? hk]
  exact (only?_unbeaten_of_takesExactly nodup_writtenOverloads
    (fun _ => mem_applicableOverloads_of_written) hk hexact).mpr
      fun a ha haexact => eq_of_takesExactly hk ha hexact haexact

/-- **An exact overload is chosen** unless the expansion of another one is exact, too. -/
theorem selectCompiled?_of_takesExactly_iff (hk : k ∈ c.writtenOverloads start name args)
    (hexact : c.TakesExactly k.method args) :
    c.selectCompiled? start name (args.map some) = some k ↔
      ∀ e ∈ c.expandedOverloads start name args, ¬c.TakesExactly e.method args := by
  rw [selectCompiled?_eq_only? hk, only?_unbeaten_of_takesExactly nodup_applicableOverloads
    (fun _ h => h) (mem_applicableOverloads_of_written hk) hexact]
  constructor
  · intro hsingle e he heexact
    exact not_mem_writtenOverloads he
      (hsingle e (mem_applicableOverloads_of_expanded he) heexact ▸ hk)
  · intro hnone a ha haexact
    rcases mem_applicableOverloads.mp ha with ha | ha
    · exact eq_of_takesExactly hk ha hexact haexact
    · exact absurd haexact (hnone a ha)

/-- Two exact overloads leave nothing to choose. -/
theorem selectCompiled?_eq_none_of_takesExactly {e : CompiledCandidate}
    (hk : k ∈ c.writtenOverloads start name args) (hexact : c.TakesExactly k.method args)
    (he : e ∈ c.expandedOverloads start name args) (heexact : c.TakesExactly e.method args) :
    c.selectCompiled? start name (args.map some) = none := by
  rw [selectCompiled?_eq_only? hk, Option.eq_none_iff_forall_ne_some]
  intro x hx
  have honly := ((only?_unbeaten_eq_some_iff nodup_applicableOverloads).mp hx).2
  have hkx := honly k (isBest_of_takesExactly (mem_applicableOverloads_of_written hk) hexact)
  have hex := honly e (isBest_of_takesExactly (mem_applicableOverloads_of_expanded he) heexact)
  exact not_mem_writtenOverloads he (hex.trans hkx.symm ▸ hk)

/-! ## An overload that takes an object -/

/-- An array is better than an object for every argument that is no plain object. -/
theorem prefer_array_object (s : TypeInfo) {t : TypeInfo} (ht : t.name ≠ objectName) :
    c.prefer (.array s) c.objectType t = .lt := by
  have hobject : c.objectType.name = objectName := c.name_typeInfo _
  have hne : (TypeInfo.array s).name ≠ c.objectType.name := by
    intro h
    have hlast := TypeInfo.getLast?_name_array s
    rw [h, hobject] at hlast
    exact absurd hlast (by decide)
  have hnominal : c.objectType.isNominal = true :=
    TypeInfo.isNominal_of_name (c.isVariable_typeInfo _) hobject
  have hprimitive : c.objectType.primitive? = none := primitive?_typeInfo (by decide)
  have hassign : c.isAssignable c.objectType (TypeInfo.array s).name = true := by
    rw [isAssignable_nominal hnominal, isPrimitiveName_array, hobject]
    simp
  have harray : c.isInterfaceType (.array s) = false := rfl
  rw [prefer, if_neg (by simpa using hne)]
  by_cases hst : (TypeInfo.array s).name = t.name
  · rw [if_pos (by simpa using hst)]
  · rw [if_neg (by simpa using hst), if_neg (by rw [hobject]; simpa using ht.symm), hprimitive]
    simp only [TypeInfo.primitive?, harray, hassign, if_true]
    cases c.isInterfaceType c.objectType <;> rfl

/-- **An array beats an object**: an overload that takes its last arguments as an array, though no array
is passed, is more specific than one that takes the last argument as an object. -/
theorem beats_of_array {e : CompiledCandidate} {ps : List String} {p : String}
    (hlen : args.length = k.method.params.length) (hk : k.method.params = ps ++ [objectName])
    (he : e.method.params = ps ++ [p ++ "[]"])
    (hlast : ∀ t, args[ps.length]? = some t → t.name ≠ objectName) : c.Beats args e k := by
  have hk' : args.length = ps.length + 1 := by rw [hlen, hk, List.length_append]; rfl
  have he' : args.length = e.method.params.length := by rw [hk', he, List.length_append]; rfl
  have hat : ∀ i, i < args.length → c.takesAt? e.method args.length i =
      (e.method.params[i]?).map c.typeInfo ∧ c.takesAt? k.method args.length i =
        (k.method.params[i]?).map c.typeInfo := fun i hi =>
    ⟨(takesAt?_of_length_eq he' hi).trans (getElem?_compiledParamTypes _ _),
      (takesAt?_of_length_eq hlen hi).trans (getElem?_compiledParamTypes _ _)⟩
  have hs : c.typeInfo (p ++ "[]") = .array (c.typeInfo p) := typeInfo_array p
  have hi : ps.length < args.length := by omega
  have hbetter : ∀ t, args[ps.length]? = some t → c.ComparesAt e.method k.method args ps.length .lt := by
    intro t ht
    refine ⟨.array (c.typeInfo p), c.objectType, t, ?_, ?_, ht, prefer_array_object _ (hlast t ht)⟩
    · rw [(hat _ hi).1, he, List.getElem?_concat_length, Option.map_some]
      exact congrArg some hs
    · rw [(hat _ hi).2, hk, List.getElem?_concat_length]
      rfl
  rw [Beats, moreSpecific_iff]
  refine ⟨⟨_, hbetter _ (List.getElem?_eq_getElem hi)⟩, ?_⟩
  rintro i ⟨a, b, t, ha, hb, ht, ho⟩
  obtain ⟨hlt, -⟩ := List.getElem?_eq_some_iff.mp ht
  rw [(hat i hlt).1, he] at ha
  rw [(hat i hlt).2, hk] at hb
  rcases Nat.lt_or_ge i ps.length with hips | hips
  · -- the parameters before the last one are the same
    rw [List.getElem?_append_left hips] at ha hb
    rw [Option.some.inj (ha.symm.trans hb), prefer_of_name_eq rfl] at ho
    exact absurd ho (by decide)
  · have hil : i = ps.length := by omega
    subst hil
    rw [List.getElem?_concat_length] at ha hb
    have ha : TypeInfo.array (c.typeInfo p) = a := hs ▸ Option.some.inj ha
    have hb : c.objectType = b := Option.some.inj hb
    rw [← ha, ← hb, prefer_array_object _ (hlast t ht)] at ho
    exact absurd ho (by decide)

/-- With as many parameters as arguments, the array that the last argument is compared by does not
accept it. -/
theorem exists_misfit {e : CompiledCandidate} (he : e ∈ c.expandedOverloads start name args)
    (hlen : args.length = e.method.params.length) :
    ∃ p t, c.takesAt? e.method args.length (args.length - 1) = some p ∧
      args[args.length - 1]? = some t ∧ c.accepts p t = false := by
  obtain ⟨-, p, t, hp, ht, hacc⟩ := not_accepts_of_needsExpansion (mem_expandedOverloads.mp he).2 hlen
  obtain ⟨hlt, -⟩ := List.getElem?_eq_some_iff.mp ht
  rw [← hlen] at hp ht hlt
  exact ⟨p, t, (takesAt?_of_length_eq hlen hlt).trans hp, ht, hacc⟩

/-- An array displaces an object in the last place. -/
theorem selectCompiled?_ne_of_array {e : CompiledCandidate} {ps : List String} {p : String}
    (hk : k ∈ c.writtenOverloads start name args) (he : e ∈ c.expandedOverloads start name args)
    (hkp : k.method.params = ps ++ [objectName]) (hep : e.method.params = ps ++ [p ++ "[]"])
    (hlast : ∀ t, args[ps.length]? = some t → t.name ≠ objectName) :
    c.selectCompiled? start name (args.map some) ≠ some k := by
  rw [selectCompiled?_eq_only? hk]
  intro hchosen
  have hbest := ((only?_unbeaten_eq_some_iff nodup_applicableOverloads).mp hchosen).1.2
  have hlen := (takesAsWritten_iff.mp (mem_writtenOverloads.mp hk).2).1
  exact hbest e (mem_applicableOverloads_of_expanded he) (beats_of_array hlen hkp hep hlast)

/-! ## The certain choice -/

/-- The described overloads of that name, also those that a nearer one hides. -/
def describedOverloads (c : Codebase) (start : TypeInfo) (name : String) : List CompiledCandidate :=
  (c.withAncestors start).flatMap fun t =>
    match t with
    | .compiled ct => (ct.methodsNamed name).map fun m => ⟨ct, m⟩
    | _ => []

theorem compiledCandidates_eq_distinctCompiled :
    c.compiledCandidates start name = distinctCompiled [] (c.describedOverloads start name) := rfl

/-- A described overload as a candidate of the certain choice. -/
def asCandidate (c : Codebase) (k : CompiledCandidate) : Candidate :=
  ⟨.compiled k.owner, c.compiledParamTypes k.method, none, c.compiledReturnType? k.method⟩

theorem signature_asCandidate (k : CompiledCandidate) :
    (c.asCandidate k).signature = k.method.params :=
  map_name_compiledParamTypes k.method

theorem nearestBySignature_asCandidate (seen : List (List String)) (ks : List CompiledCandidate) :
    nearestBySignature seen (ks.map c.asCandidate) = (distinctCompiled seen ks).map c.asCandidate := by
  induction ks generalizing seen with
  | nil => rfl
  | cons k ks ih =>
    rw [List.map_cons, nearestBySignature, distinctCompiled, signature_asCandidate]
    split
    · exact ih seen
    · rw [ih, List.map_cons]

/-- A test of the parameters can be made before or after the hidden overloads are left out. -/
theorem filter_distinctCompiled {f : List String → Bool} {seen seen' : List (List String)}
    (h : ∀ ps, f ps = true → (ps ∈ seen ↔ ps ∈ seen')) (ks : List CompiledCandidate) :
    (distinctCompiled seen ks).filter (fun k => f k.method.params) =
      distinctCompiled seen' (ks.filter fun k => f k.method.params) := by
  induction ks generalizing seen seen' with
  | nil => rfl
  | cons k ks ih =>
    rw [distinctCompiled]
    have hpos := @List.filter_cons_of_pos _ (fun k : CompiledCandidate => f k.method.params) k
    have hneg := @List.filter_cons_of_neg _ (fun k : CompiledCandidate => f k.method.params) k
    by_cases hf : f k.method.params = true
    · have hseen : seen.contains k.method.params = seen'.contains k.method.params := by
        rw [Bool.eq_iff_iff, List.contains_iff_mem, List.contains_iff_mem]
        exact h _ hf
      rw [hpos hf, distinctCompiled, hseen]
      split
      · exact ih h
      · rw [hpos hf, ih fun ps hps => ?_]
        simp only [List.mem_cons, h ps hps]
    · rw [hneg hf]
      split
      · exact ih h
      · rw [hneg hf]
        refine ih fun ps hps => ?_
        have hne : ps ≠ k.method.params := fun heq => hf (heq ▸ hps)
        rw [List.mem_cons, h ps hps, or_iff_right hne]

/-- What only hidden overloads fail to satisfy can be asked of all. -/
theorem distinctCompiled_filter {g : CompiledCandidate → Bool} {seen : List (List String)}
    {ks : List CompiledCandidate} (h : ∀ k ∈ distinctCompiled seen ks, g k = true) :
    distinctCompiled seen (ks.filter g) = distinctCompiled seen ks := by
  induction ks generalizing seen with
  | nil => rfl
  | cons k ks ih =>
    rw [distinctCompiled] at h ⊢
    split at h
    · next hseen =>
      rw [if_pos hseen, ← ih h, List.filter_cons]
      split
      · rw [distinctCompiled, if_pos hseen]
      · rfl
    · next hseen =>
      rw [if_neg hseen, List.filter_cons_of_pos (h k List.mem_cons_self), distinctCompiled,
        if_neg hseen, ih fun l hl => h l (List.mem_cons_of_mem _ hl)]

/-- **The certain candidates** on described types are the overloads of fixed arity that the call fits. -/
theorem applicableCandidates_eq (h : ∀ t ∈ c.withAncestors start, t.sourceId? = none) :
    c.applicableCandidates start name args =
      ((c.describedOverloads start name).filter fun k =>
        !k.method.varargs && c.takesAsWritten k.method args).map c.asCandidate := by
  have hacceptsAll : ∀ m : CompiledMethod, m.params.length = args.length →
      c.acceptsAll (c.compiledParamTypes m) args = c.takesAsWritten m args := by
    intro m hlen
    rw [takesAsWritten, applicable, if_neg Bool.false_ne_true, List.length_map,
      length_compiledParamTypes, beq_iff_eq.mpr hlen.symm, List.zip_map_right, List.all_map]
    rfl
  have hlength : ∀ m : CompiledMethod, c.takesAsWritten m args = true →
      m.params.length = args.length := fun m hm => (takesAsWritten_iff.mp hm).1.symm
  rw [applicableCandidates, describedOverloads, List.filter_flatMap, List.filter_flatMap,
    List.map_flatMap]
  refine List.flatMap_congr fun t ht => ?_
  cases t with
  | source id n => exact absurd (h _ ht) (by simp [TypeInfo.sourceId?])
  | compiled ct =>
    simp only [declaredCandidates, List.filter_map, List.filter_filter, List.map_map]
    refine congrArg (List.map _) (List.filter_congr fun m _ => ?_)
    simp only [Function.comp_apply]
    by_cases hlen : m.params.length = args.length
    · rw [hacceptsAll m hlen, beq_iff_eq.mpr hlen, Bool.true_and, Bool.and_comm]
    · rw [beq_eq_false_iff_ne.mpr hlen, Bool.false_and, Bool.and_false]
      have hnot : c.takesAsWritten m args = false := by
        rw [← Bool.not_eq_true]
        exact fun hm => hlen (hlength m hm)
      rw [hnot, Bool.and_false]
  | _ => rfl

/-- The overloads that the certain choice is made among. -/
theorem nearestBySignature_applicableCandidates
    (h : ∀ t ∈ c.withAncestors start, t.sourceId? = none)
    (hfixed : ∀ k ∈ c.writtenOverloads start name args, k.method.varargs = false) :
    nearestBySignature [] (c.applicableCandidates start name args) =
      (c.writtenOverloads start name args).map c.asCandidate := by
  have hwritten : c.writtenOverloads start name args = distinctCompiled []
      ((c.describedOverloads start name).filter fun k => c.takesAsWritten k.method args) := by
    rw [writtenOverloads, compiledCandidates_eq_distinctCompiled]
    exact filter_distinctCompiled
      (f := fun ps => c.applicable (ps.map c.typeInfo) false (args.map some)) (fun _ _ => Iff.rfl) _
  rw [hwritten] at hfixed
  have hvisible := distinctCompiled_filter (g := fun k => !k.method.varargs) fun k hk => by
    rw [hfixed k hk]
    rfl
  rw [applicableCandidates_eq h, nearestBySignature_asCandidate, hwritten, ← hvisible,
    List.filter_filter]

/-- What the certain choice takes is alone or exact. -/
theorem exists_of_choose? {ks : List CompiledCandidate} {x : Candidate}
    (hlen : ∀ k ∈ ks, args.length = k.method.params.length)
    (h : choose? args (ks.map c.asCandidate) = some x) :
    ∃ k ∈ ks, x = c.asCandidate k ∧ (ks = [k] ∨ c.TakesExactly k.method args) := by
  match ks with
  | [] => exact absurd h (by simp [choose?])
  | [k] => exact ⟨k, List.mem_cons_self, (Option.some.inj h).symm, Or.inl rfl⟩
  | k :: k' :: ks =>
    rw [List.map_cons, List.map_cons, choose?.eq_def] at h
    simp only at h
    rw [← List.map_cons, ← List.map_cons] at h
    split at h
    · next y hy =>
      have hmem : y ∈ [y] := List.mem_singleton_self y
      rw [← hy, List.mem_filter] at hmem
      obtain ⟨l, hl, rfl⟩ := List.mem_map.mp hmem.1
      refine ⟨l, hl, (Option.some.inj h).symm, Or.inr fun i t ht => ?_⟩
      obtain ⟨hi, -⟩ := List.getElem?_eq_some_iff.mp ht
      have hparam : i < (c.compiledParamTypes l.method).length := by
        rw [length_compiledParamTypes, ← hlen l hl]
        exact hi
      refine ⟨_, (takesAt?_of_length_eq (hlen l hl) hi).trans (List.getElem?_eq_getElem hparam), ?_⟩
      have hname := List.all_eq_true.mp hmem.2 ((c.compiledParamTypes l.method)[i], t)
        (List.mem_iff_getElem?.mpr
          ⟨i, List.getElem?_zip_eq_some.mpr ⟨List.getElem?_eq_getElem hparam, ht⟩⟩)
      exact beq_iff_eq.mp hname
    · exact absurd h (by simp)

/-- **Without expansion the certain choice is kept.** -/
theorem selectWritten?_of_selectCall? (h : ∀ t ∈ c.withAncestors start, t.sourceId? = none)
    (hfixed : ∀ k ∈ c.writtenOverloads start name args, k.method.varargs = false) {r : ResolvedCall}
    (hr : c.selectCall? start name args = some r) :
    ∃ k, c.selectWritten? start name args = some k ∧ r.declaring = .compiled k.owner ∧
      r.params = k.method.params := by
  rw [selectCall?, nearestBySignature_applicableCandidates h hfixed, Option.map_eq_some_iff] at hr
  obtain ⟨x, hx, rfl⟩ := hr
  obtain ⟨k, hk, rfl, hchosen⟩ :=
    exists_of_choose? (fun k hk => (takesAsWritten_iff.mp (mem_writtenOverloads.mp hk).2).1) hx
  refine ⟨k, ?_, rfl, c.signature_asCandidate k⟩
  rcases hchosen with hsingle | hexact
  · rw [selectWritten?_eq_only? hk, hsingle, unbeaten_singleton]
    rfl
  · exact selectWritten?_of_takesExactly hk hexact

/-! ## The main statement -/

/-- **How overloads that need expansion count** for a call that fits some overload as written. -/
structure ExpansionsCount (c : Codebase) (start : TypeInfo) (name : String) (args : List TypeInfo) :
    Prop where
  /-- The choice without them stays unless one of them is better or not beaten. -/
  kept : ∀ k, c.selectWritten? start name args = some k →
    (c.selectCompiled? start name (args.map some) = some k ↔
      ∀ e ∈ c.expandedOverloads start name args, ¬c.Beats args e k ∧
        ∃ a ∈ c.applicableOverloads start name args, c.Beats args a e)
  /-- Nothing changes when each of them is beaten and none is better than what fits as written. -/
  unchanged : (∀ e ∈ c.expandedOverloads start name args,
      (∃ a ∈ c.applicableOverloads start name args, c.Beats args a e) ∧
        ∀ k ∈ c.writtenOverloads start name args, ¬c.Beats args e k) →
    c.selectCompiled? start name (args.map some) = c.selectWritten? start name args
  /-- An overload with exactly the types of the arguments is chosen unless the expansion of another one
  has the same types; then none is. -/
  exact : ∀ k ∈ c.writtenOverloads start name args, k.method.params = args.map TypeInfo.name →
    c.selectWritten? start name args = some k ∧
      (c.selectCompiled? start name (args.map some) = some k ↔
        ∀ e ∈ c.expandedOverloads start name args, ¬c.TakesExactly e.method args) ∧
      ((∃ e ∈ c.expandedOverloads start name args, c.TakesExactly e.method args) →
        c.selectCompiled? start name (args.map some) = none)
  /-- With as many parameters as arguments they are compared by an array that does not accept the last
  argument. -/
  misfit : ∀ e ∈ c.expandedOverloads start name args, args.length = e.method.params.length →
    ∃ p t, c.takesAt? e.method args.length (args.length - 1) = some p ∧
      args[args.length - 1]? = some t ∧ c.accepts p t = false
  /-- So an overload that takes an object there is not chosen. -/
  displaced : ∀ k ∈ c.writtenOverloads start name args, ∀ e ∈ c.expandedOverloads start name args,
    ∀ ps p, k.method.params = ps ++ [objectName] → e.method.params = ps ++ [p ++ "[]"] →
      (∀ t, args[ps.length]? = some t → t.name ≠ objectName) →
        c.selectCompiled? start name (args.map some) ≠ some k
  /-- The certain choice on described types is the one without them. -/
  certain : (∀ t ∈ c.withAncestors start, t.sourceId? = none) →
    (∀ k ∈ c.writtenOverloads start name args, k.method.varargs = false) →
      ∀ r, c.selectCall? start name args = some r →
        ∃ k, c.selectWritten? start name args = some k ∧ r.declaring = .compiled k.owner ∧
          r.params = k.method.params

/-- **What is chosen when a call fits some overload as written.** -/
theorem chosen_among_expansions {start : TypeInfo} {name : String} {args : List TypeInfo}
    (h : ∃ k ∈ c.compiledCandidates start name, c.takesAsWritten k.method args = true) :
    c.ExpansionsCount start name args := by
  obtain ⟨l, hl, hfit⟩ := h
  have hl : l ∈ c.writtenOverloads start name args := mem_writtenOverloads.mpr ⟨hl, hfit⟩
  refine ⟨fun k hk => selectCompiled?_eq_some_iff hk hl, selectCompiled?_eq_selectWritten? hl,
    fun k hk hparams => ?_, fun e he hlen => exists_misfit he hlen,
    fun k hk e he ps p hkp hep hlast => selectCompiled?_ne_of_array hk he hkp hep hlast,
    fun hstart hfixed r hr => selectWritten?_of_selectCall? hstart hfixed hr⟩
  have hexact := (takesExactly_iff (mem_writtenOverloads.mp hk).2).mpr hparams
  exact ⟨selectWritten?_of_takesExactly hk hexact, selectCompiled?_of_takesExactly_iff hk hexact,
    fun ⟨_, he, heexact⟩ => selectCompiled?_eq_none_of_takesExactly hk hexact he heexact⟩

end Codebase

/-! ## A list of one number

The overloads of `of` in the catalog take one or two objects, or an array of objects. -/

namespace Sample

/-- The static methods of a list. -/
def listType : CompiledType where
  name := "java.util.List"
  isInterface := true
  superclass := none
  interfaces := []
  methods :=
    [⟨"of", ["java.lang.Object"], "java.util.List", false, true⟩,
     ⟨"of", ["java.lang.Object", "java.lang.Object"], "java.util.List", false, true⟩,
     ⟨"of", ["java.lang.Object[]"], "java.util.List", true, true⟩]
  fields := []

/-- No source, and the list in the catalog. -/
def lists : Codebase := ⟨[], [], ⟨[listType]⟩⟩

theorem compiledCandidates_lists : lists.compiledCandidates (.compiled listType) "of" =
    listType.methods.map (⟨listType, ·⟩) := by with_unfolding_all rfl

theorem mem_compiledCandidates_lists {m : CompiledMethod} (h : m ∈ listType.methods) :
    (⟨listType, m⟩ : CompiledCandidate) ∈ lists.compiledCandidates (.compiled listType) "of" :=
  compiledCandidates_lists ▸ List.mem_map_of_mem h

end Sample

namespace Codebase

/-- A single object is passed as it is.  A number is not, since the array counts for more. -/
theorem chosen_among_expansions_sample :
    (Sample.lists.selectCompiled? (.compiled Sample.listType) "of"
        [some Sample.lists.objectType]).map (fun k => k.method.params) = some ["java.lang.Object"] ∧
      (Sample.lists.selectWritten? (.compiled Sample.listType) "of"
        [.primitive .int]).map (fun k => k.method.params) = some ["java.lang.Object"] ∧
      Sample.lists.selectCompiled? (.compiled Sample.listType) "of" [some (.primitive .int)] ≠
        some ⟨Sample.listType, ⟨"of", ["java.lang.Object"], "java.util.List", false, true⟩⟩ := by
  have hone := Sample.mem_compiledCandidates_lists (m := Sample.listType.methods[0])
    (List.getElem_mem _)
  have harray := Sample.mem_compiledCandidates_lists (m := Sample.listType.methods[2])
    (List.getElem_mem _)
  have hobject : Sample.lists.ExpansionsCount (.compiled Sample.listType) "of"
      [Sample.lists.objectType] := chosen_among_expansions ⟨_, hone, by decide +kernel⟩
  have hnumber : Sample.lists.ExpansionsCount (.compiled Sample.listType) "of" [.primitive .int] :=
    chosen_among_expansions ⟨_, hone, by decide +kernel⟩
  refine ⟨?_, by decide +kernel, ?_⟩
  · have hexact := hobject.exact _ (mem_writtenOverloads.mpr ⟨hone, by decide +kernel⟩) (by decide +kernel)
    have hchosen := hexact.2.1.mpr fun e he htakes => ?_
    · exact congrArg (Option.map fun k => k.method.params) hchosen
    · -- only the array needs expansion, and its type is not that of the argument
      obtain ⟨hmem, hexpansion⟩ := mem_expandedOverloads.mp he
      rw [Sample.compiledCandidates_lists] at hmem
      obtain ⟨m, hm, rfl⟩ := List.mem_map.mp hmem
      have hother : ∀ m ∈ Sample.listType.methods,
          Sample.lists.needsExpansion m [Sample.lists.objectType] = true →
            (Sample.lists.takesAt? m 1 0).map TypeInfo.name ≠ some objectName := by decide +kernel
      obtain ⟨p, hp, hname⟩ := htakes 0 _ rfl
      refine hother m hm hexpansion ?_
      rw [List.length_singleton] at hp
      rw [hp, Option.map_some, hname]
      rfl
  · exact hnumber.displaced _ (mem_writtenOverloads.mpr ⟨hone, by decide +kernel⟩) _
      (mem_expandedOverloads.mpr ⟨harray, by decide +kernel⟩) [] "java.lang.Object" (by decide)
      (by decide) fun t ht => by rw [← Option.some.inj ht]; decide

/-- **Overloads of fixed arity do not come first.**  The list of one number is made by the overload that
takes an array. -/
theorem not_fixed_arity_first_sample :
    ¬∀ (c : Codebase) (start : TypeInfo) (name : String) (args : List TypeInfo),
      (∃ k ∈ c.compiledCandidates start name, c.takesAsWritten k.method args = true) →
        c.selectCompiled? start name (args.map some) = c.selectWritten? start name args := by
  intro h
  have hsame := h Sample.lists (.compiled Sample.listType) "of" [.primitive .int]
    ⟨⟨Sample.listType, ⟨"of", ["java.lang.Object"], "java.util.List", false, true⟩⟩,
      Sample.mem_compiledCandidates_lists List.mem_cons_self, by decide +kernel⟩
  have hparams := congrArg (Option.map fun k => k.method.params) hsame
  exact absurd hparams (by decide +kernel)

end Codebase

end JavaCallGraph

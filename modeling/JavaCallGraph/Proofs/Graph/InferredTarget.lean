import JavaCallGraph.Proofs.Graph.Termination
import JavaCallGraph.Proofs.Graph.Unambiguous

/-!
# Where an inferred call lands

Inference finds a call on the first type that declares an applicable method.  If that is a declared
type, the call should land on one of its applicable methods.  But inference only hands out an
identity, and the declaration is then looked up by it (`Codebase.inferredTarget`).  If several
methods are applicable the identity is made up from the types of the arguments, and what answers to
it is not what is applicable: a widened, unboxed or spread argument counts for the one and not for
the other.  Then the call lands on a mere identity, although there is a declaration for it.

* `Codebase.isTypeOf_of_accepts` — what a parameter accepts fits it by name, unless it is converted
  to a primitive type;
* `Codebase.Unambiguous.inferred_call_lands` — when an inferred call lands on a declaration;
* `Codebase.Unambiguous.inferred_call_lost_sample` — a call that does not.
-/

set_option autoImplicit false

namespace JavaCallGraph

/-- Only a declared type has a number in the source. -/
theorem TypeInfo.exists_source_of_sourceId? {t : Option TypeInfo} {d : TypeId}
    (h : t.bind TypeInfo.sourceId? = some d) : ∃ n, t = some (.source d n) := by
  obtain ⟨t, rfl, ht⟩ := Option.bind_eq_some_iff.mp h
  cases t with
  | source id n => exact ⟨n, by rw [Option.some.inj ht]⟩
  | _ => exact absurd ht (by simp [TypeInfo.sourceId?])

namespace Codebase

variable {c : Codebase}

/-! ## Where a call is searched -/

/-- The types on which inference looks a call up, in their order: those of an unqualified name, or
the receiver and its supertypes. -/
def searchedTypes (c : Codebase) (ctx : ExprContext) (call : MethodCall) : List TypeInfo :=
  match call.receiver with
  | none => c.unqualifiedScopes ctx ++ c.staticImportOwners ctx.type call.name
  | some .super => (c.superType? ctx).toList.flatMap c.withAncestors
  | some e => ((c.typeOf? ctx e).map c.erased).toList.flatMap c.withAncestors

/-- **A call is found on the first of these types that declares an applicable method.** -/
theorem inferredOwner?_eq_some {ctx : ExprContext} {call : MethodCall} {args : List Argument}
    {t : TypeInfo} (h : (c.searchedTypes ctx call).find?
      (fun t => c.declaresApplicable t call.name args) = some t) :
    c.inferredOwner? ctx call args = some t := by
  have hreceiver : ∀ r : Option TypeInfo,
      (r.toList.flatMap c.withAncestors).find? (fun t => c.declaresApplicable t call.name args) =
          some t →
        r.map (fun r => ((c.withAncestors r).find? fun t =>
          c.declaresApplicable t call.name args).getD r) = some t := by
    intro r hr
    cases r with
    | none => exact absurd hr (by simp)
    | some r =>
      rw [Option.toList_some, List.flatMap_singleton] at hr
      rw [Option.map_some, hr, Option.getD_some]
  rw [searchedTypes] at h
  rw [inferredOwner?]
  cases hcall : call.receiver with
  | none =>
    simp only [hcall] at h ⊢
    rwa [lookupUnqualified?, ← List.find?_append]
  | some e =>
    simp only [hcall] at h ⊢
    cases e <;> exact hreceiver _ h

/-! ## What answers to the types of the arguments -/

/-- What can be assigned to a parameter fits it by name. -/
theorem isTypeOf_of_isAssignable {t : TypeInfo} {sub : String} (h : c.isAssignable t sub = true) :
    c.isTypeOf t sub = true := by
  fun_induction isTypeOf c t sub with
  | case1 => rfl
  | case2 p expected => rwa [isAssignable] at h
  | case3 component expected ih =>
    rw [isAssignable, Bool.or_eq_true] at h
    rw [Bool.or_eq_true]
    refine h.imp_right fun h => ?_
    cases hinner : componentName? expected with
    | none =>
      simp only [hinner] at h
      exact absurd h Bool.false_ne_true
    | some inner =>
      simp only [hinner] at h ⊢
      exact ih inner h
  | case4 t expected hv hp ha =>
    rw [Bool.or_eq_true]
    cases hprim : Primitive.ofName? expected with
    | none => exact Or.inr h
    | some p =>
      rw [isAssignable.eq_4 c t expected hv hp ha, Bool.or_eq_true, isPrimitiveName, hprim] at h
      exact Or.inl (h.resolve_right (by simp))

/-- A boxed value is not an array. -/
theorem isAssignable_array_wrapper (t : TypeInfo) (p : Primitive) :
    c.isAssignable (.array t) p.wrapper = false := by
  have hname : TypeInfo.name (.array t) ≠ p.wrapper := by
    intro h
    have hlast := TypeInfo.getLast?_name_array t
    rw [h] at hlast
    cases p <;> exact absurd hlast (by decide)
  have hcomponent : componentName? p.wrapper = none := by cases p <;> decide
  rw [isAssignable, hcomponent, beq_false_of_ne hname]
  rfl

theorem isTypeOf_of_wrapper {t : TypeInfo} {p : Primitive} (ht : t.primitive? = none)
    (h : c.isAssignable t p.wrapper = true) : c.isTypeOf t p.name = true := by
  cases t with
  | typeVar n bounds => rfl
  | primitive q => exact absurd ht (by simp [TypeInfo.primitive?])
  | array t =>
    rw [isAssignable_array_wrapper] at h
    exact absurd h (by simp)
  | _ =>
    simp only [isTypeOf, Primitive.ofName?_name, Bool.or_eq_true]
    exact Or.inr h

/-- **What a parameter accepts fits it by name**, unless the parameter is of another primitive type,
to which the argument is widened or unboxed. -/
theorem isTypeOf_of_accepts {p a : TypeInfo} (h : c.accepts p a = true)
    (hp : p.primitive?.isSome → p.name = a.name) : c.isTypeOf p a.name = true := by
  by_cases hprim : p.primitive?.isSome
  · rw [← hp hprim]
    exact isTypeOf_name p
  · rw [Bool.not_eq_true, Option.isSome_eq_false_iff, Option.isNone_iff_eq_none] at hprim
    cases p with
    | primitive q => exact absurd hprim (by simp [TypeInfo.primitive?])
    | typeVar n bounds => rfl
    | _ =>
      cases a with
      | primitive q => exact isTypeOf_of_wrapper rfl h
      | _ => exact isTypeOf_of_isAssignable h

/-- The parameters take the arguments as they are: one by one, and none of them is converted to a
primitive type. -/
structure TakesAsIs (c : Codebase) (params args : List TypeInfo) : Prop where
  length : params.length = args.length
  accepts : ∀ (i : Nat) p a, params[i]? = some p → args[i]? = some a → c.accepts p a = true
  unconverted : ∀ (i : Nat) p a, params[i]? = some p → args[i]? = some a →
    p.primitive?.isSome → p.name = a.name

/-- The identity that is made up from the types of the arguments. -/
def argumentId (c : Codebase) (d : TypeId) (name : String) (args : List TypeInfo) : MethodId :=
  ⟨(c.decl d).qualifiedName, name, args.map TypeInfo.name⟩

theorem mem_sourceCandidates {d : TypeId} {name : String} {args : List Argument} {k : MethodRef}
    (hk : k ∈ c.sourceCandidates d name args) : k ∈ c.methodsOf d ∧ (c.method k).name = name := by
  obtain ⟨hmem, hk⟩ := List.mem_filter.mp hk
  rw [Bool.and_eq_true, beq_iff_eq] at hk
  exact ⟨hmem, hk.1⟩

/-- **A method that takes the arguments as they are answers to their types.** -/
theorem mem_candidatesIn_of_takesAsIs {d : TypeId} {name : String} {k : MethodRef}
    {args : List TypeInfo} (hk : k ∈ c.sourceCandidates d name (args.map some))
    (h : c.TakesAsIs (c.paramTypes k) args) : k ∈ c.candidatesIn d (c.argumentId d name args) := by
  obtain ⟨hmem, rfl⟩ := mem_sourceCandidates hk
  refine mem_candidatesIn hmem rfl (h.length.trans (List.length_map _).symm) fun i p n hp hn => ?_
  rw [argumentId, List.getElem?_map] at hn
  obtain ⟨a, ha, rfl⟩ := Option.map_eq_some_iff.mp hn
  exact isTypeOf_of_accepts (h.accepts i p a hp ha) (h.unconverted i p a hp ha)

/-! ## Where the call lands -/

/-- The declared types on which a declaration is looked up: the type itself and its supertypes. -/
def declaredAbove (c : Codebase) (d : TypeId) : List TypeId :=
  d :: (c.ancestors (c.sourceType d)).filterMap TypeInfo.sourceId?

/-- An identity means no declaration if no method of these types answers to it. -/
theorem findDeclaration?_eq_none {d : TypeId} {id : MethodId}
    (hd : c.resolveType? id.declaringType = some d) :
    c.findDeclaration? id = none ↔ ∀ a ∈ c.declaredAbove d, c.candidatesIn a id = [] := by
  rw [findDeclaration?, hd, Option.bind_some, Option.or_eq_none_iff, List.findSome?_eq_none_iff,
    declaredAbove, List.forall_mem_cons, findIn?_eq_none]
  simp only [findIn?_eq_none]

theorem declaration_inferredTarget (k : InferredCall) :
    (c.inferredTarget k).declaration = c.findDeclaration? k.id := by
  rw [inferredTarget]
  cases c.findDeclaration? k.id <;> rfl

/-- The identity of a call that is found on a declared type. -/
theorem identifyOn_source (d : TypeId) (name : String) (args : List TypeInfo) :
    (∃ k, c.sourceCandidates d name (args.map some) = [k] ∧
      (c.identifyOn (c.sourceType d) name args).id = c.methodId k) ∨
    ((∀ k, c.sourceCandidates d name (args.map some) ≠ [k]) ∧
      (c.identifyOn (c.sourceType d) name args).id = c.argumentId d name args) := by
  simp only [identifyOn, sourceType]
  split
  · next k hk => exact Or.inl ⟨k, hk, rfl⟩
  · next hne => exact Or.inr ⟨hne, rfl⟩

/-- **What becomes of a call that is found on a declared type**, where several methods of the type
may be applicable. -/
structure InferredLanding (c : Codebase) (d : TypeId) (name : String) (args : List TypeInfo)
    (declaration : Option MethodRef) : Prop where
  /-- The only applicable method is the one that is called. -/
  single : ∀ k, c.sourceCandidates d name (args.map some) = [k] → declaration = some k
  /-- Of several one is looked up by the types of the arguments. -/
  several : 2 ≤ (c.sourceCandidates d name (args.map some)).length →
    declaration = c.findDeclaration? (c.argumentId d name args)
  /-- One with parameters of just these types is found. -/
  sameTypes : ∀ k ∈ c.sourceCandidates d name (args.map some),
    (c.paramTypes k).map TypeInfo.name = args.map TypeInfo.name → declaration = some k
  /-- If one takes the arguments as they are, a method of the type is found. -/
  asIs : ∀ k ∈ c.sourceCandidates d name (args.map some), c.TakesAsIs (c.paramTypes k) args →
    ∃ k' ∈ c.candidatesIn d (c.argumentId d name args), declaration = some k'
  /-- The call is lost if no method answers to the types of the arguments, and only if several are
  applicable. -/
  lost : declaration = none ↔ 2 ≤ (c.sourceCandidates d name (args.map some)).length ∧
    ∀ a ∈ c.declaredAbove d, c.candidatesIn a (c.argumentId d name args) = []

namespace Unambiguous

variable {d : TypeId} {name : String} {args : List TypeInfo}

/-- Each applicable method is found by its identity. -/
theorem findDeclaration?_of_mem_sourceCandidates (h : c.Unambiguous) {k : MethodRef}
    (hk : k ∈ c.sourceCandidates d name (args.map some)) :
    c.findDeclaration? (c.methodId k) = some k :=
  h.findDeclaration?_methodId (declared_of_mem_methodsOf (mem_sourceCandidates hk).1)

/-- The only applicable method is found. -/
theorem inferredLanding_of_single (h : c.Unambiguous) {k : MethodRef}
    (hk : c.sourceCandidates d name (args.map some) = [k]) :
    c.InferredLanding d name args (c.findDeclaration? (c.methodId k)) := by
  have hone : ∀ k' ∈ c.sourceCandidates d name (args.map some), k' = k := by
    intro k' hk'
    rw [hk] at hk'
    exact List.mem_singleton.mp hk'
  have hlen : ¬2 ≤ (c.sourceCandidates d name (args.map some)).length := by
    rw [hk]
    simp
  have hmem : k ∈ c.sourceCandidates d name (args.map some) := by
    rw [hk]
    exact List.mem_singleton_self k
  rw [h.findDeclaration?_of_mem_sourceCandidates hmem]
  refine ⟨fun k' hk' => ?_, fun htwo => absurd htwo hlen, fun k' hk' _ => ?_,
    fun k' hk' hasis => ?_, iff_of_false (by simp) fun hlost => hlen hlost.1⟩
  · rw [hk] at hk'
    rw [(List.cons.inj hk').1]
  · rw [hone k' hk']
  · exact ⟨k', mem_candidatesIn_of_takesAsIs hk' hasis, by rw [hone k' hk']⟩

/-- Of several applicable methods the one is taken that answers best to the types of the
arguments. -/
theorem inferredLanding_of_several (h : c.Unambiguous)
    (hlen : 2 ≤ (c.sourceCandidates d name (args.map some)).length) :
    c.InferredLanding d name args (c.findDeclaration? (c.argumentId d name args)) := by
  have howner : c.resolveType? (c.argumentId d name args).declaringType = some d := by
    obtain ⟨k, hk⟩ := List.exists_mem_of_length_pos (Nat.zero_lt_of_lt hlen)
    have hmem := (mem_sourceCandidates hk).1
    have hres := h.resolveType?_owner (declared_of_mem_methodsOf hmem)
    rwa [(mem_methodsOf.mp hmem).1] at hres
  refine ⟨fun k hk => ?_, fun _ => rfl, fun k hk hnames => ?_, fun k hk hasis => ?_, ?_⟩
  · rw [hk] at hlen
    exact absurd hlen (by simp)
  · obtain ⟨hmem, hname⟩ := mem_sourceCandidates hk
    have hsame : c.argumentId d name args = c.methodId k := by
      rw [argumentId, methodId, hname, hnames, (mem_methodsOf.mp hmem).1]
    rw [hsame, h.findDeclaration?_of_mem_sourceCandidates hk]
  · have hanswers := mem_candidatesIn_of_takesAsIs hk hasis
    cases hfind : c.findIn? d (c.argumentId d name args) with
    | none =>
      rw [findIn?_eq_none.mp hfind] at hanswers
      exact absurd hanswers List.not_mem_nil
    | some k' =>
      refine ⟨k', mem_candidatesIn_of_findIn? hfind, ?_⟩
      rw [findDeclaration?, howner, Option.bind_some, hfind, Option.some_or]
  · rw [findDeclaration?_eq_none howner]
    exact ⟨fun hlost => ⟨hlen, hlost⟩, fun hlost => hlost.2⟩

theorem inferredLanding (h : c.Unambiguous)
    (hne : c.sourceCandidates d name (args.map some) ≠ []) :
    c.InferredLanding d name args
      (c.findDeclaration? (c.identifyOn (c.sourceType d) name args).id) := by
  rcases identifyOn_source d name args with ⟨k, hk, hid⟩ | ⟨hmany, hid⟩
  · rw [hid]
    exact h.inferredLanding_of_single hk
  · rw [hid]
    refine h.inferredLanding_of_several ?_
    match hcs : c.sourceCandidates d name (args.map some) with
    | [] => exact absurd hcs hne
    | [k] => exact absurd hcs (hmany k)
    | _ :: _ :: _ => simp

/-- **Where an inferred call lands.**  In an unambiguous code base, let certain resolution leave a
call open whose arguments all have a type, and let the first of the searched types that declares an
applicable method be a declared one.  Then the call lands on a declaration, except if several methods
of that type are applicable and no method of the type or of a declared supertype answers to the types
of the arguments. -/
theorem inferred_call_lands (h : c.Unambiguous) {g : GraphConfig} (hg : g.heuristics = true)
    {m : MethodRef} (hm : c.Declared m) {s : CallSite} (hs : s ∈ c.callSites m)
    (hopen : c.resolveCall? (c.context m s.scope) s.call = none)
    (hreceiver : ∀ n ∈ s.call.receiverName?, g.excludedReceivers.contains n = false)
    (hargs : s.call.args.mapM (c.typeOf? (c.context m s.scope)) = some args) {n : String}
    (hfirst : (c.searchedTypes (c.context m s.scope) s.call).find?
      (fun t => c.declaresApplicable t s.call.name (args.map some)) = some (.source d n)) :
    ∃ t, c.resolveTarget? g (c.context m s.scope) s.call = some t ∧
      c.InferredLanding d s.call.name args t.declaration := by
  have howner := inferredOwner?_eq_some hfirst
  have hproper := h.obeys.inferredOwner (.of_declared hm s.scope)
    (fun n hn => h.obeys.siteNames hs hn) howner
  have hn : n = (c.decl d).qualifiedName := by
    cases hproper with
    | source _ hn _ => exact hn
  rw [hn] at howner
  have hne : c.sourceCandidates d s.call.name (args.map some) ≠ [] := by
    have happlicable := List.find?_some hfirst
    simpa [declaresApplicable] using happlicable
  have hinfer : c.inferCall? g.excludedReceivers (c.context m s.scope) s.call =
      some (c.identifyOn (c.sourceType d) s.call.name args) := by
    have hsome : inferCall?.infer c (c.context m s.scope) s.call =
        some (c.identifyOn (c.sourceType d) s.call.name args) := by
      rw [inferCall?.infer, hargs, Option.bind_some, howner]
      rfl
    rw [inferCall?]
    cases hname : s.call.receiverName? with
    | none => exact hsome
    | some r =>
      have hallowed := hreceiver r hname
      simp only [hallowed]
      exact hsome
  refine ⟨c.inferredTarget (c.identifyOn (c.sourceType d) s.call.name args), ?_, ?_⟩
  · rw [resolveTarget?, hopen]
    simp only [hg, if_true, hinfer, Option.map_some]
  · rw [declaration_inferredTarget]
    exact h.inferredLanding hne

end Unambiguous

end Codebase

/-! ## A call of one of two methods

Both classes pass `-1` to `f`, whose type only inference knows.  `D.f` is declared for `int` and for
`double`, `E.f` for `long` and for `double`; each of them is applicable. -/

namespace Sample

/-- A call of `f` with a negative number. -/
def callNegative : CallSite := ⟨⟨none, "f", [.unary .neg (.literal .int)]⟩, 0, 1⟩

/-- A class with two methods `f` and one that makes the call. -/
def overloaded (name : String) (p q : Primitive) : TypeDecl :=
  classDecl name []
    [unary "f" (.primitive p) [], unary "f" (.primitive q) [], method "g" [callNegative]]

/-- The two classes. -/
def overloads : Codebase :=
  { code with types := [overloaded "D" .int .double, overloaded "E" .long .double] }

end Sample

namespace Codebase

namespace Unambiguous

/-- The call in `D` lands on the method for `int`. -/
theorem inferred_call_lands_sample :
    Sample.overloads.Unambiguous ∧
      Sample.overloads.resolveCall? (Sample.overloads.context ⟨⟨0⟩, 2⟩ 0) Sample.callNegative.call =
        none ∧
      ∃ t, Sample.overloads.resolveTarget? .default (Sample.overloads.context ⟨⟨0⟩, 2⟩ 0)
          Sample.callNegative.call = some t ∧ t.declaration = some ⟨⟨0⟩, 0⟩ := by
  have hu : Sample.overloads.Unambiguous := by decide +kernel
  have hopen : Sample.overloads.resolveCall? (Sample.overloads.context ⟨⟨0⟩, 2⟩ 0)
      Sample.callNegative.call = none := by rfl
  have hargs : Sample.callNegative.call.args.mapM
      (Sample.overloads.typeOf? (Sample.overloads.context ⟨⟨0⟩, 2⟩ 0)) =
        some [.primitive .int] := by rfl
  obtain ⟨n, hfirst⟩ : ∃ n, (Sample.overloads.searchedTypes (Sample.overloads.context ⟨⟨0⟩, 2⟩ 0)
      Sample.callNegative.call).find? (fun t => Sample.overloads.declaresApplicable t "f"
        [some (.primitive .int)]) = some (.source ⟨0⟩ n) :=
    TypeInfo.exists_source_of_sourceId? (by decide +kernel)
  have hdeclared : Sample.overloads.Declared ⟨⟨0⟩, 2⟩ :=
    declared_of_mem_methodsOf (by decide +kernel : ⟨⟨0⟩, 2⟩ ∈ Sample.overloads.methodsOf ⟨0⟩)
  obtain ⟨t, ht, hlands⟩ := hu.inferred_call_lands (g := .default) rfl hdeclared
    (s := Sample.callNegative) (List.mem_singleton_self _) hopen (by decide) hargs hfirst
  exact ⟨hu, hopen, t, ht, hlands.sameTypes _ (by decide +kernel) (by decide +kernel)⟩

/-- **A call that lands nowhere.**  The call in `E` is found there, but neither method answers to
`E#f(int)`: no declaration is called, although there are two that could be. -/
theorem inferred_call_lost_sample :
    ¬∀ (c : Codebase) (m : MethodRef) (s : CallSite) (args : List TypeInfo) (d : TypeId)
        (n : String),
      c.Unambiguous → s ∈ c.callSites m → c.resolveCall? (c.context m s.scope) s.call = none →
      s.call.args.mapM (c.typeOf? (c.context m s.scope)) = some args →
      (c.searchedTypes (c.context m s.scope) s.call).find?
          (fun t => c.declaresApplicable t s.call.name (args.map some)) = some (.source d n) →
        ∃ t, c.resolveTarget? .default (c.context m s.scope) s.call = some t ∧
          ∃ k ∈ c.sourceCandidates d s.call.name (args.map some), t.declaration = some k := by
  intro h
  obtain ⟨n, hfirst⟩ : ∃ n, (Sample.overloads.searchedTypes (Sample.overloads.context ⟨⟨1⟩, 2⟩ 0)
      Sample.callNegative.call).find? (fun t => Sample.overloads.declaresApplicable t "f"
        [some (.primitive .int)]) = some (.source ⟨1⟩ n) :=
    TypeInfo.exists_source_of_sourceId? (by decide +kernel)
  obtain ⟨t, ht, k, -, hk⟩ := h Sample.overloads ⟨⟨1⟩, 2⟩ Sample.callNegative [.primitive .int] ⟨1⟩
    n (by decide +kernel) (List.mem_singleton_self _) (by rfl) (by rfl) hfirst
  have hlost : (Sample.overloads.resolveTarget? .default
      (Sample.overloads.context ⟨⟨1⟩, 2⟩ Sample.callNegative.scope)
      Sample.callNegative.call).bind CallTarget.declaration = none := by decide +kernel
  rw [ht, Option.bind_some, hk] at hlost
  exact absurd hlost (by simp)

end Unambiguous

end Codebase

end JavaCallGraph

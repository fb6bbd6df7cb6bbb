import JavaCallGraph.Proofs.Accessors
import JavaCallGraph.Proofs.Lowering.ScopeTree
import JavaCallGraph.Proofs.Typing.Recursion
import JavaCallGraph.Proofs.WalksUp

/-!
# Inference ends

Inference asks questions in turn, and to answer one it walks: up the hierarchy, outwards through
the scopes of the body, and outwards through the types around a type.  All of that comes to an end
at every place of every code base, if no chain of variables declared with `var` leads back to itself
there.  The hierarchy may be cyclic.

* `Answers.YieldsAt` — the types in an answer are types that the code base yields, and walks up from
  those end (`Codebase.Yielded.endsUpwards`).  A step keeps this (`Codebase.yieldsAt_step`), and by
  induction on the recursion it holds of all answers.
* `Codebase.isScopeTree_of_body` — the bodies in an assembled code base are trees of scopes.
* `Codebase.inference_ends` — the main statement, `Codebase.InferenceEnds`.
-/

set_option autoImplicit false

namespace JavaCallGraph

namespace Codebase

variable {c : Codebase} {ctx : ExprContext} {t s : TypeInfo}

/-! ## What yielded types lead to -/

theorem Yielded.of_reaches (h : c.Yielded t) (hs : Relation.TransGen c.StepsUp t s) :
    c.Yielded s := by
  induction hs with
  | single hstep => exact h.of_mem_supertypes hstep
  | tail _ hstep ih => exact ih.of_mem_supertypes hstep

/-- **Every supertype of a yielded type is yielded.** -/
theorem Yielded.of_mem_ancestors (h : c.Yielded t) (hs : s ∈ c.ancestors t) : c.Yielded s :=
  h.of_reaches (stepsUp_of_mem_ancestorsWithin hs)

theorem Yielded.of_mem_withAncestors (h : c.Yielded t) (hs : s ∈ c.withAncestors t) :
    c.Yielded s := by
  rcases List.mem_cons.mp hs with rfl | hs
  · exact h
  · exact h.of_mem_ancestors hs

theorem Yielded.of_known? (h : c.Yielded t) (hs : t.known? = some s) : c.Yielded s := by
  rwa [eq_of_known? hs]

theorem Yielded.of_component? (h : c.Yielded t) (hs : t.component? = some s) : c.Yielded s := by
  cases h with
  | array ht => exact Option.some.inj hs ▸ ht
  | _ => exact absurd hs (by simp [TypeInfo.component?])

theorem Yielded.of_declaredFieldType? (h : c.Yielded t) {n : String}
    (hs : c.declaredFieldType? t n = some s) : c.Yielded s := by
  cases t with
  | source id m =>
    rw [declaredFieldType?] at hs
    split at hs
    · exact Option.some.inj hs ▸ h
    · obtain ⟨f, -, rfl⟩ := Option.map_eq_some_iff.mp hs
      exact yielded_qualify _ _
  | compiled ct =>
    obtain ⟨f, -, rfl⟩ := Option.map_eq_some_iff.mp hs
    exact yields_typeInfo _ _
  | _ => exact absurd hs (by simp [declaredFieldType?])

theorem Yielded.of_fieldType? (h : c.Yielded t) {n : String} (hs : c.fieldType? t n = some s) :
    c.Yielded s := by
  unfold fieldType? at hs
  split at hs
  · split at hs
    · exact Option.some.inj hs ▸ .primitive _
    · exact absurd hs (by simp)
  · obtain ⟨u, hu, hus⟩ := List.exists_of_findSome?_eq_some hs
    have herased : c.Yielded (c.erased t) := h.erased
    exact (herased.of_mem_withAncestors hu).of_declaredFieldType? hus

/-! ## What stands in the text -/

theorem yielded_thisType (ctx : ExprContext) : c.Yielded (c.thisType ctx) := by
  rw [thisType]
  split
  · exact yielded_qualify _ _
  · exact yields_sourceType _ _

theorem yielded_of_superType? (h : c.superType? ctx = some t) : c.Yielded t := by
  rw [superType?] at h
  split at h
  · exact Option.some.inj h ▸ yielded_qualify _ _
  · exact yielded_of_mem_supertypes_source (superclass?_mem_supertypes h)

theorem yielded_of_literalType? {l : Literal} (h : c.literalType? l = some t) : c.Yielded t := by
  cases l with
  | string => exact Option.some.inj h ▸ yields_typeInfo _ _
  | null => exact absurd h (by simp [literalType?])
  | _ => exact Option.some.inj h ▸ .primitive _

theorem yielded_paramType (scope : TypeScope) (p : Param) : c.Yielded (c.paramType scope p) := by
  rw [paramType]
  split
  · exact .array (yielded_qualify _ _)
  · exact yielded_qualify _ _

theorem yielded_of_certainNameType? {n : String} (h : c.certainNameType? ctx n = some t) :
    c.Yielded t := by
  rw [certainNameType?] at h
  split at h
  · split at h
    · exact absurd h (by simp)
    · exact Option.some.inj h ▸ yielded_qualify _ _
  · obtain ⟨r, -, rfl⟩ := Option.map_eq_some_iff.mp h
    exact yielded_qualify _ _
  · exact Option.some.inj h ▸ yielded_paramType _ _
  · obtain ⟨f, -, rfl⟩ := Option.map_eq_some_iff.mp h
    exact yielded_qualify _ _

theorem yielded_of_globalNameType? {n : String} (h : c.globalNameType? ctx n = some t) :
    c.Yielded t := by
  rcases Option.or_eq_some_iff.mp h with h | ⟨-, h⟩
  · obtain ⟨id, -, hid⟩ := List.exists_of_findSome?_eq_some h
    exact Yielded.of_fieldType? (yields_sourceType _ id) hid
  rcases Option.or_eq_some_iff.mp h with h | ⟨-, h⟩
  · exact yields_of_lookup? _ h
  · obtain ⟨o, ho, hf⟩ := List.exists_of_findSome?_eq_some h
    exact Yielded.of_fieldType? (yields_of_mem_staticImportOwners _ ho) hf

/-! ## What is found by name -/

theorem yielded_of_returnType? {m : MethodRef} (h : c.returnType? m = some t) : c.Yielded t := by
  rw [returnType?] at h
  split at h
  · exact absurd h (by simp)
  · exact Option.some.inj h ▸ yielded_qualify _ _

theorem yielded_of_compiledReturnType? {m : CompiledMethod}
    (h : c.compiledReturnType? m = some t) : c.Yielded t := by
  rw [compiledReturnType?] at h
  split at h
  · exact absurd h (by simp)
  · exact Option.some.inj h ▸ yields_typeInfo _ _

/-- A resolved call has a type that declares it and a type of its result, and both are yielded. -/
structure ResolvedYielded (c : Codebase) (r : ResolvedCall) : Prop where
  declaring : c.Yielded r.declaring
  returnType : ∀ u ∈ r.returnType, c.Yielded u

theorem resolvedYielded_of_selectCall? (h : c.Yielded t) {name : String} {args : List TypeInfo}
    {r : ResolvedCall} (hr : c.selectCall? t name args = some r) : c.ResolvedYielded r := by
  obtain ⟨k, hk, rfl⟩ := Option.map_eq_some_iff.mp hr
  have hmem := mem_of_mem_nearestBySignature (mem_of_choose? hk)
  obtain ⟨u, hu, hku⟩ := List.mem_flatMap.mp (List.mem_filter.mp hmem).1
  have howner := h.of_mem_withAncestors hu
  cases u with
  | source id n =>
    obtain ⟨m, -, rfl⟩ := List.mem_map.mp hku
    exact ⟨howner, fun u hu => yielded_of_returnType? hu⟩
  | compiled ct =>
    obtain ⟨m, -, rfl⟩ := List.mem_map.mp hku
    exact ⟨howner, fun u hu => yielded_of_compiledReturnType? hu⟩
  | _ => exact absurd hku List.not_mem_nil

theorem yielded_of_lookupUnqualified? {name : String} {args : List Argument}
    (h : c.lookupUnqualified? ctx name args = some t) : c.Yielded t := by
  rcases Option.or_eq_some_iff.mp h with h | ⟨-, h⟩
  · obtain ⟨u, hu, hut⟩ := List.mem_flatMap.mp (List.mem_of_find?_eq_some h)
    refine Yielded.of_mem_withAncestors (t := u) ?_ hut
    rcases List.mem_append.mp hu with hu | hu
    · obtain ⟨base, -, rfl⟩ := Option.map_eq_some_iff.mp (Option.mem_toList.mp hu)
      exact yielded_qualify _ _
    · obtain ⟨id, -, rfl⟩ := List.mem_map.mp hu
      exact yields_sourceType _ _
  · exact yields_of_mem_staticImportOwners _ (List.mem_of_find?_eq_some h)

theorem yielded_of_resultOn? {name : String} {args : List Argument} {ts : List TypeInfo}
    (h : c.resultOn? name args ts = some t) : c.Yielded t := by
  rw [resultOn?_eq_bind] at h
  obtain ⟨u, -, hu⟩ := Option.bind_eq_some_iff.mp h
  cases u with
  | source id n =>
    obtain ⟨m, -, hm⟩ := Option.bind_eq_some_iff.mp hu
    exact yielded_of_returnType? hm
  | compiled ct =>
    obtain ⟨k, -, hk⟩ := Option.bind_eq_some_iff.mp hu
    exact yielded_of_compiledReturnType? hk
  | _ => exact absurd hu (by simp [resultAt?])

theorem Yielded.nearest (h : c.Yielded t) (name : String) (args : List Argument) :
    c.Yielded (c.nearest name args t) := by
  rw [Codebase.nearest]
  cases hfound : (c.withAncestors t).find? fun s => c.declaresApplicable s name args with
  | none => exact h
  | some s => exact h.of_mem_withAncestors (List.mem_of_find?_eq_some hfound)

/-- An inferred callee is found on a yielded type. -/
theorem Yielded.declaring_identifyOn (h : c.Yielded t) (name : String) (args : List TypeInfo) :
    c.Yielded (c.identifyOn t name args).declaring := by
  unfold identifyOn
  split
  · split
    · next k hk =>
      have hcandidate := mem_compiledCandidates_of_selectCompiled? hk
      have hfound := (Obeys.trivial c).mem_distinctCompiled hcandidate
      obtain ⟨u, hu, hku⟩ := List.mem_flatMap.mp hfound
      have howner := h.of_mem_withAncestors hu
      cases u with
      | compiled ct =>
        obtain ⟨m, -, rfl⟩ := List.mem_map.mp hku
        exact howner
      | _ => exact absurd hku List.not_mem_nil
    · exact h
  · split <;> exact h
  · exact h

/-! ## Operators -/

theorem yielded_of_arithmeticType? {op : BinaryOp} {l r : TypeInfo}
    (h : c.arithmeticType? op l r = some t) : c.Yielded t := by
  rw [arithmeticType?] at h
  split at h
  · exact Option.some.inj h ▸ .primitive _
  split at h
  · exact Option.some.inj h ▸ .primitive _
  split at h
  · exact Option.some.inj h ▸ yields_typeInfo _ _
  · exact absurd h (by simp)

theorem Yielded.joinTypes (h : c.Yielded t) (hs : c.Yielded s) : c.Yielded (c.joinTypes t s) := by
  rw [Codebase.joinTypes]
  split
  · exact h
  split
  · exact hs
  split
  · exact .primitive _
  split
  · next u hu =>
    have hbelow := mem_superclasses_of_belowObject (List.mem_of_find?_eq_some hu)
    exact h.of_mem_ancestors (mem_ancestors_of_mem_superclasses hbelow.1)
  split
  · next i hi =>
    have hshared : i ∈ c.sharedInterfaces t s := by
      rw [hi]
      exact List.mem_cons_self
    exact h.of_mem_ancestors (List.mem_filter.mp hshared).1
  · exact yields_typeInfo _ _

theorem yielded_of_conditionalType? {a b : Option TypeInfo} (ha : ∀ u ∈ a, c.Yielded u)
    (hb : ∀ u ∈ b, c.Yielded u) (h : c.conditionalType? a b = some t) : c.Yielded t := by
  cases a with
  | none => exact hb t h
  | some a =>
    cases b with
    | none => exact ha t h
    | some b => exact Option.some.inj h ▸ (ha a rfl).joinTypes (hb b rfl)

end Codebase

/-! ## The types in an answer -/

/-- **The types in the answer to a question are yielded.** -/
def Answers.YieldsAt (c : Codebase) (a : Answers) : Question → Prop
  | .certain role e => ∀ t ∈ a.certain role e, c.Yielded t
  | .declaration call => ∀ r ∈ a.declaration call, c.ResolvedYielded r
  | .type e => ∀ t ∈ a.type e, c.Yielded t
  | .result call => ∀ t ∈ a.result call, c.Yielded t
  | .callee call => ∀ k ∈ a.callee call, c.Yielded k.declaring

namespace Codebase

variable {c : Codebase} {excluded : List String} {ctx : ExprContext} {a : Answers} {t : TypeInfo}

theorem yielded_of_certainStep? {role : Role} {e : Expr}
    (h : ∀ p ∈ ctx.subquestions (.certain role e), a.YieldsAt c p)
    (ht : c.certainStep? ctx a role e = some t) : c.Yielded t := by
  cases e with
  | literal l => exact yielded_of_literalType? ht
  | this => exact Option.some.inj ht ▸ yielded_thisType ctx
  | super =>
    rw [certainStep?] at ht
    split at ht
    · exact yielded_of_superType? ht
    · exact absurd ht (by simp)
  | name n =>
    rw [certainStep?] at ht
    split at ht
    · exact yields_of_lookup? _ ht
    · exact yielded_of_certainNameType? ht
  | new r args => exact (yielded_qualify _ r).of_known? ht
  | cast r operand => exact (yielded_qualify _ r).of_known? ht
  | field receiver n =>
    obtain ⟨owner, howner, ht⟩ := Option.bind_eq_some_iff.mp ht
    obtain ⟨u, hu, huo⟩ := Option.bind_eq_some_iff.mp howner
    obtain ⟨f, hf, hft⟩ := Option.bind_eq_some_iff.mp ht
    have hreceiver : c.Yielded u := h (.certain .receiver receiver) (List.mem_singleton_self _) u hu
    exact ((hreceiver.of_known? huo).of_fieldType? hf).of_known? hft
  | call receiver n args =>
    obtain ⟨r, hr, ht⟩ := Option.bind_eq_some_iff.mp ht
    obtain ⟨u, hu, hut⟩ := Option.bind_eq_some_iff.mp ht
    have hcall : c.ResolvedYielded r :=
      h (.declaration ⟨receiver, n, args⟩) (List.mem_singleton_self _) r hr
    exact (hcall.returnType u hu).of_known? hut
  | _ => exact absurd ht (by simp [certainStep?])

theorem resolvedYielded_of_declarationStep? {call : MethodCall}
    (h : ∀ p ∈ ctx.subquestions (.declaration call), a.YieldsAt c p) {r : ResolvedCall}
    (hr : c.declarationStep? ctx a call = some r) : c.ResolvedYielded r := by
  obtain ⟨owner, howner, hr⟩ := Option.bind_eq_some_iff.mp hr
  obtain ⟨args, -, hr⟩ := Option.bind_eq_some_iff.mp hr
  refine resolvedYielded_of_selectCall? ?_ hr
  have hreceiver : ∀ p ∈ Question.ofCertainOwner call.receiver, a.YieldsAt c p :=
    fun p hp => h p (List.mem_append_left _ hp)
  cases hcall : call.receiver with
  | none =>
    rw [hcall] at howner
    exact Option.some.inj howner ▸ yielded_thisType ctx
  | some e =>
    rw [hcall] at howner hreceiver
    by_cases hthis : e = .this
    · rw [hthis] at howner
      exact Option.some.inj howner ▸ yielded_thisType ctx
    · rw [certainOwnerStep?.eq_3 c ctx a e hthis] at howner
      rw [Question.ofCertainOwner.eq_3 e hthis] at hreceiver
      obtain ⟨u, hu, huo⟩ := Option.bind_eq_some_iff.mp howner
      have hu : c.Yielded u := hreceiver _ (List.mem_singleton_self _) u hu
      exact hu.of_known? huo

theorem yielded_of_ownerStep? {receiver : Option Expr}
    (h : ∀ p ∈ Question.ofOwner receiver, a.YieldsAt c p) {name : String} {args : List Argument}
    (ht : c.ownerStep? ctx a name args receiver = some t) : c.Yielded t := by
  cases receiver with
  | none => exact yielded_of_lookupUnqualified? ht
  | some e =>
    by_cases hsuper : e = .super
    · rw [hsuper] at ht
      exact yielded_of_superType? ht
    · rw [ownerStep?.eq_3 c ctx a name args e hsuper] at ht
      rw [Question.ofOwner.eq_3 e hsuper] at h
      obtain ⟨u, hu, rfl⟩ := Option.map_eq_some_iff.mp ht
      have hu : c.Yielded u := h _ (List.mem_singleton_self _) u hu
      exact hu.erased

theorem yielded_of_nameType? {typed : Expr → Option TypeInfo} {n : String}
    (h : ∀ i, ctx.ValueOf n i → ∀ u ∈ typed i, c.Yielded u)
    (ht : c.nameType? typed ctx n = some t) : c.Yielded t := by
  rw [nameType?] at ht
  split at ht
  · next v hv =>
    split at ht
    · next hinferred =>
      split at ht
      · next i hi => exact h i ⟨v, hv, hinferred, by rw [LocalVar.value?, hi, Option.some_or]⟩ t ht
      · next i hnone hi =>
        obtain ⟨u, hu, hut⟩ := Option.bind_eq_some_iff.mp ht
        have hvalue : ctx.ValueOf n i :=
          ⟨v, hv, hinferred, by rw [LocalVar.value?, hnone, Option.none_or, hi]⟩
        exact (h i hvalue u hu).of_component? hut
      · exact absurd ht (by simp)
    · exact Option.some.inj ht ▸ yielded_qualify _ _
  · obtain ⟨r, -, rfl⟩ := Option.map_eq_some_iff.mp ht
    exact yielded_qualify _ _
  · exact Option.some.inj ht ▸ yielded_paramType _ _
  · exact yielded_of_globalNameType? ht

theorem yielded_of_structuralStep? {e : Expr}
    (h : ∀ p ∈ Question.ofStructure ctx e, a.YieldsAt c p)
    (ht : c.structuralStep? ctx a e = some t) : c.Yielded t := by
  have htype : ∀ d, .type d ∈ Question.ofStructure ctx e → ∀ u ∈ a.type d, c.Yielded u :=
    fun d hd => h _ hd
  cases e with
  | literal l => exact yielded_of_literalType? ht
  | name n =>
    refine yielded_of_nameType? (fun i hi => htype i ?_) ht
    simp [Question.ofStructure, hi.value?_eq]
  | field receiver n =>
    rcases Option.or_eq_some_iff.mp ht with ht | ⟨-, ht⟩
    · obtain ⟨u, hu, hf⟩ := Option.bind_eq_some_iff.mp ht
      exact (htype receiver (by simp [Question.ofStructure]) u hu).of_fieldType? hf
    · obtain ⟨d, -, hd⟩ := Option.bind_eq_some_iff.mp ht
      exact yields_of_lookup? _ hd
  | call receiver n args => exact h _ (List.mem_singleton_self _) t ht
  | new r args => exact Option.some.inj ht ▸ yielded_qualify _ r
  | newArray r => exact Option.some.inj ht ▸ yielded_qualify _ r
  | cast r operand => exact Option.some.inj ht ▸ yielded_qualify _ r
  | index array =>
    obtain ⟨u, hu, hut⟩ := Option.bind_eq_some_iff.mp ht
    exact (htype array (by simp [Question.ofStructure]) u hu).of_component? hut
  | binary op l r =>
    rw [structuralStep?] at ht
    split at ht
    · exact Option.some.inj ht ▸ .primitive _
    split at ht
    · exact Option.some.inj ht ▸ yields_typeInfo _ _
    · obtain ⟨lt, -, ht⟩ := Option.bind_eq_some_iff.mp ht
      obtain ⟨rt, -, ht⟩ := Option.bind_eq_some_iff.mp ht
      exact yielded_of_arithmeticType? ht
  | unary op operand =>
    by_cases hop : op = .not
    · rw [hop] at ht
      exact Option.some.inj ht ▸ .primitive _
    · rw [structuralStep?.eq_12 c ctx a op operand hop] at ht
      exact htype operand (by simp [Question.ofStructure]) t ht
  | instanceOf operand => exact Option.some.inj ht ▸ .primitive _
  | conditional positive negative =>
    exact yielded_of_conditionalType? (htype positive (by simp [Question.ofStructure]))
      (htype negative (by simp [Question.ofStructure])) ht
  | assign target value => exact htype target (by simp [Question.ofStructure]) t ht
  | this => exact Option.some.inj ht ▸ yielded_thisType ctx
  | super => exact yielded_of_superType? ht
  | classLiteral r => exact Option.some.inj ht ▸ yields_typeInfo _ _
  | _ => exact absurd ht (by simp [structuralStep?])

theorem yielded_of_calleeStep? {call : MethodCall}
    (h : ∀ p ∈ ctx.subquestions (.callee call), a.YieldsAt c p) {k : InferredCall}
    (hk : c.calleeStep? excluded ctx a call = some k) : c.Yielded k.declaring := by
  have howner : ∀ args u, c.ownerStep? ctx a call.name args call.receiver = some u → c.Yielded u :=
    fun args u hu => yielded_of_ownerStep? (fun p hp => h p (List.mem_append_left _ hp)) hu
  rw [calleeStep?] at hk
  split at hk
  · exact absurd hk (by simp)
  · obtain ⟨args, -, hk⟩ := Option.bind_eq_some_iff.mp hk
    obtain ⟨u, hu, rfl⟩ := Option.map_eq_some_iff.mp hk
    refine Yielded.declaring_identifyOn ?_ call.name args
    split at hu
    · exact howner _ u hu
    · obtain ⟨r, hr, rfl⟩ := Option.map_eq_some_iff.mp hu
      exact (howner _ r hr).nearest _ _

/-- **A step makes yielded types of yielded types.** -/
theorem yieldsAt_step {q : Question} (h : ∀ p ∈ ctx.subquestions q, a.YieldsAt c p) :
    (c.step excluded ctx a).YieldsAt c q := by
  cases q with
  | certain role e => exact fun t ht => yielded_of_certainStep? h ht
  | declaration call => exact fun r hr => resolvedYielded_of_declarationStep? h hr
  | type e =>
    intro t ht
    rcases Option.or_eq_some_iff.mp ht with ht | ⟨-, ht⟩
    · exact h (.certain .value e) List.mem_cons_self t ht
    · exact yielded_of_structuralStep? (fun p hp => h p (List.mem_cons_of_mem _ hp)) ht
  | result call =>
    intro t ht
    rcases Option.or_eq_some_iff.mp ht with ht | ⟨-, ht⟩
    · obtain ⟨r, hr, hrt⟩ := Option.bind_eq_some_iff.mp ht
      have hcall : c.ResolvedYielded r := h (.declaration call) List.mem_cons_self r hr
      exact hcall.returnType t hrt
    · obtain ⟨owner, -, ht⟩ := Option.bind_eq_some_iff.mp ht
      exact yielded_of_resultOn? ht
  | callee call => exact fun k hk => yielded_of_calleeStep? h hk

/-- **All answers have yielded types.**  The induction is on the recursion itself. -/
theorem yieldsAt_answers (h : ctx.Acyclic) (q : Question) :
    (c.answers excluded ctx).YieldsAt c q := by
  induction q using (ExprContext.wellFounded_asks h).induction with
  | _ q ih =>
    rw [← step_answers h]
    exact yieldsAt_step ih

end Codebase

/-! ## Bodies -/

/-- The bodies of the methods are trees of scopes. -/
def TypeDecl.BodiesAreTrees (t : TypeDecl) : Prop :=
  ∀ m ∈ t.methods, ∀ b ∈ m.body, b.IsScopeTree

namespace Syntax

theorem isScopeTree_lowerBody (statements : List Stmt) : (lowerBody statements).IsScopeTree := by
  rw [lowerBody_eq_ofItems]
  exact Body.isScopeTree_ofItems _

theorem TypeHeader.bodiesAreTrees_lower (h : TypeHeader) (members : List Member)
    (outer : Option Enclosing) (name : String) : (h.lower members outer name).BodiesAreTrees := by
  intro m hm b hb
  obtain ⟨member, -, hm⟩ := List.mem_flatMap.mp hm
  cases member with
  | method header body =>
    rw [List.mem_singleton.mp hm] at hb
    exact Option.some.inj hb ▸ isScopeTree_lowerBody body
  | abstractMethod header value =>
    rw [List.mem_singleton.mp hm] at hb
    exact absurd hb (by simp [MethodHeader.lower])
  | _ => exact absurd hm List.not_mem_nil

mutual

theorem bodiesAreTrees_lowerType (package : Option String) (outer : Option Enclosing) (start : Nat)
    (tree : TypeTree) : ∀ t ∈ lowerType package outer start tree, t.BodiesAreTrees := by
  intro t ht
  cases tree with
  | mk header members =>
    rcases List.mem_cons.mp ht with rfl | ht
    · exact header.bodiesAreTrees_lower members outer _
    · exact bodiesAreTrees_lowerNested package _ _ members t ht

theorem bodiesAreTrees_lowerNested (package : Option String) (owner : Enclosing) (start : Nat)
    (ms : List Member) : ∀ t ∈ lowerNested package owner start ms, t.BodiesAreTrees := by
  intro t ht
  cases ms with
  | nil => exact absurd ht List.not_mem_nil
  | cons m ms =>
    cases m with
    | type tree =>
      rcases List.mem_append.mp ht with ht | ht
      · exact bodiesAreTrees_lowerType package _ start tree t ht
      · exact bodiesAreTrees_lowerNested package owner _ ms t ht
    | _ => exact bodiesAreTrees_lowerNested package owner start ms t ht

end

theorem UnitTree.bodiesAreTrees_lower (u : UnitTree) : ∀ t ∈ u.lower.types, t.BodiesAreTrees := by
  refine List.foldlRecOn (motive := fun f : ParsedFile => ∀ t ∈ f.types, t.BodiesAreTrees)
    u.items _ (fun t ht => absurd ht List.not_mem_nil) fun f hf item _ => ?_
  cases item with
  | type tree =>
    intro t ht
    rcases List.mem_append.mp ht with ht | ht
    · exact hf t ht
    · exact bodiesAreTrees_lowerType f.package none _ tree t ht
  | _ => exact hf

end Syntax

/-- Accessors have no bodies. -/
theorem TypeDecl.bodiesAreTrees_withAccessors {t : TypeDecl} (h : t.BodiesAreTrees) :
    t.withAccessors.BodiesAreTrees := by
  intro m hm b hb
  rw [Accessor.methods_withAccessors] at hm
  rcases List.mem_append.mp hm with hm | hm
  · exact h m hm b hb
  · obtain ⟨f, -, -, hasks⟩ := Accessor.mem_ofType_iff.mp (Layers.mem_of_mem_fresh hm)
    rw [hasks.body_eq_none] at hb
    exact absurd hb (by simp)

namespace Codebase

theorem bodiesAreTrees_place {t : TypeDecl} (h : t.BodiesAreTrees) (withAccessors : Bool)
    (unit base : Nat) : (place withAccessors unit base t).BodiesAreTrees := by
  cases withAccessors with
  | false => exact h
  | true =>
    exact TypeDecl.bodiesAreTrees_withAccessors (t := { t with unit := ⟨unit⟩, outer := _ }) h

/-- **The bodies in an assembled code base are trees of scopes.** -/
theorem isScopeTree_of_body (withAccessors : Bool) (catalog : Catalog) (files : List SourceTree)
    {m : MethodRef} {b : Body}
    (hb : ((assemble withAccessors catalog (files.map SourceTree.lower)).method m).body = some b) :
    b.IsScopeTree := by
  have htypes : ∀ t ∈ (assemble withAccessors catalog (files.map SourceTree.lower)).types,
      t.BodiesAreTrees := by
    refine assemble_induction (P := fun c => ∀ t ∈ c.types, t.BodiesAreTrees)
      (fun t ht => absurd ht List.not_mem_nil) fun c hc f hf t ht => ?_
    obtain ⟨file, -, rfl⟩ := List.mem_map.mp hf
    rcases List.mem_append.mp ht with ht | ht
    · exact hc t ht
    · obtain ⟨u, hu, rfl⟩ := List.mem_map.mp ht
      exact bodiesAreTrees_place (file.tree.bodiesAreTrees_lower u hu) _ _ _
  generalize assemble withAccessors catalog (files.map SourceTree.lower) = c at htypes hb
  have hdecl : (c.decl m.owner).BodiesAreTrees := by
    by_cases hid : m.owner.index < c.types.length
    · rw [decl_eq_getElem hid]
      exact htypes _ (List.getElem_mem hid)
    · rw [decl_eq_default hid]
      exact fun m hm => absurd hm List.not_mem_nil
  rw [method] at hb
  cases hm : (c.decl m.owner).methods[m.position]? with
  | none =>
    rw [hm] at hb
    exact absurd hb (by simp [show (default : MethodDecl).body = none from rfl])
  | some d =>
    rw [hm] at hb
    exact hdecl d (List.mem_of_getElem? hm) b hb

/-! ## The main statement -/

/-- **Inference ends** at a place of a code base. -/
structure InferenceEnds (c : Codebase) (excluded : List String) (ctx : ExprContext) : Prop where
  /-- The functions of the library answer as the recursion does. -/
  solves : c.step excluded ctx (c.answers excluded ctx) = c.answers excluded ctx
  /-- One step of the recursion uses no other answers than those to its subquestions. -/
  local_step : ∀ (a b : Answers) (q : Question), (∀ p ∈ ctx.subquestions q, a.SameAt b p) →
    (c.step excluded ctx a).SameAt (c.step excluded ctx b) q
  /-- No chain of questions goes on for ever, and each question has finitely many subquestions. -/
  ends : WellFounded fun p q => p ∈ ctx.subquestions q
  /-- So each answer is there after finitely many steps, whatever the first of them begins with. -/
  reached : ∀ q, ∃ n, ∀ k, n ≤ k → ∀ a,
    ((c.step excluded ctx)^[k] a).SameAt (c.answers excluded ctx) q
  /-- The types in an answer are yielded by the code base. -/
  yields : ∀ q, (c.answers excluded ctx).YieldsAt c q
  /-- So are those that canonical names stand for. -/
  named : ∀ n, c.Yielded (c.typeInfo n)
  /-- So are those that written types stand for. -/
  written : ∀ scope r, c.Yielded (c.qualify scope r)
  /-- The walks up from these types end, also where the hierarchy is cyclic. -/
  upwards : ∀ t, c.Yielded t → c.EndsUpwards t
  /-- The walk outwards through the scopes of the body ends, and names are looked up in its scopes. -/
  scopes : ∀ b, ctx.decl.body = some b → ∀ s : ScopeId, ∃ ids, b.WalksOut (some s) ids ∧
    (b.chain s).map some = ids.map fun id => b.scopes[id]?
  /-- The walk outwards through the types around a type ends, and it lists `enclosing`. -/
  around : ∀ id, (∀ n, (c.enclosing id)[n]? = c.outward n id) ∧ ∃ n, c.outward n id = none

/-- **Inference ends at every place of every assembled code base**, if no chain of variables
declared with `var` leads back to itself there. -/
theorem inference_ends (withAccessors : Bool) (catalog : Catalog) (files : List SourceTree)
    (excluded : List String) (m : MethodRef) (scope : ScopeId)
    (h : ∀ x, ¬Relation.TransGen (ExprContext.LeadsOn
      ((assemble withAccessors catalog (files.map SourceTree.lower)).context m scope)) x x) :
    (assemble withAccessors catalog (files.map SourceTree.lower)).InferenceEnds excluded
      ((assemble withAccessors catalog (files.map SourceTree.lower)).context m scope) where
  solves := step_answers h
  local_step _ _ _ hsame := step_congr hsame
  ends := ExprContext.wellFounded_asks h
  reached q := exists_iterate_step h q
  yields q := yieldsAt_answers h q
  named := yields_typeInfo _
  written := yielded_qualify
  upwards _ ht := ht.endsUpwards
  scopes b hb s := by
    have htree := isScopeTree_of_body withAccessors catalog files hb
    obtain ⟨ids, hids⟩ := htree.exists_walksOut s
    exact ⟨ids, hids, htree.chain_eq hids⟩
  around id := by
    have hformed := WellFormed.assemble_lower withAccessors catalog files
    exact ⟨fun n => hformed.getElem?_enclosing n id, hformed.exists_outward_eq_none id⟩

end Codebase

namespace Sample

/-- A class that extends another one. -/
def extendingTree (name superclass : String) (members : List Syntax.Member) : Syntax.TypeTree :=
  .mk ⟨⟨[], []⟩, .plainClass, name, [], [], [.simple superclass], [], 1⟩ members

/-- The declaration of a variable with `var`. -/
def declareVar (name : String) (value : Syntax.Expr) : Syntax.Stmt :=
  .declare [.mk name .inferred (some value)]

/-- Two classes that extend each other.  In the first one a method has two variables, and the value
of the second one is the first one. -/
def twinFile : SourceTree :=
  ⟨"A.java", none, ⟨[
    .type (extendingTree "A" "B" [.method ⟨⟨[], []⟩, [], .void, "m", [], 1, 4⟩
      [declareVar "x" (.new none (.simple "A") []), declareVar "y" (.name "x")]]),
    .type (extendingTree "B" "A" [])]⟩⟩

/-- The two classes. -/
def twins : Codebase := .assemble false .empty ([twinFile].map SourceTree.lower)

/-- The body of the method. -/
def twinPlace : ExprContext := twins.context ⟨⟨0⟩, 0⟩ 0

theorem acyclic_twinPlace : twinPlace.Acyclic := by
  refine ExprContext.acyclic_of_rank (fun n => if n = "y" then 1 else 0) ?_
  intro b hb v hv e he n hn
  obtain rfl : ⟨[⟨none, .method, [⟨"x", .inferred, some (.new (.simple "A") []), none⟩,
    ⟨"y", .inferred, some (.name "x"), none⟩], []⟩], []⟩ = b := Option.some.inj hb
  simp only [Body.locals, List.flatMap_cons, List.flatMap_nil, List.append_nil, List.mem_cons,
    List.not_mem_nil, or_false] at hv
  rcases hv with rfl | rfl
  · obtain rfl := Option.some.inj he
    exact absurd hn List.not_mem_nil
  · obtain rfl := Option.some.inj he
    rw [List.mem_singleton.mp hn]
    decide

end Sample

namespace Codebase

/-- The second variable has the type of the first one, and the walks up from there end, although each
of the two classes is above the other. -/
theorem inference_ends_sample :
    (∀ x, ¬Relation.TransGen Sample.twinPlace.LeadsOn x x) ∧
      Sample.twins.InferenceEnds [] Sample.twinPlace ∧
      (Sample.twins.typeOf? Sample.twinPlace (.name "y")).map TypeInfo.name = some "A" ∧
      (Sample.twins.superclasses (Sample.twins.sourceType ⟨0⟩)).map TypeInfo.name = ["B"] :=
  ⟨Sample.acyclic_twinPlace, inference_ends false .empty [Sample.twinFile] [] ⟨⟨0⟩, 0⟩ 0
    Sample.acyclic_twinPlace, by decide +kernel, by decide +kernel⟩

end Codebase

end JavaCallGraph

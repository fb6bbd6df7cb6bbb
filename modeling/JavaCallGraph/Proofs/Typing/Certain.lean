import JavaCallGraph.Proofs.Typing.Proper
import JavaCallGraph.Typing.Certain

/-!
# Certain resolution hands out proper types

Certain typing and certain resolution only put together types that the code base knows:
`Codebase.Obeys.certainTypeAs` says so of the type of an expression, and
`Codebase.Obeys.genuine_of_resolveCall?` of a resolved call.

A call that is resolved comes from a *genuine* candidate.  Either it has a declaration, and then the
candidate says of it what its identity says, or it is described in the catalog.  This is where the
identity that a call is given and the identity of the declaration it is expanded to are seen to be
one and the same.
-/

set_option autoImplicit false

namespace JavaCallGraph

/-- A method that stands at its position. -/
def Codebase.Declared (c : Codebase) (m : MethodRef) : Prop := m ∈ c.methodsOf m.owner

/-- An expression context of a method that the code base declares. -/
structure Codebase.Context (c : Codebase) (ctx : ExprContext) : Prop where
  declared : c.Declared ctx.method
  decl_eq : ctx.decl = c.method ctx.method

/-- What a candidate says about the call that it is chosen for. -/
def Candidate.resolved (k : Candidate) (name : String) : ResolvedCall :=
  ⟨k.declaring, name, k.signature, k.declaration, k.returnType⟩

namespace Codebase

variable {c : Codebase} {Q : String → Prop}

/-! ## Declared methods -/

theorem mem_methodsOf {id : TypeId} {m : MethodRef} :
    m ∈ c.methodsOf id ↔ m.owner = id ∧ m.position < (c.decl id).methods.length := by
  rw [methodsOf, List.mem_map]
  constructor
  · rintro ⟨i, hi, rfl⟩
    exact ⟨rfl, List.mem_range.mp hi⟩
  · rintro ⟨rfl, hi⟩
    exact ⟨m.position, List.mem_range.mpr hi, rfl⟩

theorem declared_of_mem_methodsOf {id : TypeId} {m : MethodRef} (h : m ∈ c.methodsOf id) :
    c.Declared m := by
  have howner := (mem_methodsOf.mp h).1
  rw [Declared, howner]
  exact h

/-- An empty declaration declares nothing. -/
theorem Declared.owner_lt {m : MethodRef} (h : c.Declared m) :
    m.owner.index < c.types.length := by
  by_contra hlt
  have hpos := (mem_methodsOf.mp h).2
  rw [decl_eq_default hlt] at hpos
  exact absurd hpos (Nat.not_lt_zero _)

theorem Declared.method_mem {m : MethodRef} (h : c.Declared m) :
    c.method m ∈ (c.decl m.owner).methods := by
  have hpos := (mem_methodsOf.mp h).2
  rw [Codebase.method, List.getElem?_eq_getElem hpos, Option.getD_some]
  exact List.getElem_mem hpos

/-- The parameters of a described method have the names of its description. -/
theorem map_name_compiledParamTypes (m : CompiledMethod) :
    (c.compiledParamTypes m).map TypeInfo.name = m.params := by
  rw [compiledParamTypes, List.map_map]
  exact (List.map_congr_left fun n _ => c.name_typeInfo n).trans (List.map_id _)

namespace Obeys

theorem sourceType_owner (h : c.Obeys Q) {m : MethodRef} (hm : c.Declared m) :
    (c.sourceType m.owner).Proper c Q :=
  h.sourceType hm.owner_lt

theorem methodName (h : c.Obeys Q) {m : MethodRef} (hm : c.Declared m) : Q (c.method m).name := by
  refine h.innerNames m.owner (List.mem_append_right _ ?_)
  exact List.mem_flatMap.mpr ⟨_, hm.method_mem, List.mem_cons_self⟩

end Obeys

/-- The identity of a declared method is made of names. -/
theorem Obeys.isNamed_methodId (h : c.Obeys IsName) {m : MethodRef} (hm : c.Declared m) :
    (c.methodId m).IsNamed where
  declaringType := h.declNames hm.owner_lt List.mem_cons_self
  name := h.methodName hm
  params p hp := by
    obtain ⟨t, ht, rfl⟩ := List.mem_map.mp hp
    exact (h.paramTypes ht).isName

/-! ## Inside a method body -/

theorem mem_scopes_of_mem_chain {b : Body} {id : ScopeId} {s : LexicalScope}
    (h : s ∈ b.chain id) : s ∈ b.scopes := by
  fun_induction Body.chain b id with
  | case1 => exact absurd h List.not_mem_nil
  | case2 id s' hs ih =>
    rcases List.mem_cons.mp h with rfl | h
    · exact List.mem_of_getElem? hs
    split at h
    · exact absurd h List.not_mem_nil
    · next p _ =>
      split at h
      · next hlt => exact ih p hlt h
      · exact absurd h List.not_mem_nil

theorem Context.of_declared {m : MethodRef} (hm : c.Declared m) (scope : ScopeId) :
    c.Context (c.context m scope) :=
  ⟨hm, rfl⟩

namespace Obeys

variable {ctx : ExprContext}

theorem contextScope (h : c.Obeys Q) (hctx : c.Context ctx) : ScopeObeys c Q ctx.typeScope := by
  have hs := h.methodScope hctx.declared.owner_lt
  rw [Codebase.methodScope, ← hctx.decl_eq] at hs
  exact hs

theorem bodyNames (h : c.Obeys Q) (hctx : c.Context ctx) {b : Body} (hb : ctx.decl.body = some b)
    {n : String} (hn : n ∈ b.names) : Q n := by
  refine h.methodNames (m := ctx.method) (List.mem_append_right _ ?_)
  rw [← hctx.decl_eq]
  exact List.mem_flatMap.mpr ⟨b, Option.mem_toList.mpr hb, hn⟩

theorem scopeNames (h : c.Obeys Q) (hctx : c.Context ctx) {b : Body} (hb : ctx.decl.body = some b)
    {s : LexicalScope} (hs : s ∈ b.chain ctx.scope) {n : String} (hn : n ∈ s.names) : Q n := by
  refine h.bodyNames hctx hb (List.mem_append_left _ ?_)
  exact List.mem_flatMap.mpr ⟨s, mem_scopes_of_mem_chain hs, hn⟩

/-- What a name is bound to has types whose names obey the rule. -/
def BindingObeys (Q : String → Prop) : Binding → Prop
  | .local v => ∀ n ∈ v.names, Q n
  | .lambdaParam p => ∀ n ∈ p.names, Q n
  | .param p => ∀ n ∈ p.type.names, Q n

theorem bindingIn (h : c.Obeys Q) (hctx : c.Context ctx) {b : Body} (hb : ctx.decl.body = some b)
    {s : LexicalScope} (hs : s ∈ b.chain ctx.scope) {n : String} {v : Binding}
    (hv : ExprContext.bindingIn? n s = some v) : BindingObeys Q v := by
  rcases Option.or_eq_some_iff.mp hv with hv | ⟨-, hv⟩
  · obtain ⟨p, hp, rfl⟩ := Option.map_eq_some_iff.mp hv
    intro m hm
    refine h.scopeNames hctx hb hs (List.mem_append_right _ ?_)
    exact List.mem_flatMap.mpr ⟨p, List.mem_of_find?_eq_some hp, hm⟩
  · obtain ⟨p, hp, rfl⟩ := Option.map_eq_some_iff.mp hv
    intro m hm
    refine h.scopeNames hctx hb hs (List.mem_append_left _ (List.mem_append_right _ ?_))
    exact List.mem_flatMap.mpr ⟨p, List.mem_of_find?_eq_some hp, hm⟩

theorem binding (h : c.Obeys Q) (hctx : c.Context ctx) {n : String} {v : Binding}
    (hv : ctx.binding? n = some v) : BindingObeys Q v := by
  rcases Option.or_eq_some_iff.mp hv with hv | ⟨-, hv⟩
  · obtain ⟨b, hb, hv⟩ := Option.bind_eq_some_iff.mp hv
    obtain ⟨s, hs, hsv⟩ := List.exists_of_findSome?_eq_some hv
    exact h.bindingIn hctx hb hs hsv
  · obtain ⟨p, hp, rfl⟩ := Option.map_eq_some_iff.mp hv
    have hmem := List.mem_of_find?_eq_some hp
    rw [hctx.decl_eq] at hmem
    exact fun m hm => h.paramNames hmem hm

theorem anonymousBase (h : c.Obeys Q) (hctx : c.Context ctx) {base : TypeRef}
    (hbase : ctx.anonymousBase? = some base) : (c.qualify ctx.typeScope base).Proper c Q := by
  obtain ⟨b, hb, hbase⟩ := Option.bind_eq_some_iff.mp hbase
  obtain ⟨s, hs, hsb⟩ := List.exists_of_findSome?_eq_some hbase
  refine h.qualify (h.contextScope hctx) fun n hn => h.scopeNames hctx hb hs ?_
  split at hsb
  · next base' hk =>
    rw [← Option.some.inj hsb] at hn
    refine List.mem_append_left _ (List.mem_append_left _ ?_)
    rw [hk]
    exact hn
  · exact absurd hsb (by simp)

theorem thisType (h : c.Obeys Q) (hctx : c.Context ctx) : (c.thisType ctx).Proper c Q := by
  rw [Codebase.thisType]
  split
  · next base hbase => exact h.anonymousBase hctx hbase
  · exact h.sourceType_owner hctx.declared

theorem superType (h : c.Obeys Q) (hctx : c.Context ctx) {t : TypeInfo}
    (ht : c.superType? ctx = some t) : t.Proper c Q := by
  rw [superType?] at ht
  split at ht
  · next base hbase =>
    rw [← Option.some.inj ht]
    exact h.anonymousBase hctx hbase
  · exact h.rooted_source _ _ t (superclass?_mem_supertypes ht)

theorem literalType (h : c.Obeys Q) {l : Literal} {t : TypeInfo} (ht : c.literalType? l = some t) :
    t.Proper c Q := by
  cases l with
  | string =>
    rw [← Option.some.inj ht]
    exact h.builtin (by decide)
  | null => exact absurd ht (by simp [literalType?])
  | _ =>
    rw [← Option.some.inj ht]
    exact .primitive _

theorem certainNameType (h : c.Obeys Q) (hctx : c.Context ctx) {n : String} {t : TypeInfo}
    (ht : c.certainNameType? ctx n = some t) : t.Proper c Q := by
  rw [certainNameType?] at ht
  split at ht
  · next v hv =>
    split at ht
    · exact absurd ht (by simp)
    · rw [← Option.some.inj ht]
      refine h.qualify (h.contextScope hctx) fun m hm => h.binding hctx hv m ?_
      exact List.mem_append_left _ (List.mem_append_left _ hm)
  · next p hp =>
    obtain ⟨r, hr, rfl⟩ := Option.map_eq_some_iff.mp ht
    refine h.qualify (h.contextScope hctx) fun m hm => h.binding hctx hp m ?_
    exact List.mem_flatMap.mpr ⟨r, Option.mem_toList.mpr hr, hm⟩
  · next p hp =>
    rw [← Option.some.inj ht]
    exact h.paramType (h.contextScope hctx) (h.binding hctx hp)
  · obtain ⟨f, hf, rfl⟩ := Option.map_eq_some_iff.mp ht
    exact h.fieldDecl hctx.declared.owner_lt hf

/-! ## Candidates -/

theorem returnType (h : c.Obeys Q) {m : MethodRef} {t : TypeInfo} (ht : c.returnType? m = some t) :
    t.Proper c Q := by
  rw [returnType?] at ht
  split at ht
  · exact absurd ht (by simp)
  · next hvoid =>
    have hm : m.owner.index < c.types.length := by
      by_contra hlt
      rw [method_eq_default hlt] at hvoid
      exact hvoid rfl
    rw [← Option.some.inj ht]
    refine h.qualify (h.methodScope hm) fun n hn => h.methodNames (m := m) ?_
    exact List.mem_append_left _ (List.mem_append_right _ hn)

theorem compiledMethodTypes (h : c.Obeys Q) {t : CompiledType}
    (ht : (TypeInfo.compiled t).Proper c Q) {m : CompiledMethod} (hm : m ∈ t.methods) {n : String}
    (hn : n ∈ m.returns :: m.params) : (c.typeInfo n).Proper c Q := by
  refine h.mentioned ht (List.mem_append_left _ (List.mem_append_right _ ?_))
  exact List.mem_flatMap.mpr ⟨m, hm, hn⟩

theorem compiledParamTypes (h : c.Obeys Q) {t : CompiledType}
    (ht : (TypeInfo.compiled t).Proper c Q) {m : CompiledMethod} (hm : m ∈ t.methods)
    {p : TypeInfo} (hp : p ∈ c.compiledParamTypes m) : p.Proper c Q := by
  obtain ⟨n, hn, rfl⟩ := List.mem_map.mp hp
  exact h.compiledMethodTypes ht hm (List.mem_cons_of_mem _ hn)

theorem compiledReturnType (h : c.Obeys Q) {t : CompiledType}
    (ht : (TypeInfo.compiled t).Proper c Q) {m : CompiledMethod} (hm : m ∈ t.methods)
    {r : TypeInfo} (hr : c.compiledReturnType? m = some r) : r.Proper c Q := by
  rw [compiledReturnType?] at hr
  split at hr
  · exact absurd hr (by simp)
  · rw [← Option.some.inj hr]
    exact h.compiledMethodTypes ht hm List.mem_cons_self

end Obeys

/-- A candidate with proper types.  If it has a declaration, it says of it what is true; otherwise
it is described in the catalog. -/
structure Genuine (c : Codebase) (Q : String → Prop) (name : String) (k : Candidate) : Prop where
  declaring : k.declaring.Proper c Q
  params : ∀ t ∈ k.params, t.Proper c Q
  returnType : ∀ t ∈ k.returnType, t.Proper c Q
  declared : ∀ m ∈ k.declaration, c.Declared m ∧ k.declaring = c.sourceType m.owner ∧
    (c.method m).name = name ∧ k.params = c.paramTypes m
  described : k.declaration = none → ∃ t, k.declaring = .compiled t

namespace Obeys

theorem genuine_of_mem_declaredCandidates (h : c.Obeys Q) {owner : TypeInfo}
    (ho : owner.Proper c Q) {name : String} {arity : Nat} {k : Candidate}
    (hk : k ∈ c.declaredCandidates owner name arity) : c.Genuine Q name k := by
  cases ho with
  | @source id n hid hn hq =>
    obtain ⟨m, hm, rfl⟩ := List.mem_map.mp hk
    obtain ⟨hmem, hp⟩ := List.mem_filter.mp hm
    rw [Bool.and_eq_true, beq_iff_eq] at hp
    refine ⟨.source hid hn hq, fun t ht => h.paramTypes ht, fun t ht => h.returnType ht, ?_,
      fun hnone => absurd hnone (by simp)⟩
    intro m' hm'
    rw [← Option.some.inj hm', (mem_methodsOf.mp hmem).1, Codebase.sourceType, hn]
    exact ⟨declared_of_mem_methodsOf hmem, rfl, hp.1, rfl⟩
  | @compiled t hn hq =>
    have ht : (TypeInfo.compiled t).Proper c Q := .compiled hn hq
    obtain ⟨m, hm, rfl⟩ := List.mem_map.mp hk
    have hmem := (List.mem_filter.mp (List.mem_filter.mp hm).1).1
    exact ⟨ht, fun p hp => h.compiledParamTypes ht hmem hp,
      fun r hr => h.compiledReturnType ht hmem hr, fun m' hm' => absurd hm' (by simp),
      fun _ => ⟨t, rfl⟩⟩
  | _ => exact absurd hk List.not_mem_nil

theorem genuine_of_mem_applicableCandidates (h : c.Obeys Q) {receiver : TypeInfo}
    (hr : receiver.Proper c Q) {name : String} {args : List TypeInfo} {k : Candidate}
    (hk : k ∈ c.applicableCandidates receiver name args) : c.Genuine Q name k := by
  obtain ⟨t, ht, hkt⟩ := List.mem_flatMap.mp (List.mem_filter.mp hk).1
  exact h.genuine_of_mem_declaredCandidates (h.mem_withAncestors hr ht) hkt

end Obeys

theorem mem_of_mem_nearestBySignature {seen : List (List String)} {ks : List Candidate}
    {k : Candidate} (hk : k ∈ nearestBySignature seen ks) : k ∈ ks := by
  induction ks generalizing seen with
  | nil => exact hk
  | cons l ks ih =>
    rw [nearestBySignature] at hk
    split at hk
    · exact List.mem_cons_of_mem _ (ih hk)
    · rcases List.mem_cons.mp hk with rfl | hk
      · exact List.mem_cons_self
      · exact List.mem_cons_of_mem _ (ih hk)

theorem mem_of_choose? {args : List TypeInfo} {ks : List Candidate} {k : Candidate}
    (hk : choose? args ks = some k) : k ∈ ks := by
  unfold choose? at hk
  split at hk
  · exact absurd hk (by simp)
  · rw [Option.some.inj hk]
    exact List.mem_cons_self
  · split at hk
    · next k' hfilter =>
      have hmem : k' ∈ [k'] := List.mem_cons_self
      rw [← hfilter] at hmem
      rw [← Option.some.inj hk]
      exact (List.mem_filter.mp hmem).1
    · exact absurd hk (by simp)

namespace Obeys

theorem genuine_of_selectCall? (h : c.Obeys Q) {receiver : TypeInfo} (hr : receiver.Proper c Q)
    {name : String} {args : List TypeInfo} {r : ResolvedCall}
    (hs : c.selectCall? receiver name args = some r) :
    ∃ k, c.Genuine Q name k ∧ r = k.resolved name := by
  obtain ⟨k, hk, rfl⟩ := Option.map_eq_some_iff.mp hs
  have hmem := mem_of_mem_nearestBySignature (mem_of_choose? hk)
  exact ⟨k, h.genuine_of_mem_applicableCandidates hr hmem, rfl⟩

theorem knownType (_ : c.Obeys Q) {t s : TypeInfo} (ht : t.Proper c Q) (hs : t.known? = some s) :
    s.Proper c Q := by
  rw [TypeInfo.known?] at hs
  split at hs
  · rw [← Option.some.inj hs]
    exact ht
  · exact absurd hs (by simp)

/-! ## Expressions -/

variable {ctx : ExprContext}

mutual

/-- **The certain type of an expression is proper.** -/
theorem certainTypeAs (h : c.Obeys Q) (hctx : c.Context ctx) (role : Role) (e : Expr)
    (he : ∀ n ∈ e.names, Q n) {t : TypeInfo} (ht : c.certainTypeAs? ctx role e = some t) :
    t.Proper c Q := by
  cases e with
  | literal l =>
    rw [certainTypeAs?] at ht
    exact h.literalType ht
  | this =>
    rw [certainTypeAs?] at ht
    rw [← Option.some.inj ht]
    exact h.thisType hctx
  | super =>
    rw [certainTypeAs?] at ht
    split at ht
    · exact h.superType hctx ht
    · exact absurd ht (by simp)
  | name n =>
    rw [certainTypeAs?] at ht
    split at ht
    · exact h.lookup hctx.declared.owner_lt ht
    · exact h.certainNameType hctx ht
  | new r args =>
    rw [certainTypeAs?] at ht
    refine h.knownType (h.qualify (h.contextScope hctx) fun n hn => he n ?_) ht
    simp [Expr.names, hn]
  | cast r operand =>
    rw [certainTypeAs?] at ht
    refine h.knownType (h.qualify (h.contextScope hctx) fun n hn => he n ?_) ht
    simp [Expr.names, hn]
  | field receiver n =>
    rw [certainTypeAs?] at ht
    obtain ⟨owner, ho, ht⟩ := Option.bind_eq_some_iff.mp ht
    obtain ⟨r, hr, hro⟩ := Option.bind_eq_some_iff.mp ho
    obtain ⟨f, hf, hft⟩ := Option.bind_eq_some_iff.mp ht
    have hreceiver := certainTypeAs h hctx .receiver receiver
      (fun m hm => he m (by simp [Expr.names, hm])) hr
    exact h.knownType (h.fieldType (h.knownType hreceiver hro) hf) hft
  | call receiver n args =>
    rw [certainTypeAs?] at ht
    obtain ⟨owner, ho, ht⟩ := Option.bind_eq_some_iff.mp ht
    obtain ⟨args', -, ht⟩ := Option.bind_eq_some_iff.mp ht
    obtain ⟨r, hr, ht⟩ := Option.bind_eq_some_iff.mp ht
    obtain ⟨s, hs, hst⟩ := Option.bind_eq_some_iff.mp ht
    have howner := certainOwnerType h hctx receiver
      (fun m hm => he m (by simp [Expr.names, hm])) ho
    obtain ⟨k, hk, rfl⟩ := h.genuine_of_selectCall? howner hr
    exact h.knownType (hk.returnType s hs) hst
  | _ => exact absurd ht (by simp [certainTypeAs?])

/-- The type under which a call is looked up is proper. -/
theorem certainOwnerType (h : c.Obeys Q) (hctx : c.Context ctx) (receiver : Option Expr)
    (he : ∀ n ∈ Expr.receiverNames receiver, Q n) {t : TypeInfo}
    (ht : c.certainOwnerType? ctx receiver = some t) : t.Proper c Q := by
  cases receiver with
  | none =>
    rw [certainOwnerType?] at ht
    rw [← Option.some.inj ht]
    exact h.thisType hctx
  | some e =>
    by_cases hthis : e = .this
    · rw [hthis, certainOwnerType?] at ht
      rw [← Option.some.inj ht]
      exact h.thisType hctx
    · rw [certainOwnerType?.eq_3 c ctx e hthis] at ht
      obtain ⟨r, hr, hrt⟩ := Option.bind_eq_some_iff.mp ht
      exact h.knownType (certainTypeAs h hctx .receiver e he hr) hrt

end

/-- **A resolved call comes from a genuine candidate.** -/
theorem genuine_of_resolveCall? (h : c.Obeys Q) (hctx : c.Context ctx) {call : MethodCall}
    (hcall : ∀ n ∈ call.names, Q n) {r : ResolvedCall} (hr : c.resolveCall? ctx call = some r) :
    ∃ k, c.Genuine Q call.name k ∧ r = k.resolved call.name := by
  obtain ⟨owner, ho, hr⟩ := Option.bind_eq_some_iff.mp hr
  obtain ⟨args, -, hr⟩ := Option.bind_eq_some_iff.mp hr
  refine h.genuine_of_selectCall? (h.certainOwnerType hctx _ (fun n hn => hcall n ?_) ho) hr
  exact List.mem_cons_of_mem _ (List.mem_append_left _ hn)

end Obeys

end Codebase

end JavaCallGraph

import JavaCallGraph.Proofs.Typing.Certain
import JavaCallGraph.Typing.Inference

/-!
# Inference hands out proper types

Inference guesses, but what it guesses are types that the code base knows.
`Codebase.Obeys.typeOf` says that the type of an expression is proper, and
`Codebase.Obeys.inferredCall` that a guessed callee is *spelled* by proper types: its identity names
the type it was found on, the method that was called, and types for parameters.
-/

set_option autoImplicit false

namespace JavaCallGraph

/-- An identity that is put together from the names of proper types. -/
structure MethodId.Spelled (c : Codebase) (Q : String → Prop) (id : MethodId) : Prop where
  declaringType : ∃ t : TypeInfo, t.Proper c Q ∧ t.name = id.declaringType
  name : Q id.name
  params : ∀ p ∈ id.params, ∃ t : TypeInfo, t.Proper c Q ∧ t.name = p

/-- An identity that is put together from names is made of names. -/
theorem MethodId.Spelled.isNamed {c : Codebase} {id : MethodId} (h : id.Spelled c IsName) :
    id.IsNamed where
  declaringType := by
    obtain ⟨t, ht, hn⟩ := h.declaringType
    rw [← hn]
    exact ht.isName
  name := h.name
  params p hp := by
    obtain ⟨t, ht, rfl⟩ := h.params p hp
    exact ht.isName

namespace Codebase

variable {c : Codebase} {Q : String → Prop}

theorem exists_of_mem_mapM {α β : Type} {f : α → Option β} {as : List α} {bs : List β}
    (h : as.mapM f = some bs) {b : β} (hb : b ∈ bs) : ∃ a ∈ as, f a = some b := by
  induction as generalizing bs with
  | nil =>
    rw [List.mapM_nil] at h
    rw [← Option.some.inj h] at hb
    exact absurd hb List.not_mem_nil
  | cons a as ih =>
    rw [List.mapM_cons] at h
    obtain ⟨b', hb', h⟩ := Option.bind_eq_some_iff.mp h
    obtain ⟨bs', hbs', h⟩ := Option.bind_eq_some_iff.mp h
    rw [← Option.some.inj h] at hb
    rcases List.mem_cons.mp hb with rfl | hb
    · exact ⟨a, List.mem_cons_self, hb'⟩
    · obtain ⟨a', ha', hf⟩ := ih hbs' hb
      exact ⟨a', List.mem_cons_of_mem _ ha', hf⟩

theorem mem_listNames {es : List Expr} {e : Expr} (he : e ∈ es) {n : String} (hn : n ∈ e.names) :
    n ∈ Expr.listNames es := by
  induction es with
  | nil => exact absurd he List.not_mem_nil
  | cons d es ih =>
    rw [Expr.listNames]
    rcases List.mem_cons.mp he with rfl | he
    · exact List.mem_append_left _ hn
    · exact List.mem_append_right _ (ih he)

namespace Obeys

theorem component (_ : c.Obeys Q) {t s : TypeInfo} (ht : t.Proper c Q)
    (hs : t.component? = some s) : s.Proper c Q := by
  cases ht with
  | array ht =>
    rw [← Option.some.inj hs]
    exact ht
  | _ => exact absurd hs (by simp [TypeInfo.component?])

/-! ## Described overloads -/

theorem mem_distinctCompiled (_ : c.Obeys Q) {seen : List (List String)}
    {ks : List CompiledCandidate} {k : CompiledCandidate} (hk : k ∈ distinctCompiled seen ks) :
    k ∈ ks := by
  induction ks generalizing seen with
  | nil => exact hk
  | cons l ks ih =>
    rw [distinctCompiled] at hk
    split at hk
    · exact List.mem_cons_of_mem _ (ih hk)
    · rcases List.mem_cons.mp hk with rfl | hk
      · exact List.mem_cons_self
      · exact List.mem_cons_of_mem _ (ih hk)

theorem mem_compiledCandidates (h : c.Obeys Q) {start : TypeInfo} (hs : start.Proper c Q)
    {name : String} {k : CompiledCandidate} (hk : k ∈ c.compiledCandidates start name) :
    (TypeInfo.compiled k.owner).Proper c Q ∧ k.method ∈ k.owner.methods := by
  obtain ⟨t, ht, hkt⟩ := List.mem_flatMap.mp (h.mem_distinctCompiled hk)
  split at hkt
  · obtain ⟨m, hm, rfl⟩ := List.mem_map.mp hkt
    exact ⟨h.mem_withAncestors hs ht, (List.mem_filter.mp hm).1⟩
  · exact absurd hkt List.not_mem_nil

end Obeys

theorem mem_of_mem_mostSpecific {ks : List CompiledCandidate} {args : List Argument}
    {k : CompiledCandidate} (hk : k ∈ c.mostSpecific ks args) : k ∈ ks := by
  obtain ⟨p, hp, rfl⟩ := List.mem_map.mp hk
  exact List.fst_mem_of_mem_zipIdx (List.mem_filter.mp hp).1

/-- A chosen overload is one of those that are found by name. -/
theorem mem_compiledCandidates_of_selectCompiled? {start : TypeInfo} {name : String}
    {args : List Argument} {k : CompiledCandidate}
    (hk : c.selectCompiled? start name args = some k) : k ∈ c.compiledCandidates start name := by
  rw [selectCompiled?] at hk
  split at hk
  · exact absurd hk (by simp)
  · next k' hks =>
    rw [hks, Option.some.inj hk]
    exact List.mem_cons_self
  · split at hk
    · exact absurd hk (by simp)
    · next k' hf =>
      have hmem : k' ∈ [k'] := List.mem_cons_self
      rw [← hf] at hmem
      rw [← Option.some.inj hk]
      exact (List.mem_filter.mp hmem).1
    · next ks _ hf =>
      split at hk
      · exact absurd hk (by simp)
      · split at hk
        · next k' hm =>
          have hmem : k' ∈ [k'] := List.mem_cons_self
          rw [← hm] at hmem
          rw [← Option.some.inj hk]
          exact (List.mem_filter.mp (mem_of_mem_mostSpecific hmem)).1
        · exact absurd hk (by simp)

namespace Obeys

/-- **A chosen overload is described on a proper type.** -/
theorem selectCompiled (h : c.Obeys Q) {start : TypeInfo} (hs : start.Proper c Q)
    {name : String} {args : List Argument} {k : CompiledCandidate}
    (hk : c.selectCompiled? start name args = some k) :
    (TypeInfo.compiled k.owner).Proper c Q ∧ k.method ∈ k.owner.methods :=
  h.mem_compiledCandidates hs (mem_compiledCandidates_of_selectCompiled? hk)

/-! ## Where a method is found -/

variable {ctx : ExprContext}

/-- The types around the place of an expression are proper. -/
theorem sourceType_around (h : c.Obeys Q) (hctx : c.Context ctx) {id : TypeId}
    (hid : id ∈ c.enclosing ctx.type) : (c.sourceType id).Proper c Q :=
  h.sourceType (Nat.lt_of_le_of_lt (index_le_of_mem_enclosing hid) hctx.declared.owner_lt)

theorem mem_unqualifiedScopes (h : c.Obeys Q) (hctx : c.Context ctx) {t : TypeInfo}
    (ht : t ∈ c.unqualifiedScopes ctx) : t.Proper c Q := by
  obtain ⟨s, hs, hst⟩ := List.mem_flatMap.mp ht
  refine h.mem_withAncestors ?_ hst
  rcases List.mem_append.mp hs with hs | hs
  · obtain ⟨base, hbase, rfl⟩ := Option.map_eq_some_iff.mp (Option.mem_toList.mp hs)
    exact h.anonymousBase hctx hbase
  · obtain ⟨id, hid, rfl⟩ := List.mem_map.mp hs
    exact h.sourceType_around hctx hid

theorem lookupUnqualified (h : c.Obeys Q) (hctx : c.Context ctx) {name : String}
    {args : List Argument} {t : TypeInfo} (ht : c.lookupUnqualified? ctx name args = some t) :
    t.Proper c Q := by
  rcases Option.or_eq_some_iff.mp ht with ht | ⟨-, ht⟩
  · exact h.mem_unqualifiedScopes hctx (List.mem_of_find?_eq_some ht)
  · exact h.staticImportOwners (List.mem_of_find?_eq_some ht)

theorem resultOn (h : c.Obeys Q) {name : String} {args : List Argument} {ts : List TypeInfo}
    (hts : ∀ t ∈ ts, t.Proper c Q) {r : TypeInfo} (hr : c.resultOn? name args ts = some r) :
    r.Proper c Q := by
  fun_induction resultOn? c name args ts with
  | case1 => exact absurd hr (by simp)
  | case2 id n ts m ms hm => exact h.returnType hr
  | case3 id n ts hm ih => exact ih (fun t ht => hts t (List.mem_cons_of_mem _ ht)) hr
  | case4 t ts =>
    obtain ⟨k, hk, hr⟩ := Option.bind_eq_some_iff.mp hr
    obtain ⟨ho, hm⟩ := h.selectCompiled (hts _ List.mem_cons_self) hk
    exact h.compiledReturnType ho hm hr
  | case5 t ts _ _ ih => exact ih (fun t ht => hts t (List.mem_cons_of_mem _ ht)) hr

/-! ## Operators -/

theorem arithmeticType (h : c.Obeys Q) {op : BinaryOp} {l r t : TypeInfo}
    (ht : c.arithmeticType? op l r = some t) : t.Proper c Q := by
  rw [arithmeticType?] at ht
  split at ht
  · rw [← Option.some.inj ht]
    exact .primitive _
  · split at ht
    · rw [← Option.some.inj ht]
      exact .primitive _
    · split at ht
      · rw [← Option.some.inj ht]
        exact h.builtin (by decide)
      · exact absurd ht (by simp)

theorem mem_superclasses (h : c.Obeys Q) {t s : TypeInfo} (ht : t.Proper c Q)
    (hs : s ∈ c.superclasses t) : s.Proper c Q :=
  h.mem_superclassChain (h.rooted ht) hs

theorem joinTypes (h : c.Obeys Q) {a b : TypeInfo} (ha : a.Proper c Q) (hb : b.Proper c Q) :
    (c.joinTypes a b).Proper c Q := by
  rw [Codebase.joinTypes]
  split
  · exact ha
  split
  · exact hb
  split
  · exact .primitive _
  split
  · next s hs =>
    exact h.mem_superclasses ha (List.takeWhile_subset _ (List.mem_of_find?_eq_some hs))
  split
  · next i hi =>
    have hmem : i ∈ c.sharedInterfaces a b := by rw [hi]; exact List.mem_cons_self
    exact h.mem_ancestors (h.rooted ha) (List.mem_filter.mp hmem).1
  · exact h.objectType

theorem conditionalType (h : c.Obeys Q) {a b : Option TypeInfo} (ha : ∀ t ∈ a, t.Proper c Q)
    (hb : ∀ t ∈ b, t.Proper c Q) {t : TypeInfo} (ht : c.conditionalType? a b = some t) :
    t.Proper c Q := by
  cases a with
  | none =>
    rw [conditionalType?] at ht
    exact hb t ht
  | some a =>
    cases b with
    | none =>
      rw [conditionalType?] at ht
      exact ha t ht
    | some b =>
      rw [conditionalType?] at ht
      rw [← Option.some.inj ht]
      exact h.joinTypes (ha a rfl) (hb b rfl)

/-! ## Names -/

theorem globalNameType (h : c.Obeys Q) (hctx : c.Context ctx) {n : String} {t : TypeInfo}
    (ht : c.globalNameType? ctx n = some t) : t.Proper c Q := by
  rcases Option.or_eq_some_iff.mp ht with ht | ⟨-, ht⟩
  · obtain ⟨id, hid, hf⟩ := List.exists_of_findSome?_eq_some ht
    exact h.fieldType (h.sourceType_around hctx hid) hf
  rcases Option.or_eq_some_iff.mp ht with ht | ⟨-, ht⟩
  · exact h.lookup hctx.declared.owner_lt ht
  · obtain ⟨o, ho, hf⟩ := List.exists_of_findSome?_eq_some ht
    exact h.fieldType (h.staticImportOwners ho) hf

/-- A typing of expressions that gives proper types only. -/
def TypesProperly (c : Codebase) (Q : String → Prop) (typed : Expr → Option TypeInfo) : Prop :=
  ∀ e : Expr, (∀ n ∈ e.names, Q n) → ∀ t ∈ typed e, t.Proper c Q

variable {typed : Expr → Option TypeInfo}

theorem nameType (h : c.Obeys Q) (hctx : c.Context ctx) (htype : TypesProperly c Q typed)
    {n : String} {t : TypeInfo} (ht : c.nameType? typed ctx n = some t) : t.Proper c Q := by
  rw [nameType?] at ht
  split at ht
  · next v hv =>
    have hnames := h.binding hctx hv
    split at ht
    · split at ht
      · next init hi =>
        refine htype init (fun m hm => hnames m ?_) t ht
        refine List.mem_append_left _ (List.mem_append_right _ ?_)
        rw [hi]
        exact hm
      · next iterable _ hi =>
        obtain ⟨s, hs, hst⟩ := Option.bind_eq_some_iff.mp ht
        refine h.component (htype iterable (fun m hm => hnames m ?_) s hs) hst
        refine List.mem_append_right _ ?_
        rw [hi]
        exact hm
      · exact absurd ht (by simp)
    · rw [← Option.some.inj ht]
      refine h.qualify (h.contextScope hctx) fun m hm => hnames m ?_
      exact List.mem_append_left _ (List.mem_append_left _ hm)
  · next p hp =>
    obtain ⟨r, hr, rfl⟩ := Option.map_eq_some_iff.mp ht
    refine h.qualify (h.contextScope hctx) fun m hm => h.binding hctx hp m ?_
    exact List.mem_flatMap.mpr ⟨r, Option.mem_toList.mpr hr, hm⟩
  · next p hp =>
    rw [← Option.some.inj ht]
    exact h.paramType (h.contextScope hctx) (h.binding hctx hp)
  · exact h.globalNameType hctx ht

/-! ## Expressions -/

mutual

/-- The type that an expression has by its structure is proper. -/
theorem typeWith (h : c.Obeys Q) (hctx : c.Context ctx) (htype : TypesProperly c Q typed)
    (e : Expr) (he : ∀ n ∈ e.names, Q n) {t : TypeInfo} (ht : c.typeWith? typed ctx e = some t) :
    t.Proper c Q := by
  rw [typeWith?.eq_def] at ht
  rcases Option.or_eq_some_iff.mp ht with ht | ⟨-, ht⟩
  · exact h.certainTypeAs hctx .value e he ht
  cases e with
  | literal l => exact h.literalType ht
  | name n => exact h.nameType hctx htype ht
  | field receiver n =>
    rcases Option.or_eq_some_iff.mp ht with ht | ⟨-, ht⟩
    · obtain ⟨owner, ho, hf⟩ := Option.bind_eq_some_iff.mp ht
      have howner := typeWith h hctx htype receiver (fun m hm => he m (by simp [Expr.names, hm])) ho
      exact h.fieldType howner hf
    · obtain ⟨d, -, hl⟩ := Option.bind_eq_some_iff.mp ht
      exact h.lookup hctx.declared.owner_lt hl
  | call receiver n args =>
    rcases Option.or_eq_some_iff.mp ht with ht | ⟨-, ht⟩
    · obtain ⟨r, hr, hret⟩ := Option.bind_eq_some_iff.mp ht
      obtain ⟨k, hk, rfl⟩ := h.genuine_of_resolveCall? hctx
        (fun m hm => he m (by rwa [Expr.names])) hr
      exact hk.returnType t hret
    · obtain ⟨owner, ho, hr⟩ := Option.bind_eq_some_iff.mp ht
      have howner := ownerWith h hctx htype receiver
        (fun m hm => he m (by simp [Expr.names, hm])) ho
      exact h.resultOn (fun s hs => h.mem_withAncestors howner hs) hr
  | new r args =>
    rw [← Option.some.inj ht]
    exact h.qualify (h.contextScope hctx) fun m hm => he m (by simp [Expr.names, hm])
  | newArray r =>
    rw [← Option.some.inj ht]
    exact h.qualify (h.contextScope hctx) fun m hm => he m (by simp [Expr.names, hm])
  | cast r operand =>
    rw [← Option.some.inj ht]
    exact h.qualify (h.contextScope hctx) fun m hm => he m (by simp [Expr.names, hm])
  | index array =>
    obtain ⟨s, hs, hst⟩ := Option.bind_eq_some_iff.mp ht
    have harray := typeWith h hctx htype array (fun m hm => he m (by simp [Expr.names, hm])) hs
    exact h.component harray hst
  | binary op l r =>
    simp only at ht
    split at ht
    · rw [← Option.some.inj ht]
      exact .primitive _
    split at ht
    · rw [← Option.some.inj ht]
      exact h.builtin (by decide)
    · obtain ⟨lt, -, ht⟩ := Option.bind_eq_some_iff.mp ht
      obtain ⟨rt, -, ht⟩ := Option.bind_eq_some_iff.mp ht
      exact h.arithmeticType ht
  | unary op operand =>
    cases op with
    | not =>
      rw [← Option.some.inj ht]
      exact .primitive _
    | _ => exact typeWith h hctx htype operand (fun m hm => he m (by simp [Expr.names, hm])) ht
  | instanceOf operand =>
    rw [← Option.some.inj ht]
    exact .primitive _
  | conditional positive negative =>
    refine h.conditionalType (fun s hs => ?_) (fun s hs => ?_) ht
    · exact typeWith h hctx htype positive (fun m hm => he m (by simp [Expr.names, hm])) hs
    · exact typeWith h hctx htype negative (fun m hm => he m (by simp [Expr.names, hm])) hs
  | assign target value =>
    exact typeWith h hctx htype target (fun m hm => he m (by simp [Expr.names, hm])) ht
  | this =>
    rw [← Option.some.inj ht]
    exact h.thisType hctx
  | super => exact h.superType hctx ht
  | classLiteral r =>
    rw [← Option.some.inj ht]
    exact h.builtin (by decide)
  | lambda => exact absurd ht (by simp)
  | methodReference => exact absurd ht (by simp)
  | unsupported form => exact absurd ht (by simp)

/-- The type whose methods give the result of a call is proper. -/
theorem ownerWith (h : c.Obeys Q) (hctx : c.Context ctx) (htype : TypesProperly c Q typed)
    {name : String} {args : List Argument} (receiver : Option Expr)
    (he : ∀ n ∈ Expr.receiverNames receiver, Q n) {t : TypeInfo}
    (ht : c.ownerWith? typed ctx name args receiver = some t) : t.Proper c Q := by
  cases receiver with
  | none =>
    rw [ownerWith?] at ht
    exact h.lookupUnqualified hctx ht
  | some e =>
    by_cases hsuper : e = .super
    · rw [hsuper, ownerWith?] at ht
      exact h.superType hctx ht
    · rw [ownerWith?.eq_3 c typed ctx name args e hsuper] at ht
      obtain ⟨s, hs, rfl⟩ := Option.map_eq_some_iff.mp ht
      exact h.erased (typeWith h hctx htype e he hs)

end

theorem typeWithin (h : c.Obeys Q) (hctx : c.Context ctx) (n : Nat) :
    TypesProperly c Q (c.typeWithin? ctx n) := by
  induction n with
  | zero =>
    intro e he t ht
    rw [Option.mem_def, typeWithin?] at ht
    exact h.typeWith hctx (fun _ _ _ hs => absurd hs (by simp)) e he ht
  | succ n ih =>
    intro e he t ht
    rw [Option.mem_def, typeWithin?] at ht
    exact h.typeWith hctx ih e he ht

/-- **The type of an expression is proper**, be it certain or inferred. -/
theorem typeOf (h : c.Obeys Q) (hctx : c.Context ctx) {e : Expr} (he : ∀ n ∈ e.names, Q n)
    {t : TypeInfo} (ht : c.typeOf? ctx e = some t) : t.Proper c Q :=
  h.typeWithin hctx _ e he t ht

/-! ## Calls -/

theorem inferredOwner (h : c.Obeys Q) (hctx : c.Context ctx) {call : MethodCall}
    (hcall : ∀ n ∈ call.names, Q n) {args : List Argument} {t : TypeInfo}
    (ht : c.inferredOwner? ctx call args = some t) : t.Proper c Q := by
  have hnearest : ∀ r : TypeInfo, r.Proper c Q →
      (((c.withAncestors r).find? fun t => c.declaresApplicable t call.name args).getD r).Proper
        c Q := by
    intro r hr
    cases hf : (c.withAncestors r).find? fun t => c.declaresApplicable t call.name args with
    | none => exact hr
    | some s => exact h.mem_withAncestors hr (List.mem_of_find?_eq_some hf)
  rw [inferredOwner?] at ht
  split at ht
  · exact h.lookupUnqualified hctx ht
  · obtain ⟨s, hs, rfl⟩ := Option.map_eq_some_iff.mp ht
    exact hnearest s (h.superType hctx hs)
  · next e _ he =>
    obtain ⟨s, hs, rfl⟩ := Option.map_eq_some_iff.mp ht
    obtain ⟨r, hr, rfl⟩ := Option.map_eq_some_iff.mp hs
    refine hnearest _ (h.erased (h.typeOf hctx (fun n hn => hcall n ?_) hr))
    rw [MethodCall.names, he]
    exact List.mem_cons_of_mem _ (List.mem_append_left _ hn)

/-- The identity of a declared method is spelled by its own types. -/
theorem spelled_methodId (h : c.Obeys Q) {m : MethodRef} (hm : c.Declared m) :
    (c.methodId m).Spelled c Q where
  declaringType := ⟨c.sourceType m.owner, h.sourceType_owner hm, rfl⟩
  name := h.methodName hm
  params p hp := by
    obtain ⟨t, ht, rfl⟩ := List.mem_map.mp hp
    exact ⟨t, h.paramTypes ht, rfl⟩

theorem identifyOn (h : c.Obeys Q) {owner : TypeInfo} (ho : owner.Proper c Q) {name : String}
    (hn : Q name) {args : List TypeInfo} (ha : ∀ a ∈ args, a.Proper c Q) :
    (c.identifyOn owner name args).id.Spelled c Q := by
  have hargs : (⟨owner.name, name, args.map TypeInfo.name⟩ : MethodId).Spelled c Q := by
    refine ⟨⟨owner, ho, rfl⟩, hn, fun p hp => ?_⟩
    obtain ⟨a, hmem, rfl⟩ := List.mem_map.mp hp
    exact ⟨a, ha a hmem, rfl⟩
  unfold Codebase.identifyOn
  split
  · split
    · next k hk =>
      obtain ⟨hk, hm⟩ := h.selectCompiled ho hk
      refine ⟨⟨_, hk, rfl⟩, hn, fun p hp => ⟨c.typeInfo p, ?_, name_typeInfo p⟩⟩
      exact h.compiledMethodTypes hk hm (List.mem_cons_of_mem _ hp)
    · exact hargs
  · split
    · next m hm =>
      have hmem : m ∈ [m] := List.mem_cons_self
      rw [← hm] at hmem
      exact h.spelled_methodId (declared_of_mem_methodsOf (List.mem_filter.mp hmem).1)
    · exact hargs
  · exact hargs

/-- A guessed callee is identified on a type from the types of the arguments. -/
theorem exists_of_inferCall? {c : Codebase} {ctx : ExprContext} {excluded : List String}
    {call : MethodCall} {k : InferredCall} (hk : c.inferCall? excluded ctx call = some k) :
    ∃ args owner, call.args.mapM (c.typeOf? ctx) = some args ∧
      c.inferredOwner? ctx call (args.map some) = some owner ∧
        c.identifyOn owner call.name args = k := by
  have hinfer : inferCall?.infer c ctx call = some k := by
    rw [inferCall?] at hk
    split at hk
    · split at hk
      · exact absurd hk (by simp)
      · exact hk
    · exact hk
  obtain ⟨args, hargs, hk⟩ := Option.bind_eq_some_iff.mp hinfer
  obtain ⟨owner, howner, hk⟩ := Option.map_eq_some_iff.mp hk
  exact ⟨args, owner, hargs, howner, hk⟩

/-- **The identity of a guessed callee is spelled by proper types.** -/
theorem inferredCall (h : c.Obeys Q) (hctx : c.Context ctx) {excluded : List String}
    {call : MethodCall} (hcall : ∀ n ∈ call.names, Q n) {k : InferredCall}
    (hk : c.inferCall? excluded ctx call = some k) : k.id.Spelled c Q := by
  obtain ⟨args, owner, hargs, ho, rfl⟩ := exists_of_inferCall? hk
  refine h.identifyOn (h.inferredOwner hctx hcall ho) (hcall _ List.mem_cons_self) ?_
  intro a ha
  obtain ⟨e, he, hea⟩ := exists_of_mem_mapM hargs ha
  refine h.typeOf hctx (fun n hn => hcall n ?_) hea
  exact List.mem_cons_of_mem _ (List.mem_append_right _ (mem_listNames he hn))

end Obeys

end Codebase

end JavaCallGraph

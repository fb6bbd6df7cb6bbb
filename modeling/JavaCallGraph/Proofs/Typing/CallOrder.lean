import JavaCallGraph.Proofs.Typing.Reordering
import JavaCallGraph.Proofs.Typing.Signature

/-!
# Calls do not depend on the order of methods

The declaring type and the parameters of a resolved call follow from the signatures that are offered
(`Codebase.Decides`, `Codebase.FirstOffering`), and these do not depend on the order in which the methods
of a type stand.  So neither does the choice, as long as the types of the receiver and of the arguments
are the same.

These types can be results of other calls.  Of two methods with the same signature in one type the first
one tells its result, so the types stay the same for certain only where such methods have the same result
(`Codebase.OneResult`), as is the case in any source that compiles.

* `Codebase.Reordered.decides_iff` — the same signatures decide;
* `Codebase.Reordered.target_selectCall?` — the same types give the same choice;
* `Codebase.Reordered.outline_certainTypeAs?` — an expression has the same type;
* `Codebase.call_resolves_by_signature` — the main statement, `Codebase.ResolvesBySignature`;
* `Codebase.call_reordered_sample` — a call on the result of a call that is resolved to another type.
-/

set_option autoImplicit false

namespace JavaCallGraph

/-- The declaring type, but for its methods, and the parameters. -/
def ResolvedCall.target (x : ResolvedCall) : TypeInfo × List String := (x.declaring.outline, x.params)

/-- The same place, where the method around it stands at another position of its type. -/
def ExprContext.atPosition (ctx : ExprContext) (i : Nat) : ExprContext :=
  ⟨⟨ctx.method.owner, i⟩, ctx.decl, ctx.scope⟩

namespace Codebase

variable {c c' : Codebase} {t t' r r' : TypeInfo} {name : String} {args args' : List TypeInfo}
  {sig : List String} {ctx : ExprContext}

/-- Steps that lead from the same to the same. -/
theorem map_bind_congr {α β γ δ : Type} {o o' : Option α} {f f' : α → Option β} {π : α → γ}
    {ρ : β → δ} (ho : o.map π = o'.map π) (hf : ∀ a a', o = some a → o' = some a' → π a = π a' →
      (f a).map ρ = (f' a').map ρ) : (o.bind f).map ρ = (o'.bind f').map ρ := by
  cases o with
  | none =>
    rw [Option.map_eq_none_iff.mp ho.symm]
    rfl
  | some a =>
    obtain ⟨a', rfl, ha⟩ := Option.map_eq_some_iff.mp ho.symm
    exact hf a a' rfl rfl ha.symm

/-! ## The signatures that are offered -/

namespace Reordered

theorem offers (h : c.Reordered c') (ht : c.SameType c' t t')
    (hargs : args.map TypeInfo.outline = args'.map TypeInfo.outline) (ho : c.Offers name args t sig) :
    c'.Offers name args' t' sig := by
  obtain ⟨k, hk, rfl⟩ := offers_iff.mp ho
  obtain ⟨hmem, haccepts⟩ := List.mem_filter.mp hk
  obtain ⟨k', hk', hsame⟩ := h.exists_declaredCandidate ht hmem
  refine offers_iff.mpr ⟨k', List.mem_filter.mpr ⟨?_, ?_⟩, hsame.signature.symm⟩
  · have hlen : args.length = args'.length := by simpa using congrArg List.length hargs
    rwa [← hlen]
  · rwa [← h.acceptsAll_eq hsame.params hargs]

theorem offered (h : c.Reordered c') (hr : c.SameType c' r r')
    (hargs : args.map TypeInfo.outline = args'.map TypeInfo.outline) (ho : c.Offered r name args sig) :
    c'.Offered r' name args' sig := by
  obtain ⟨t, ht, ho⟩ := ho
  obtain ⟨t', ht', hsame⟩ := h.exists_ancestor hr ht
  exact ⟨t', ht', h.offers hsame hargs ho⟩

/-- **The same signature decides.** -/
theorem decides (h : c.Reordered c') (hr : c.SameType c' r r')
    (hargs : args.map TypeInfo.outline = args'.map TypeInfo.outline) (hd : c.Decides r name args sig) :
    c'.Decides r' name args' sig := by
  refine ⟨h.offered hr hargs hd.1, hd.2.imp (fun honly other ho => ?_) fun hexact => ?_⟩
  · exact honly other (h.symm.offered hr.symm hargs.symm ho)
  · rw [hexact, TypeInfo.map_name_eq hargs]

/-- Of two lists with the same outlines, the first elements of which something is true that depends on
outlines only have the same outline. -/
theorem outline_eq_of_first {P P' : TypeInfo → Prop} {before before' after after' : List TypeInfo}
    (hmap : (before ++ t :: after).map TypeInfo.outline =
      (before' ++ t' :: after').map TypeInfo.outline)
    (hP : ∀ s ∈ before ++ t :: after, ∀ s' ∈ before' ++ t' :: after', s.outline = s'.outline →
      (P s ↔ P' s'))
    (ht : P t) (ht' : P' t') (hbefore : ∀ s ∈ before, ¬P s) (hbefore' : ∀ s ∈ before', ¬P' s) :
    t.outline = t'.outline := by
  induction before generalizing before' with
  | nil =>
    cases before' with
    | nil => exact (List.cons.inj hmap).1
    | cons s' before' =>
      have hhead := (List.cons.inj hmap).1
      exact absurd ((hP t List.mem_cons_self s' List.mem_cons_self hhead).mp ht)
        (hbefore' s' List.mem_cons_self)
  | cons s before ih =>
    cases before' with
    | nil =>
      have hhead := (List.cons.inj hmap).1
      exact absurd ((hP s List.mem_cons_self t' List.mem_cons_self hhead).mpr ht')
        (hbefore s List.mem_cons_self)
    | cons s' before' =>
      refine ih (List.cons.inj hmap).2 (fun u hu u' hu' => ?_)
        (fun u hu => hbefore u (List.mem_cons_of_mem _ hu))
        (fun u hu => hbefore' u (List.mem_cons_of_mem _ hu))
      exact hP u (List.mem_cons_of_mem _ hu) u' (List.mem_cons_of_mem _ hu')

/-- **The same type is the first that offers a signature.** -/
theorem sameType_of_firstOffering (h : c.Reordered c') (hr : c.SameType c' r r')
    (hargs : args.map TypeInfo.outline = args'.map TypeInfo.outline)
    (ht : c.FirstOffering r name args sig t) (ht' : c'.FirstOffering r' name args' sig t') :
    c.SameType c' t t' := by
  obtain ⟨before, after, hl, ho, hbefore⟩ := ht
  obtain ⟨before', after', hl', ho', hbefore'⟩ := ht'
  have hmem : t ∈ c.withAncestors r := hl ▸ List.mem_append_right _ List.mem_cons_self
  have hmem' : t' ∈ c'.withAncestors r' := hl' ▸ List.mem_append_right _ List.mem_cons_self
  have hmap := h.outline_withAncestors hr
  refine h.sameType_of_mem_withAncestors hr hmem hmem' ?_
  rw [hl, hl'] at hmap
  have hoffers : ∀ s ∈ before ++ t :: after, ∀ s' ∈ before' ++ t' :: after', s.outline = s'.outline →
      (c.Offers name args s sig ↔ c'.Offers name args' s' sig) := by
    intro s hs s' hs' houtline
    have hsame := h.sameType_of_mem_withAncestors hr (hl ▸ hs) (hl' ▸ hs') houtline
    exact ⟨h.offers hsame hargs, h.symm.offers hsame.symm hargs.symm⟩
  exact outline_eq_of_first hmap hoffers ho ho' hbefore hbefore'

/-! ## The choice -/

theorem exists_selectCall? (h : c.Reordered c') (hr : c.SameType c' r r')
    (hargs : args.map TypeInfo.outline = args'.map TypeInfo.outline) {x : ResolvedCall}
    (hx : c.selectCall? r name args = some x) : ∃ x', c'.selectCall? r' name args' = some x' ∧
      c.SameType c' x.declaring x'.declaring ∧ x.params = x'.params := by
  obtain ⟨hd, hfirst⟩ := decides_of_selectCall? hx
  obtain ⟨x', hx'⟩ := exists_selectCall?_iff.mpr ⟨_, h.decides hr hargs hd⟩
  obtain ⟨hd', hfirst'⟩ := decides_of_selectCall? hx'
  have hparams := (h.decides hr hargs hd).unique hd'
  rw [← hparams] at hfirst'
  exact ⟨x', hx', h.sameType_of_firstOffering hr hargs hfirst hfirst', hparams⟩

/-- What is the same of two calls that refer to the same signature on the same type is the same of the
two choices. -/
theorem map_selectCall? (h : c.Reordered c') (hr : c.SameType c' r r')
    (hargs : args.map TypeInfo.outline = args'.map TypeInfo.outline) {α : Type}
    {f : ResolvedCall → α} (hf : ∀ x x', c.selectCall? r name args = some x →
      c'.selectCall? r' name args' = some x' → c.SameType c' x.declaring x'.declaring →
        x.params = x'.params → f x = f x') :
    (c.selectCall? r name args).map f = (c'.selectCall? r' name args').map f := by
  cases hx : c.selectCall? r name args with
  | some x =>
    obtain ⟨x', hx', hsame, hparams⟩ := h.exists_selectCall? hr hargs hx
    rw [hx', Option.map_some, Option.map_some, hf x x' hx hx' hsame hparams]
  | none =>
    cases hx' : c'.selectCall? r' name args' with
    | none => rfl
    | some x' =>
      obtain ⟨x, hsome, -⟩ := h.symm.exists_selectCall? hr.symm hargs.symm hx'
      exact absurd (hx.symm.trans hsome) (by simp)

/-- **The same types give the same choice.** -/
theorem target_selectCall? (h : c.Reordered c') (hr : c.SameType c' r r')
    (hargs : args.map TypeInfo.outline = args'.map TypeInfo.outline) :
    (c.selectCall? r name args).map ResolvedCall.target =
      (c'.selectCall? r' name args').map ResolvedCall.target :=
  h.map_selectCall? hr hargs fun x x' _ _ hsame hparams => by
    rw [ResolvedCall.target, ResolvedCall.target, hsame.outline, hparams]

end Reordered

/-! ## Results -/

/-- **Methods of one type with the same name and parameters have the same result.** -/
structure OneResult (c : Codebase) : Prop where
  declared : ∀ id, ∀ m ∈ c.methodsOf id, ∀ k ∈ c.methodsOf id, (c.method m).name = (c.method k).name →
    (c.paramTypes m).map TypeInfo.name = (c.paramTypes k).map TypeInfo.name →
      c.returnType? m = c.returnType? k
  described : ∀ t ∈ c.catalog.types, ∀ m ∈ t.methods, ∀ k ∈ t.methods, m.name = k.name →
    m.params = k.params → m.varargs = false → k.varargs = false → m.returns = k.returns

/-- The candidates of a type tell one result for each signature. -/
theorem OneResult.returnType_eq (h : c.OneResult) (ht : t.Proper c fun _ => True) {arity : Nat}
    {k l : Candidate} (hk : k ∈ c.declaredCandidates t name arity)
    (hl : l ∈ c.declaredCandidates t name arity) (hsig : k.signature = l.signature) :
    k.returnType = l.returnType := by
  cases t with
  | source id n =>
    obtain ⟨m, hm, rfl⟩ := List.mem_map.mp hk
    obtain ⟨m', hm', rfl⟩ := List.mem_map.mp hl
    obtain ⟨hm, hp⟩ := List.mem_filter.mp hm
    obtain ⟨hm', hp'⟩ := List.mem_filter.mp hm'
    rw [Bool.and_eq_true, beq_iff_eq] at hp hp'
    exact h.declared id m hm m' hm' (hp.1.trans hp'.1.symm) hsig
  | compiled u =>
    obtain ⟨m, hm, rfl⟩ := List.mem_map.mp hk
    obtain ⟨m', hm', rfl⟩ := List.mem_map.mp hl
    obtain ⟨hnamed, hp⟩ := List.mem_filter.mp hm
    obtain ⟨hnamed', hp'⟩ := List.mem_filter.mp hm'
    obtain ⟨hm, hname⟩ := List.mem_filter.mp hnamed
    obtain ⟨hm', hname'⟩ := List.mem_filter.mp hnamed'
    rw [beq_iff_eq] at hname hname'
    rw [Bool.and_eq_true, Bool.not_eq_true'] at hp hp'
    have hmem : u ∈ c.catalog.types := by
      cases ht with
      | compiled hknown _ => exact mem_types_of_known? hknown
    have hparams : m.params = m'.params := by
      rw [← map_name_compiledParamTypes (c := c), ← map_name_compiledParamTypes (c := c)]
      exact hsig
    have hreturns := h.described u hmem m hm m' hm' (hname.trans hname'.symm) hparams hp.2 hp'.2
    simp only [compiledReturnType?, hreturns]
  | _ => exact absurd hk List.not_mem_nil

namespace Reordered

/-- What a call refers to has the same result. -/
theorem outline_returnType (h : c.Reordered c') (hone : c.OneResult)
    (hargs : args.map TypeInfo.outline = args'.map TypeInfo.outline) {x x' : ResolvedCall}
    (hx : c.selectCall? r name args = some x) (hx' : c'.selectCall? r' name args' = some x')
    (hsame : c.SameType c' x.declaring x'.declaring) (hparams : x.params = x'.params) :
    x.returnType.map TypeInfo.outline = x'.returnType.map TypeInfo.outline := by
  obtain ⟨k, hk, hxk⟩ := exists_candidate_of_selectCall? hx
  obtain ⟨k', hk', hxk'⟩ := exists_candidate_of_selectCall? hx'
  have hlen : args.length = args'.length := by simpa using congrArg List.length hargs
  rw [← hlen] at hk'
  -- the candidate of the other code base has its counterpart in this one
  obtain ⟨l, hl, hlk⟩ := h.symm.exists_declaredCandidate hsame.symm hk'
  have hsig : k.signature = l.signature := by
    rw [← hlk.signature]
    rw [hxk, hxk'] at hparams
    exact hparams
  rw [hxk, hxk']
  exact (congrArg _ (hone.returnType_eq hsame.left hk hl hsig)).trans hlk.returnType.symm

/-- The type of a call is the same. -/
theorem outline_result (h : c.Reordered c') (hone : c.OneResult) (hr : c.SameType c' r r')
    (hargs : args.map TypeInfo.outline = args'.map TypeInfo.outline) :
    ((c.selectCall? r name args).bind fun x => x.returnType.bind TypeInfo.known?).map TypeInfo.outline =
      ((c'.selectCall? r' name args').bind fun x => x.returnType.bind TypeInfo.known?).map
        TypeInfo.outline := by
  have hresult : ∀ o : Option ResolvedCall,
      (o.bind fun x => x.returnType.bind TypeInfo.known?).map TypeInfo.outline =
        (o.map fun x => x.returnType.map TypeInfo.outline).bind fun t => t.bind TypeInfo.known? := by
    intro o
    cases o with
    | none => rfl
    | some x => exact TypeInfo.outline_bind_known? x.returnType
  rw [hresult, hresult, h.map_selectCall? hr hargs fun x x' hx hx' hsame hparams =>
    h.outline_returnType hone hargs hx hx' hsame hparams]

/-! ## Expressions -/

variable {i : Nat}

theorem outline_thisType (h : c.Reordered c') :
    (c.thisType ctx).outline = (c'.thisType (ctx.atPosition i)).outline := by
  rw [Codebase.outline_thisType, Codebase.outline_thisType, h.outline_eq]
  rfl

theorem outline_qualify (h : c.Reordered c') (t : TypeRef) : (c.qualify ctx.typeScope t).outline =
    (c'.qualify (ctx.atPosition i).typeScope t).outline := by
  rw [Codebase.outline_qualify, Codebase.outline_qualify, h.outline_eq]
  rfl

theorem sameType_owner (hctx : c.Context ctx) (hctx' : c'.Context (ctx.atPosition i))
    {receiver : Option Expr} (hr : c.certainOwnerType? ctx receiver = some r)
    (hr' : c'.certainOwnerType? (ctx.atPosition i) receiver = some r')
    (houtline : r.outline = r'.outline) : c.SameType c' r r' :=
  ⟨(Obeys.trivial c).certainOwnerType hctx receiver (fun _ _ => trivial) hr,
    (Obeys.trivial c').certainOwnerType hctx' receiver (fun _ _ => trivial) hr', houtline⟩

mutual

/-- **An expression has the same type.** -/
theorem outline_certainTypeAs? (h : c.Reordered c') (hone : c.OneResult) (hctx : c.Context ctx)
    (hctx' : c'.Context (ctx.atPosition i)) (role : Role) (e : Expr) :
    (c.certainTypeAs? ctx role e).map TypeInfo.outline =
      (c'.certainTypeAs? (ctx.atPosition i) role e).map TypeInfo.outline := by
  cases e with
  | literal l =>
    rw [certainTypeAs?, certainTypeAs?, outline_literalType?, outline_literalType?, h.outline_eq]
  | this =>
    rw [certainTypeAs?, certainTypeAs?, Option.map_some, Option.map_some, h.outline_thisType]
  | super =>
    rw [certainTypeAs?, certainTypeAs?]
    split
    · rw [outline_superType?, outline_superType?, h.outline_eq]
      rfl
    · rfl
  | name n =>
    have htypeName : c.isTypeName ctx n = c'.isTypeName (ctx.atPosition i) n := by
      rw [← isTypeName_outline, h.outline_eq, ← isTypeName_outline (c := c')]
      rfl
    rw [certainTypeAs?, certainTypeAs?, htypeName]
    split
    · rw [outline_lookup?, outline_lookup?, h.outline_eq]
      rfl
    · rw [outline_certainNameType?, outline_certainNameType?, h.outline_eq]
      rfl
  | new t args =>
    rw [certainTypeAs?, certainTypeAs?, TypeInfo.outline_known?, TypeInfo.outline_known?,
      h.outline_qualify]
  | cast t operand =>
    rw [certainTypeAs?, certainTypeAs?, TypeInfo.outline_known?, TypeInfo.outline_known?,
      h.outline_qualify]
  | field receiver n =>
    have hreceiver : ((c.certainTypeAs? ctx .receiver receiver).bind TypeInfo.known?).map
        TypeInfo.outline = ((c'.certainTypeAs? (ctx.atPosition i) .receiver receiver).bind
          TypeInfo.known?).map TypeInfo.outline := by
      rw [TypeInfo.outline_bind_known?, TypeInfo.outline_bind_known?,
        outline_certainTypeAs? h hone hctx hctx' .receiver receiver]
    rw [certainTypeAs?, certainTypeAs?]
    refine map_bind_congr hreceiver fun t t' _ _ houtline => ?_
    rw [TypeInfo.outline_bind_known?, TypeInfo.outline_bind_known?, outline_fieldType?,
      outline_fieldType?, h.outline_eq, houtline]
  | call receiver n args =>
    have howner := outline_certainOwnerType? h hone hctx hctx' receiver
    have hargs := outline_certainTypes? h hone hctx hctx' args
    rw [certainTypeAs?, certainTypeAs?]
    refine map_bind_congr howner fun r r' hr hr' houtline => ?_
    refine map_bind_congr hargs fun as as' _ _ houtlines => ?_
    exact h.outline_result hone (sameType_owner hctx hctx' hr hr' houtline) houtlines
  | _ => simp only [certainTypeAs?]

/-- The type under which a call is looked up is the same. -/
theorem outline_certainOwnerType? (h : c.Reordered c') (hone : c.OneResult) (hctx : c.Context ctx)
    (hctx' : c'.Context (ctx.atPosition i)) (receiver : Option Expr) :
    (c.certainOwnerType? ctx receiver).map TypeInfo.outline =
      (c'.certainOwnerType? (ctx.atPosition i) receiver).map TypeInfo.outline := by
  cases receiver with
  | none =>
    rw [certainOwnerType?, certainOwnerType?, Option.map_some, Option.map_some, h.outline_thisType]
  | some e =>
    by_cases hthis : e = .this
    · rw [hthis, certainOwnerType?, certainOwnerType?, Option.map_some, Option.map_some,
        h.outline_thisType]
    · rw [certainOwnerType?.eq_3 c _ e hthis, certainOwnerType?.eq_3 c' _ e hthis,
        TypeInfo.outline_bind_known?, TypeInfo.outline_bind_known?,
        outline_certainTypeAs? h hone hctx hctx' .receiver e]

/-- The types of the arguments are the same. -/
theorem outline_certainTypes? (h : c.Reordered c') (hone : c.OneResult) (hctx : c.Context ctx)
    (hctx' : c'.Context (ctx.atPosition i)) (es : List Expr) :
    (c.certainTypes? ctx es).map (List.map TypeInfo.outline) =
      (c'.certainTypes? (ctx.atPosition i) es).map (List.map TypeInfo.outline) := by
  cases es with
  | nil => rw [certainTypes?, certainTypes?]
  | cons e es =>
    have hcons : ∀ (t : TypeInfo) (ts : Option (List TypeInfo)),
        (ts.map (t :: ·)).map (List.map TypeInfo.outline) =
          (ts.map (List.map TypeInfo.outline)).map (t.outline :: ·) := fun t ts => by
      cases ts <;> rfl
    rw [certainTypes?, certainTypes?]
    refine map_bind_congr (outline_certainTypeAs? h hone hctx hctx' .value e)
      fun t t' _ _ houtline => ?_
    rw [hcons, hcons, outline_certainTypes? h hone hctx hctx' es, houtline]

end

/-- **A call refers to the same signature on the same type.** -/
theorem target_resolveCall? (h : c.Reordered c') (hone : c.OneResult) (hctx : c.Context ctx)
    (hctx' : c'.Context (ctx.atPosition i)) (call : MethodCall) :
    (c.resolveCall? ctx call).map ResolvedCall.target =
      (c'.resolveCall? (ctx.atPosition i) call).map ResolvedCall.target := by
  have howner := h.outline_certainOwnerType? hone hctx hctx' call.receiver
  have hargs := h.outline_certainTypes? hone hctx hctx' call.args
  rw [resolveCall?, resolveCall?]
  refine map_bind_congr howner fun r r' hr hr' houtline => ?_
  refine map_bind_congr hargs fun as as' _ _ houtlines => ?_
  exact h.target_selectCall? (sameType_owner hctx hctx' hr hr' houtline) houtlines

end Reordered

/-! ## The main statement -/

/-- **How a call is resolved** whose receiver and arguments have the types `r` and `args`. -/
structure ResolvesBySignature (c : Codebase) (ctx : ExprContext) (call : MethodCall) (r : TypeInfo)
    (args : List TypeInfo) : Prop where
  /-- It is resolved if and only if a signature decides. -/
  found : (∃ x, c.resolveCall? ctx call = some x) ↔ ∃ sig, c.Decides r call.name args sig
  /-- It refers to that signature on the first type that offers it. -/
  chosen : ∀ x, c.resolveCall? ctx call = some x → c.Decides r call.name args x.params ∧
    c.FirstOffering r call.name args x.params x.declaring
  /-- Of several methods with that signature on that type, the first applicable one gives the declaration
  and the result. -/
  first : ∀ x, c.resolveCall? ctx call = some x → ∃ k, (c.applicableOn call.name args
    x.declaring).find? (fun k => k.signature == x.params) = some k ∧ x = k.resolved call.name
  /-- In any other order of methods the method around stands somewhere. -/
  stands : ∀ c', c.Reordered c' → ∃ i, c'.Context (ctx.atPosition i)
  /-- With methods in another order, it refers to the same signature on the same type if receiver and
  arguments have the same types. -/
  sameTypes : ∀ c' i r' args', c.Reordered c' → c'.Context (ctx.atPosition i) →
    c'.certainOwnerType? (ctx.atPosition i) call.receiver = some r' →
      c'.certainTypes? (ctx.atPosition i) call.args = some args' → r.outline = r'.outline →
        args.map TypeInfo.outline = args'.map TypeInfo.outline →
          (c.resolveCall? ctx call).map ResolvedCall.target =
            (c'.resolveCall? (ctx.atPosition i) call).map ResolvedCall.target
  /-- They do if methods with the same signature have the same result. -/
  reordered : c.OneResult → ∀ c' i, c.Reordered c' → c'.Context (ctx.atPosition i) →
    (c.resolveCall? ctx call).map ResolvedCall.target =
      (c'.resolveCall? (ctx.atPosition i) call).map ResolvedCall.target

theorem Reordered.exists_context (h : c.Reordered c') (hctx : c.Context ctx) :
    ∃ i, c'.Context (ctx.atPosition i) := by
  obtain ⟨m, hm, hmethod⟩ := h.exists_method hctx.declared
  have hat : (ctx.atPosition m.position).method = m := by
    rw [ExprContext.atPosition, ← (mem_methodsOf.mp hm).1]
  refine ⟨m.position, ?_, ?_⟩
  · rw [hat]
    exact declared_of_mem_methodsOf hm
  · rw [hat, hmethod]
    exact hctx.decl_eq

theorem resolveCall?_of_types {call : MethodCall}
    (hr : c.certainOwnerType? ctx call.receiver = some r)
    (hargs : c.certainTypes? ctx call.args = some args) :
    c.resolveCall? ctx call = c.selectCall? r call.name args := by
  rw [resolveCall?, hr, hargs]
  rfl

/-- **A call refers to the nearest unambiguous signature.** -/
theorem call_resolves_by_signature {call : MethodCall} (hctx : c.Context ctx)
    (hr : c.certainOwnerType? ctx call.receiver = some r)
    (hargs : c.certainTypes? ctx call.args = some args) : c.ResolvesBySignature ctx call r args where
  found := by
    rw [resolveCall?_of_types hr hargs]
    exact exists_selectCall?_iff
  chosen x hx := by
    rw [resolveCall?_of_types hr hargs] at hx
    exact decides_of_selectCall? hx
  first x hx := by
    rw [resolveCall?_of_types hr hargs] at hx
    exact find?_of_selectCall? hx
  stands c' h := h.exists_context hctx
  sameTypes c' i r' args' h hctx' hr' hargs' houtline houtlines := by
    rw [resolveCall?_of_types hr hargs, resolveCall?_of_types hr' hargs']
    exact h.target_selectCall? (Reordered.sameType_owner hctx hctx' hr hr' houtline) houtlines
  reordered hone c' i h hctx' := h.target_resolveCall? hone hctx hctx' call

end Codebase

/-! ## Overloads on two types

`Lower.go` calls `f` with a number.  `Lower` has two methods that accept it, and the class above has one
that takes just that. -/

namespace Sample

/-- A call of `f` with a number. -/
def callNumber : CallSite := ⟨⟨none, "f", [.literal .int]⟩, 0, 1⟩

/-- The two classes, of which the lower one has the given methods. -/
def classes (methods : List MethodDecl) : Codebase :=
  { code with types :=
    [classDecl "Upper" [] [unary "f" (.primitive .int) []],
     classDecl "Lower" [.simple "Upper"] methods] }

/-- The methods of the lower class. -/
def lowerMethods : List MethodDecl :=
  [unary "f" (.primitive .long) [], unary "f" (.primitive .double) [], method "go" [callNumber]]

theorem reordered_classes {ms ms' : List MethodDecl} (h : ms.Perm ms') :
    (classes ms).Reordered (classes ms') where
  units := rfl
  types := .cons ⟨rfl, .refl _⟩ (.cons ⟨rfl, h⟩ .nil)
  catalog := .nil

theorem oneResult_classes : (classes lowerMethods).OneResult where
  declared id m hm k hk _ _ := by
    -- no method has a result
    have hvoid : ∀ m ∈ (classes lowerMethods).methodsOf id,
        ((classes lowerMethods).method m).returnType.isVoid = true := by
      intro m hm
      have hid := (Codebase.declared_of_mem_methodsOf hm).owner_lt
      rw [(Codebase.mem_methodsOf.mp hm).1] at hid
      obtain ⟨_ | _ | i⟩ := id
      · revert m
        decide
      · revert m
        decide
      · exact absurd hid (by simp [classes])
    rw [Codebase.returnType?, Codebase.returnType?, if_pos (hvoid m hm), if_pos (hvoid k hk)]
  described t ht := absurd ht List.not_mem_nil

end Sample

namespace Codebase

/-- The call refers to the method of the class above, in whichever order the others stand. -/
theorem call_resolves_by_signature_sample :
    (∃ x, (Sample.classes Sample.lowerMethods).resolveCall?
        ((Sample.classes Sample.lowerMethods).context ⟨⟨1⟩, 2⟩ 0) Sample.callNumber.call = some x ∧
          x.params = ["int"] ∧ x.declaring.name = "Upper" ∧
            (Sample.classes Sample.lowerMethods).FirstOffering (.source ⟨1⟩ "Lower") "f"
              [.primitive .int] ["int"] x.declaring) ∧
      ∃ x, (Sample.classes Sample.lowerMethods.reverse).resolveCall?
        ((Sample.classes Sample.lowerMethods).context ⟨⟨1⟩, 2⟩ 0 |>.atPosition 0)
          Sample.callNumber.call = some x ∧ x.params = ["int"] := by
  have hcontext : (Sample.classes Sample.lowerMethods).Context
      ((Sample.classes Sample.lowerMethods).context ⟨⟨1⟩, 2⟩ 0) :=
    .of_declared (by rw [Declared]; decide) 0
  have hcall : (Sample.classes Sample.lowerMethods).ResolvesBySignature
      ((Sample.classes Sample.lowerMethods).context ⟨⟨1⟩, 2⟩ 0) Sample.callNumber.call
        (.source ⟨1⟩ "Lower") [.primitive .int] :=
    call_resolves_by_signature hcontext (by with_unfolding_all rfl) (by with_unfolding_all rfl)
  have hfound : ((Sample.classes Sample.lowerMethods).resolveCall?
      ((Sample.classes Sample.lowerMethods).context ⟨⟨1⟩, 2⟩ 0) Sample.callNumber.call).map
        (fun x => (x.params, x.declaring.name)) = some (["int"], "Upper") := by decide +kernel
  obtain ⟨x, hx, hxy⟩ := Option.map_eq_some_iff.mp hfound
  obtain ⟨hparams, hdeclaring⟩ := Prod.mk.inj hxy
  have hfirst := (hcall.chosen x hx).2
  rw [hparams] at hfirst
  refine ⟨⟨x, hx, hparams, hdeclaring, hfirst⟩, ?_⟩
  have hsame := hcall.reordered Sample.oneResult_classes _ 0
    (Sample.reordered_classes (List.reverse_perm _).symm) ⟨by rw [Declared]; decide, by rfl⟩
  rw [hx, Option.map_some] at hsame
  obtain ⟨x', hx', htarget⟩ := Option.map_eq_some_iff.mp hsame.symm
  exact ⟨x', hx', (congrArg Prod.snd htarget).trans hparams⟩

end Codebase

/-! ## A method with two results

A box describes `get` twice, as compilers do for a method that is overridden with a more special result. -/

namespace Sample

/-- Two methods that differ in their results only. -/
def getters : List CompiledMethod :=
  [⟨"get", [], "lib.A", false, false⟩, ⟨"get", [], "lib.B", false, false⟩]

/-- A described class. -/
def described (name : String) (methods : List CompiledMethod) : CompiledType :=
  ⟨name, false, none, [], methods, []⟩

/-- The call of `use` on what is in the box. -/
def callUse : CallSite := ⟨⟨some (.call (some (.name "p")) "get" []), "use", []⟩, 0, 1⟩

/-- A class that makes the call, and the described box with its results. -/
def boxes (methods : List CompiledMethod) : Codebase :=
  { code with
    types := [classDecl "D" [] [unary "go" (.simple "lib.Box") [callUse]]]
    catalog := ⟨[described "lib.Box" methods,
      described "lib.A" [⟨"use", [], "void", false, false⟩],
      described "lib.B" [⟨"use", [], "void", false, false⟩]]⟩ }

theorem reordered_boxes {ms ms' : List CompiledMethod} (h : ms.Perm ms') :
    (boxes ms).Reordered (boxes ms') where
  units := rfl
  types := .cons ⟨rfl, .refl _⟩ .nil
  catalog := .cons ⟨rfl, h⟩ (.cons ⟨rfl, .refl _⟩ (.cons ⟨rfl, .refl _⟩ .nil))

end Sample

namespace Codebase

/-- **A call that depends on the order of methods.**  The receiver of `use` is the result of `get`, which
is that of the first one. -/
theorem call_reordered_sample :
    ¬∀ (c c' : Codebase) (ctx : ExprContext) (i : Nat) (call : MethodCall), c.Reordered c' →
      c.Context ctx → c'.Context (ctx.atPosition i) →
      (c.certainOwnerType? ctx call.receiver).isSome = true →
      (c.certainTypes? ctx call.args).isSome = true →
      (c'.certainOwnerType? (ctx.atPosition i) call.receiver).isSome = true →
      (c'.certainTypes? (ctx.atPosition i) call.args).isSome = true →
        (c.resolveCall? ctx call).map ResolvedCall.target =
          (c'.resolveCall? (ctx.atPosition i) call).map ResolvedCall.target := by
  intro h
  have hsame := h (Sample.boxes Sample.getters) (Sample.boxes Sample.getters.reverse)
    ((Sample.boxes Sample.getters).context ⟨⟨0⟩, 0⟩ 0) 0 Sample.callUse.call
    (Sample.reordered_boxes (List.reverse_perm _).symm) (.of_declared (by rw [Declared]; decide) 0)
    ⟨by rw [Declared]; decide, by rfl⟩ (by decide +kernel) (by decide +kernel) (by decide +kernel)
    (by decide +kernel)
  have hnames := congrArg (Option.map fun target => target.1.name) hsame
  exact absurd hnames (by decide +kernel)

end Codebase

end JavaCallGraph

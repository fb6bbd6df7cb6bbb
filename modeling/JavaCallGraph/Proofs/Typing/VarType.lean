import JavaCallGraph.Proofs.Typing.Agreement

/-!
# The type of a variable declared with `var`

Such a variable has the type of its value.  Inference types the value at the place where the variable
is *used*, not where it is declared.  So the variable has one type at both places as far as the value
means the same at both.  It need not: its names can be redeclared between the two, and in an anonymous
class `this` is another object.

* `Expr.dependencies` — what the type of an expression can depend on besides the method: what its names
  refer to and what `this` is;
* `ExprContext.Reaches` — the dependencies of an expression and of the values of variables in it;
* `Codebase.typeOf?_at` — an expression has one type at two places where all that it reaches is the same;
* `Codebase.var_typed_by_its_value` — so has a variable in the scope of its declaration and in scopes
  inside it that leave what its value reaches alone;
* `Codebase.var_retyped_sample` — a variable with two types.
-/

set_option autoImplicit false

namespace JavaCallGraph

/-! ## What a type depends on -/

/-- Something that is not the same everywhere in a method. -/
inductive Dependency where
  /-- What a simple name refers to. -/
  | name (n : String)
  /-- What `this` is. -/
  | self
  deriving DecidableEq

mutual

/-- What the type of an expression can depend on. -/
def Expr.dependencies : Expr → List Dependency
  | .name n => [.name n]
  | .this | .super => [.self]
  | .field receiver _ => receiver.dependencies
  | .call receiver _ args => Expr.receiverDependencies receiver ++ Expr.listDependencies args
  | .index array => array.dependencies
  | .binary op l r => if op.isBoolean then [] else l.dependencies ++ r.dependencies
  | .unary .not _ => []
  | .unary _ operand => operand.dependencies
  | .conditional positive negative => positive.dependencies ++ negative.dependencies
  | .assign target _ => target.dependencies
  | _ => []

/-- What the receiver of a call can depend on; without one it is `this`. -/
def Expr.receiverDependencies : Option Expr → List Dependency
  | none => [.self]
  | some e => e.dependencies

/-- What the types of several expressions can depend on. -/
def Expr.listDependencies : List Expr → List Dependency
  | [] => []
  | e :: es => e.dependencies ++ Expr.listDependencies es

end

theorem Expr.dependencies_unary {op : UnaryOp} (operand : Expr) (h : op ≠ .not) :
    (Expr.unary op operand).dependencies = operand.dependencies := by
  cases op with
  | not => exact absurd rfl h
  | _ => rfl

/-- The expression that gives a variable its type when that is not written. -/
def LocalVar.value? (v : LocalVar) : Option Expr := v.init.or v.iterable

namespace ExprContext

/-- Another place in the same method. -/
def atScope (ctx : ExprContext) (s : ScopeId) : ExprContext := { ctx with scope := s }

/-- The same is meant at another place. -/
def Agrees (ctx : ExprContext) (s : ScopeId) : Dependency → Prop
  | .name n => (ctx.atScope s).binding? n = ctx.binding? n
  | .self => (ctx.atScope s).anonymousBase? = ctx.anonymousBase?

/-- `v` is declared with `var`, `n` refers to it, and `e` is its value. -/
structure TypedBy (ctx : ExprContext) (n : String) (e : Expr) (v : LocalVar) : Prop where
  binding : ctx.binding? n = some (.local v)
  inferred : v.type.isInferred = true
  value : v.value? = some e

/-- **What the type of an expression can depend on**, also through the variables in it. -/
inductive Reaches (ctx : ExprContext) : Expr → Dependency → Prop
  | here {e : Expr} {d : Dependency} (h : d ∈ e.dependencies) : Reaches ctx e d
  | through {e i : Expr} {n : String} {v : LocalVar} {d : Dependency}
    (hn : .name n ∈ e.dependencies) (hv : ctx.TypedBy n i v) (h : Reaches ctx i d) : Reaches ctx e d

end ExprContext

namespace Codebase

variable {c : Codebase} {ctx : ExprContext} {s : ScopeId}

/-! ## Certain types at two places -/

theorem thisType_at (h : ctx.Agrees s .self) : c.thisType (ctx.atScope s) = c.thisType ctx := by
  have h : (ctx.atScope s).anonymousBase? = ctx.anonymousBase? := h
  rw [thisType, thisType, h]
  rfl

theorem superType?_at (h : ctx.Agrees s .self) : c.superType? (ctx.atScope s) = c.superType? ctx := by
  have h : (ctx.atScope s).anonymousBase? = ctx.anonymousBase? := h
  rw [superType?, superType?, h]
  rfl

theorem certainNameType?_at {n : String} (h : ctx.Agrees s (.name n)) :
    c.certainNameType? (ctx.atScope s) n = c.certainNameType? ctx n := by
  have h : (ctx.atScope s).binding? n = ctx.binding? n := h
  rw [certainNameType?, certainNameType?, h]
  rfl

theorem isTypeName_at {n : String} (h : ctx.Agrees s (.name n)) :
    c.isTypeName (ctx.atScope s) n = c.isTypeName ctx n := by
  have h : (ctx.atScope s).binding? n = ctx.binding? n := h
  rw [isTypeName, isTypeName, h]
  rfl

mutual

theorem certainTypeAs?_at (role : Role) (e : Expr) (h : ∀ d ∈ e.dependencies, ctx.Agrees s d) :
    c.certainTypeAs? (ctx.atScope s) role e = c.certainTypeAs? ctx role e := by
  cases e with
  | literal l => rw [certainTypeAs?, certainTypeAs?]
  | this => rw [certainTypeAs?, certainTypeAs?, thisType_at (h _ (by simp [Expr.dependencies]))]
  | super => rw [certainTypeAs?, certainTypeAs?, superType?_at (h _ (by simp [Expr.dependencies]))]
  | name n =>
    have hn := h (.name n) (by simp [Expr.dependencies])
    rw [certainTypeAs?, certainTypeAs?, isTypeName_at hn, certainNameType?_at hn]
    rfl
  | new r args =>
    rw [certainTypeAs?, certainTypeAs?]
    rfl
  | cast r operand =>
    rw [certainTypeAs?, certainTypeAs?]
    rfl
  | field receiver n =>
    rw [certainTypeAs?, certainTypeAs?, certainTypeAs?_at .receiver receiver
      fun d hd => h d (by simpa [Expr.dependencies] using hd)]
  | call receiver n args =>
    rw [certainTypeAs?, certainTypeAs?,
      certainOwnerType?_at receiver fun d hd => h d (by simp [Expr.dependencies, hd]),
      certainTypes?_at args fun d hd => h d (by simp [Expr.dependencies, hd])]
  | _ => simp only [certainTypeAs?]

theorem certainOwnerType?_at (receiver : Option Expr)
    (h : ∀ d ∈ Expr.receiverDependencies receiver, ctx.Agrees s d) :
    c.certainOwnerType? (ctx.atScope s) receiver = c.certainOwnerType? ctx receiver := by
  cases receiver with
  | none =>
    rw [certainOwnerType?, certainOwnerType?,
      thisType_at (h _ (by simp [Expr.receiverDependencies]))]
  | some e =>
    by_cases hthis : e = .this
    · rw [hthis, certainOwnerType?, certainOwnerType?,
        thisType_at (h _ (by simp [hthis, Expr.receiverDependencies, Expr.dependencies]))]
    · rw [certainOwnerType?.eq_3 c _ e hthis, certainOwnerType?.eq_3 c _ e hthis,
        certainTypeAs?_at .receiver e h]

theorem certainTypes?_at (es : List Expr) (h : ∀ d ∈ Expr.listDependencies es, ctx.Agrees s d) :
    c.certainTypes? (ctx.atScope s) es = c.certainTypes? ctx es := by
  cases es with
  | nil => rw [certainTypes?, certainTypes?]
  | cons e es =>
    rw [certainTypes?, certainTypes?,
      certainTypeAs?_at .value e fun d hd => h d (by simp [Expr.listDependencies, hd]),
      certainTypes?_at es fun d hd => h d (by simp [Expr.listDependencies, hd])]

end

theorem resolveCall?_at {receiver : Option Expr} {n : String} {args : List Expr}
    (h : ∀ d ∈ (Expr.call receiver n args).dependencies, ctx.Agrees s d) :
    c.resolveCall? (ctx.atScope s) ⟨receiver, n, args⟩ = c.resolveCall? ctx ⟨receiver, n, args⟩ := by
  rw [resolveCall?, resolveCall?,
    certainOwnerType?_at receiver fun d hd => h d (by simp [Expr.dependencies, hd]),
    certainTypes?_at args fun d hd => h d (by simp [Expr.dependencies, hd])]

/-! ## Inferred types at two places -/

theorem lookupUnqualified?_at (h : ctx.Agrees s .self) (n : String) (args : List Argument) :
    c.lookupUnqualified? (ctx.atScope s) n args = c.lookupUnqualified? ctx n args := by
  have h : (ctx.atScope s).anonymousBase? = ctx.anonymousBase? := h
  rw [lookupUnqualified?, lookupUnqualified?, unqualifiedScopes, unqualifiedScopes, h]
  rfl

/-- The values of the variables in an expression are typed alike. -/
def ValuesAlike (ctx : ExprContext) (typed typed' : Expr → Option TypeInfo) (ds : List Dependency) :
    Prop :=
  ∀ n e v, .name n ∈ ds → ctx.TypedBy n e v → typed' e = typed e

variable {typed typed' : Expr → Option TypeInfo}

theorem nameType?_at {n : String} (h : ctx.Agrees s (.name n))
    (hvalues : ValuesAlike ctx typed typed' [.name n]) :
    c.nameType? typed' (ctx.atScope s) n = c.nameType? typed ctx n := by
  have h : (ctx.atScope s).binding? n = ctx.binding? n := h
  rw [nameType?, nameType?, h]
  cases hb : ctx.binding? n with
  | none => rfl
  | some b =>
    cases b with
    | «local» v =>
      simp only
      by_cases hv : v.type.isInferred = true
      · rw [if_pos hv, if_pos hv]
        cases hinit : v.init with
        | some i =>
          exact hvalues n i v (List.mem_singleton_self _)
            ⟨hb, hv, by rw [LocalVar.value?, hinit, Option.some_or]⟩
        | none =>
          cases hiter : v.iterable with
          | some i =>
            simp only
            rw [hvalues n i v (List.mem_singleton_self _)
              ⟨hb, hv, by rw [LocalVar.value?, hinit, Option.none_or, hiter]⟩]
          | none => rfl
      · rw [if_neg hv, if_neg hv]
        rfl
    | lambdaParam p => rfl
    | param p => rfl

theorem ValuesAlike.mono {ds ds' : List Dependency} (h : ValuesAlike ctx typed typed' ds)
    (hsub : ∀ d ∈ ds', d ∈ ds) : ValuesAlike ctx typed typed' ds' :=
  fun n e v hn hv => h n e v (hsub _ hn) hv

mutual

/-- **An expression has one type at two places** where all that it depends on is the same. -/
theorem typeWith?_at (e : Expr) (h : ∀ d ∈ e.dependencies, ctx.Agrees s d)
    (hvalues : ValuesAlike ctx typed typed' e.dependencies) :
    c.typeWith? typed' (ctx.atScope s) e = c.typeWith? typed ctx e := by
  rw [typeWith?_eq_or, typeWith?_eq_or]
  congr 1
  · exact certainTypeAs?_at .value e h
  cases e with
  | name n =>
    rw [structuralWith?, structuralWith?]
    exact nameType?_at (h _ (by simp [Expr.dependencies])) (by simpa [Expr.dependencies] using hvalues)
  | field receiver n =>
    rw [Expr.dependencies] at h hvalues
    rw [structuralWith?, structuralWith?, typeWith?_at receiver h hvalues]
    rfl
  | call receiver n args =>
    have hcall := resolveCall?_at (c := c) h
    rw [Expr.dependencies] at h hvalues
    have hargs := typesWith_at args (fun d hd => h d (List.mem_append_right _ hd))
      (hvalues.mono fun d hd => List.mem_append_right _ hd)
    have howner := ownerWith?_at n (c.typesWith typed ctx args) receiver
      (fun d hd => h d (List.mem_append_left _ hd))
      (hvalues.mono fun d hd => List.mem_append_left _ hd)
    rw [structuralWith?, structuralWith?, hcall, hargs, howner]
  | index array =>
    rw [Expr.dependencies] at h hvalues
    rw [structuralWith?, structuralWith?, typeWith?_at array h hvalues]
  | binary op l r =>
    rw [structuralWith?, structuralWith?]
    by_cases hop : op.isBoolean = true
    · rw [if_pos hop, if_pos hop]
    · rw [Expr.dependencies, if_neg hop] at h hvalues
      rw [if_neg hop, if_neg hop,
        typeWith?_at l (fun d hd => h d (List.mem_append_left _ hd))
          (hvalues.mono fun d hd => List.mem_append_left _ hd),
        typeWith?_at r (fun d hd => h d (List.mem_append_right _ hd))
          (hvalues.mono fun d hd => List.mem_append_right _ hd)]
  | unary op operand =>
    by_cases hop : op = .not
    · rw [hop, structuralWith?, structuralWith?]
    · rw [Expr.dependencies_unary operand hop] at h hvalues
      rw [structuralWith?.eq_12 c typed' _ op operand hop,
        structuralWith?.eq_12 c typed _ op operand hop,
        typeWith?_at operand h hvalues]
  | conditional positive negative =>
    rw [Expr.dependencies] at h hvalues
    rw [structuralWith?, structuralWith?,
      typeWith?_at positive (fun d hd => h d (List.mem_append_left _ hd))
        (hvalues.mono fun d hd => List.mem_append_left _ hd),
      typeWith?_at negative (fun d hd => h d (List.mem_append_right _ hd))
        (hvalues.mono fun d hd => List.mem_append_right _ hd)]
  | assign target value =>
    rw [Expr.dependencies] at h hvalues
    rw [structuralWith?, structuralWith?, typeWith?_at target h hvalues]
  | this => rw [structuralWith?, structuralWith?, thisType_at (h _ (by simp [Expr.dependencies]))]
  | super => rw [structuralWith?, structuralWith?, superType?_at (h _ (by simp [Expr.dependencies]))]
  | _ => rfl

theorem typesWith_at (es : List Expr) (h : ∀ d ∈ Expr.listDependencies es, ctx.Agrees s d)
    (hvalues : ValuesAlike ctx typed typed' (Expr.listDependencies es)) :
    c.typesWith typed' (ctx.atScope s) es = c.typesWith typed ctx es := by
  cases es with
  | nil => rw [typesWith, typesWith]
  | cons e es =>
    rw [Expr.listDependencies] at h hvalues
    rw [typesWith, typesWith,
      typeWith?_at e (fun d hd => h d (List.mem_append_left _ hd))
        (hvalues.mono fun d hd => List.mem_append_left _ hd),
      typesWith_at es (fun d hd => h d (List.mem_append_right _ hd))
        (hvalues.mono fun d hd => List.mem_append_right _ hd)]

theorem ownerWith?_at (n : String) (args : List Argument) (receiver : Option Expr)
    (h : ∀ d ∈ Expr.receiverDependencies receiver, ctx.Agrees s d)
    (hvalues : ValuesAlike ctx typed typed' (Expr.receiverDependencies receiver)) :
    c.ownerWith? typed' (ctx.atScope s) n args receiver = c.ownerWith? typed ctx n args receiver := by
  cases receiver with
  | none =>
    rw [ownerWith?, ownerWith?]
    exact lookupUnqualified?_at (h _ (by simp [Expr.receiverDependencies])) n args
  | some e =>
    by_cases hsuper : e = .super
    · rw [hsuper, ownerWith?, ownerWith?]
      exact superType?_at (h _ (by simp [hsuper, Expr.receiverDependencies, Expr.dependencies]))
    · rw [ownerWith?.eq_3 c typed' _ n args e hsuper, ownerWith?.eq_3 c typed _ n args e hsuper,
        typeWith?_at e h hvalues]

end

theorem typeWithin?_at (k : Nat) (e : Expr) (h : ∀ d, ctx.Reaches e d → ctx.Agrees s d) :
    c.typeWithin? (ctx.atScope s) k e = c.typeWithin? ctx k e := by
  induction k generalizing e with
  | zero =>
    rw [typeWithin?, typeWithin?]
    exact typeWith?_at e (fun d hd => h d (.here hd)) fun _ _ _ _ _ => rfl
  | succ k ih =>
    rw [typeWithin?, typeWithin?]
    exact typeWith?_at e (fun d hd => h d (.here hd))
      fun n i v hn hv => ih i fun d hd => h d (.through hn hv hd)

/-- **An expression has one type at two places** where all that it reaches is the same. -/
theorem typeOf?_at (e : Expr) (h : ∀ d, ctx.Reaches e d → ctx.Agrees s d) :
    c.typeOf? (ctx.atScope s) e = c.typeOf? ctx e :=
  typeWithin?_at _ e h

end Codebase

/-! ## From the declaration to the use -/

/-- The scope `s'` is `s` or lies in it; `inner` are the scopes between, innermost first. -/
inductive Body.Within (b : Body) (s : ScopeId) : ScopeId → List LexicalScope → Prop
  | refl : Within b s s []
  | step {s' p : ScopeId} {l : LexicalScope} {inner : List LexicalScope}
    (hscope : b.scopes[s']? = some l) (hparent : l.parent = some p) (hlt : p < s')
    (h : Within b s p inner) : Within b s s' (l :: inner)

theorem Body.Within.chain_eq {b : Body} {s s' : ScopeId} {inner : List LexicalScope}
    (h : b.Within s s' inner) : b.chain s' = inner ++ b.chain s := by
  induction h with
  | refl => rfl
  | step hscope hparent hlt _ ih =>
    rw [Body.chain, hscope]
    simp only [hparent, if_pos hlt, ih, List.cons_append]

/-- A scope leaves the meaning of a dependency as it is. -/
def LexicalScope.Keeps (l : LexicalScope) : Dependency → Prop
  | .name n => ExprContext.bindingIn? n l = none
  | .self => ∀ base, l.kind ≠ .anonymous base

/-- What is kept by all scopes between two places is the same at both. -/
theorem ExprContext.agrees_of_keeps {ctx : ExprContext} {b : Body} {s : ScopeId}
    {inner : List LexicalScope} (hbody : ctx.decl.body = some b)
    (hwithin : b.Within ctx.scope s inner) {d : Dependency} (h : ∀ l ∈ inner, l.Keeps d) :
    ctx.Agrees s d := by
  have hchain := hwithin.chain_eq
  cases d with
  | name n =>
    have hnone : inner.findSome? (bindingIn? n) = none := List.findSome?_eq_none_iff.mpr h
    simp only [Agrees, binding?, atScope, hbody, Option.bind_some, hchain, List.findSome?_append,
      hnone, Option.none_or]
  | self =>
    simp only [Agrees, anonymousBase?, atScope, hbody, Option.bind_some, Body.anonymousBase?, hchain,
      List.findSome?_append]
    rw [List.findSome?_eq_none_iff.mpr, Option.none_or]
    intro l hl
    split
    · next base hkind => exact absurd hkind (h l hl base)
    · rfl

namespace Codebase

variable {c : Codebase} {ctx : ExprContext}

/-- **A variable has the type that it has where it is declared**, if the scopes between leave alone
what the type of its value depends on.  For a written type this is always so. -/
theorem var_typed_by_its_value {b : Body} {s : ScopeId} {inner : List LexicalScope} {n : String}
    {v : LocalVar} (hbody : ctx.decl.body = some b) (hwithin : b.Within ctx.scope s inner)
    (hv : ctx.binding? n = some (.local v)) (hv' : (ctx.atScope s).binding? n = some (.local v))
    (hkept : ∀ e d, ctx.TypedBy n e v → ctx.Reaches e d → ∀ l ∈ inner, l.Keeps d) :
    c.typeOf? (ctx.atScope s) (.name n) = c.typeOf? ctx (.name n) := by
  refine typeOf?_at (.name n) fun d hd => ?_
  cases hd with
  | here hmem =>
    rw [Expr.dependencies, List.mem_singleton] at hmem
    rw [hmem]
    exact hv'.trans hv.symm
  | @through _ e m w _ hmem htyped hreach =>
    rw [Expr.dependencies, List.mem_singleton, Dependency.name.injEq] at hmem
    obtain rfl := hmem
    have hw : w = v := by simpa [hv] using htyped.binding.symm
    exact ExprContext.agrees_of_keeps hbody hwithin (hkept e d (hw ▸ htyped) hreach)

end Codebase

/-! ## A variable that hides a name in the value of another

`D` has a field `x` of type `Foo` and a method that begins with `var v = x`.  In a block of the method
a variable `x` of type `Bar` is declared, in another one a variable `y`. -/

namespace Sample

/-- The variable `v` with the field as its value. -/
def copyOfField : LocalVar := ⟨"v", .inferred, some (.name "x"), none⟩

/-- A block in the method that declares one variable of type `Bar`. -/
def blockWith (name : String) : LexicalScope :=
  ⟨some 0, .block, [⟨name, .simple "Bar", none, none⟩], []⟩

/-- The body of the method, with a call on `v` in each block. -/
def copying : Body where
  scopes := [⟨none, .method, [copyOfField], []⟩, blockWith "x", blockWith "y"]
  calls := [⟨⟨some (.name "v"), "run", []⟩, 1, 1⟩, ⟨⟨some (.name "v"), "run", []⟩, 2, 2⟩]

/-- The class with the field, and the two types. -/
def redeclaring : Codebase where
  units := [⟨"Redeclaring.java", none, [], none⟩]
  types :=
    [{ classDecl "D" [] [{ method "go" [] with body := some copying }] with
        fields := [⟨"x", .simple "Foo", false, false, []⟩] },
     classDecl "Foo" [] [method "run" []],
     classDecl "Bar" [] [method "run" []]]
  catalog := .empty

/-- A place in the method. -/
def inGo (s : ScopeId) : ExprContext := redeclaring.context ⟨⟨0⟩, 0⟩ s

theorem chain_copying_method : copying.chain 0 = [⟨none, .method, [copyOfField], []⟩] := by
  rw [Body.chain]
  rfl

theorem within_block {s : ScopeId} {name : String} (h : copying.scopes[s]? = some (blockWith name))
    (hs : 0 < s) : copying.Within 0 s [blockWith name] :=
  .step h rfl hs .refl

theorem binding_copy : (inGo 0).binding? "v" = some (.local copyOfField) := by
  change (((copying.chain 0).findSome? (ExprContext.bindingIn? "v")).or _) = _
  rw [chain_copying_method]
  rfl

/-- The blocks do not redeclare the variable. -/
theorem binding_copy_block {s : ScopeId} {name : String}
    (h : copying.scopes[s]? = some (blockWith name)) (hs : 0 < s) (hname : name ≠ "v") :
    (inGo s).binding? "v" = some (.local copyOfField) := by
  refine Eq.trans ?_ binding_copy
  refine (inGo 0).agrees_of_keeps rfl (within_block h hs) (d := .name "v") fun l hl => ?_
  rw [List.mem_singleton.mp hl]
  simp [LexicalScope.Keeps, ExprContext.bindingIn?, blockWith, hname]

end Sample

namespace Codebase

/-- The block with another variable does not matter. -/
theorem var_typed_by_its_value_sample :
    Sample.redeclaring.typeOf? (Sample.inGo 2) (.name "v") =
      Sample.redeclaring.typeOf? (Sample.inGo 0) (.name "v") := by
  have hfield : (Sample.inGo 0).binding? "x" = none := by
    change (((Sample.copying.chain 0).findSome? (ExprContext.bindingIn? "x")).or _) = _
    rw [Sample.chain_copying_method]
    rfl
  have hbody : (Sample.inGo 0).decl.body = some Sample.copying := rfl
  refine var_typed_by_its_value hbody (Sample.within_block rfl (by decide)) Sample.binding_copy
    (Sample.binding_copy_block rfl (by decide) (by decide)) ?_
  intro e d htyped hreach l hl
  rw [List.mem_singleton.mp hl]
  obtain rfl : .name "x" = e := Option.some.inj htyped.value
  -- the value is the name of a field, so nothing is reached through it
  cases hreach with
  | here hmem =>
    rw [List.mem_singleton.mp hmem]
    rfl
  | through hmem htyped' _ =>
    have hn : _ = "x" := Dependency.name.inj (List.mem_singleton.mp hmem)
    rw [hn] at htyped'
    exact absurd (htyped'.binding.symm.trans hfield) (by simp)

/-- **A variable with two types**: that of the field, and in the block that of the other variable. -/
theorem var_retyped_sample :
    ¬∀ (c : Codebase) (m : MethodRef) (b : Body) (s s' : ScopeId) (l : LexicalScope)
      (inner : List LexicalScope) (v : LocalVar),
      (c.method m).body = some b → b.scopes[s]? = some l → v ∈ l.locals →
      v.type.isInferred = true → b.Within s s' inner →
      (c.context m s).binding? v.name = some (.local v) →
      (c.context m s').binding? v.name = some (.local v) →
      c.typeOf? (c.context m s') (.name v.name) = c.typeOf? (c.context m s) (.name v.name) := by
  intro h
  have hsame := h Sample.redeclaring ⟨⟨0⟩, 0⟩ Sample.copying 0 1 _ [Sample.blockWith "x"]
    Sample.copyOfField rfl rfl (List.mem_singleton_self _) rfl
    (Sample.within_block rfl (by decide)) Sample.binding_copy
    (Sample.binding_copy_block rfl (by decide) (by decide))
  have hfield : (Sample.redeclaring.typeOf? (Sample.inGo 0) (.name "v")).map TypeInfo.name =
      some "Foo" := by decide +kernel
  have hblock : (Sample.redeclaring.typeOf? (Sample.inGo 1) (.name "v")).map TypeInfo.name =
      some "Bar" := by decide +kernel
  have hnames := congrArg (Option.map TypeInfo.name) hsame
  exact absurd (hblock.symm.trans (hnames.trans hfield)) (by decide)

end Codebase

end JavaCallGraph

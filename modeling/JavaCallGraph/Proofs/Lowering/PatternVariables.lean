import JavaCallGraph.Proofs.Lowering.Places

/-!
# The variable of a type test

`if (e instanceof T x) { … }` declares `x` for the block behind the test.  A body keeps no flow of
control: the variable goes to the scope that the statement stands in, behind the variables that are
there already, and a name refers to the first variable of its scope.  So in the block `x` is the
variable of the test exactly as far as nothing was declared under that name in the scope before,
neither by a declaration nor by another test.  What scopes further out declare does not matter, and
neither does what comes after the test.

* `Syntax.patternSites` — the calls in the block behind a test;
* `Syntax.pattern_binding` — what the name refers to at each of them;
* `Syntax.pattern_rebound_sample` — two tests for one name in a chain of `else`: the second block has the
  variable of the first test.
-/

set_option autoImplicit false

namespace JavaCallGraph

open ExprContext (bindingIn?)

/-- The variable that a type test declares. -/
def LocalVar.ofPattern (x : String) (t : TypeRef) : LocalVar := ⟨x, t, none, none⟩

/-- A variable that is declared behind others is seen if none of them has its name. -/
theorem ExprContext.bindingIn?_concat (l : LexicalScope) (v : LocalVar) :
    bindingIn? v.name { l with locals := l.locals ++ [v] } =
      some ((bindingIn? v.name l).getD (.local v)) := by
  simp only [bindingIn?, List.find?_append]
  cases l.lambdaParams.find? fun p => p.name == v.name with
  | some p => rfl
  | none =>
    cases l.locals.find? fun w => w.name == v.name with
    | some w => rfl
    | none => simp

/-- A name that the scopes up to `s` leave alone refers to what it is in `s`. -/
theorem ExprContext.binding?_of_within {ctx : ExprContext} {b : Body} {s : ScopeId}
    {l : LexicalScope} {inner : List LexicalScope} {x : String} {v : Binding}
    (hbody : ctx.decl.body = some b) (hwithin : b.Within s ctx.scope inner)
    (hinner : ∀ l' ∈ inner, bindingIn? x l' = none) (hl : b.scopes[s]? = some l)
    (hv : bindingIn? x l = some v) : ctx.binding? x = some v := by
  have hnone : inner.findSome? (bindingIn? x) = none := List.findSome?_eq_none_iff.mpr hinner
  rw [binding?, hbody, Option.bind_some, hwithin.chain_eq, List.findSome?_append, hnone,
    Option.none_or, Body.chain, hl, List.findSome?_cons, hv]
  rfl

namespace Syntax

/-- The calls that the walk records in the block `body` behind the test `e instanceof t x`, when it
comes to the test with the body `b`. -/
def patternSites (s : ScopeId) (e : Expr) (t : TypeRef) (x : String) (body : List Stmt) (b : Body) :
    List CallSite :=
  let tested := walkExpr s (.instanceOf e t (some x)) b
  (walkStmt s (.block body) tested).callsSince tested

/-- **What a name refers to in the block behind a test**: the scope of the block lies in `s`, and where
no scope between declares the name again, it refers to `v`. -/
structure BoundBehind (body : Body) (s : ScopeId) (x : String) (v : Binding) (site : CallSite) :
    Prop where
  within : ∃ inner, body.Within s site.scope inner
  binding : ∀ inner, body.Within s site.scope inner → (∀ l ∈ inner, bindingIn? x l = none) →
    ∀ ctx : ExprContext, ctx.decl.body = some body → ctx.scope = site.scope →
      ctx.binding? x = some v

variable {statements body : List Stmt} {s : ScopeId} {e : Expr} {t : TypeRef} {x : String}
  {els : Option Stmt} {b : Body} {l : LexicalScope}

/-- **The name of a test refers in its block to the variable of the test**, unless the scope that the
statement stands in declares the name before. -/
theorem pattern_binding
    (h : Comes statements s (.stmt (.ifElse (.instanceOf e t (some x)) (.block body) els)) b)
    (hl : b.scopes[s]? = some l) :
    ∀ site ∈ patternSites s e t x body b, BoundBehind (lowerBody statements) s x
      ((bindingIn? x l).getD (.local (.ofPattern x t))) site := by
  intro site hsite
  have htested := growsFrom_walk (.expr e) s (b.addLocal s (.ofPattern x t))
  have hblock := growsFrom_walk (.stmt (.block body)) s (walkExpr s (.instanceOf e t (some x)) b)
  have hafter : (walkStmt s (.block body) (walkExpr s (.instanceOf e t (some x)) b)).Extends
      (lowerBody statements) := by
    refine Body.Extends.trans ?_ h.extends_lowerBody
    change Body.Extends _ (walkElse s els _)
    rw [walkElse_eq]
    exact (kept_growsFrom.walkAll _ _ _).extend
  obtain ⟨l', hl', hgrows⟩ :=
    ((htested.extend.trans hblock.extend).trans hafter).scopes (Body.getElem?_addLocal hl _)
  have hbound := hgrows.bindingIn?_eq (ExprContext.bindingIn?_concat l (.ofPattern x t))
  refine ⟨?_, fun inner hinner hnone ctx hctx hscope => ?_⟩
  · have hs := htested.extend.lt_length ((b.extends_addLocal s _).lt_length h.lt_length)
    obtain ⟨inner, hinner⟩ := hblock.within hs site hsite
    exact hafter.within hinner
  · exact ExprContext.binding?_of_within hctx (hscope ▸ hinner) hnone hl' hbound

end Syntax

/-! ## Two tests for one name

`if (o instanceof A x) { x.run(); } else if (o instanceof B x) { x.run(); }` -/

namespace Sample

open Syntax

/-- A test for a variable `x` of the given type, with a call on it in the block. -/
def testFor (type : String) (els : Option Stmt) : Stmt :=
  .ifElse (.instanceOf (.name "o") (.simple type) (some "x"))
    (.block [.evaluate [.call 1 (some (.name "x")) "run" []]]) els

/-- The two tests. -/
def twoTests : List Stmt := [testFor "A" (some (testFor "B" none))]

/-- The body built when the walk comes to the second test. -/
def afterFirstTest : Body where
  scopes := [⟨none, .method, [.ofPattern "x" (.simple "A")], []⟩, ⟨some 0, .block, [], []⟩]
  calls := [⟨⟨some (.name "x"), "run", []⟩, 1, 1⟩]

/-- The call in the block of the second test. -/
def secondCall : CallSite := ⟨⟨some (.name "x"), "run", []⟩, 2, 1⟩

theorem comes_firstTest :
    Comes twoTests 0 (.stmt (testFor "A" (some (testFor "B" none)))) Body.empty :=
  .statement .here

theorem comes_secondTest : Comes twoTests 0 (.stmt (testFor "B" none)) afterFirstTest :=
  comes_firstTest.child (.next (.next .here))

theorem within_secondBlock :
    (lowerBody twoTests).Within 0 secondCall.scope [⟨some 0, .block, [], []⟩] :=
  .step rfl rfl (by decide) .refl

end Sample

namespace Syntax

open Sample

/-- The first of the two tests, for the call in its block. -/
theorem pattern_binding_sample :
    BoundBehind (lowerBody twoTests) 0 "x" (.local (.ofPattern "x" (.simple "A")))
      ⟨⟨some (.name "x"), "run", []⟩, 1, 1⟩ :=
  pattern_binding comes_firstTest rfl _ (List.mem_singleton_self _)

/-- **A test whose block has the variable of another**: in the second block `x` is an `A`. -/
theorem pattern_rebound_sample :
    ¬∀ (statements body : List Stmt) (s : ScopeId) (e : Expr) (t : TypeRef) (x : String)
      (els : Option Stmt) (b : Body),
      Comes statements s (.stmt (.ifElse (.instanceOf e t (some x)) (.block body) els)) b →
      ∀ site ∈ patternSites s e t x body b, ∀ inner,
        (lowerBody statements).Within s site.scope inner → (∀ l ∈ inner, bindingIn? x l = none) →
        ∀ ctx : ExprContext, ctx.decl.body = some (lowerBody statements) → ctx.scope = site.scope →
          ∃ v, ctx.binding? x = some (.local v) ∧ v.type = t := by
  intro h
  let ctx : ExprContext := ⟨⟨⟨0⟩, 0⟩, { (default : MethodDecl) with body := some (lowerBody twoTests) }, 2⟩
  have hnone : ∀ l ∈ [(⟨some 0, .block, [], []⟩ : LexicalScope)], bindingIn? "x" l = none := by
    simp [bindingIn?]
  obtain ⟨v, hv, htype⟩ := h twoTests _ 0 _ _ "x" none afterFirstTest comes_secondTest secondCall
    (List.mem_singleton_self _) _ within_secondBlock hnone ctx rfl rfl
  have hfirst : ctx.binding? "x" = some (.local (.ofPattern "x" (.simple "A"))) :=
    ExprContext.binding?_of_within rfl within_secondBlock hnone rfl rfl
  obtain rfl : LocalVar.ofPattern "x" (.simple "A") = v := by simpa [hfirst] using hv
  exact absurd htype (by simp [LocalVar.ofPattern, TypeRef.simple])

end Syntax

end JavaCallGraph

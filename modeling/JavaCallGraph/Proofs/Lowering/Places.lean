import JavaCallGraph.Proofs.Lowering.Nodes
import JavaCallGraph.Proofs.Typing.VarType

/-!
# Where the walk of a body comes to a node

A walk only adds: calls behind the calls, variables behind the variables of a scope, and scopes.  So
what a node finds when the walk comes to it, and what the walk leaves behind it, are both still there
in the finished body.

* `Body.Extends` — a body with something added;
* `Body.GrowsFrom` — what a walk in a scope adds: its calls stand in that scope or inside it;
* `Syntax.Comes` — the scope that a node stands in, and the body built when the walk comes to it;
* `Syntax.Comes.extends_lowerBody` — what is built there is part of the finished body;
* `Syntax.exists_comes_iff` — the walk comes to all nodes of the text and to no others.
-/

set_option autoImplicit false

namespace JavaCallGraph

/-! ## Bodies that grow -/

/-- A scope with more variables declared behind those it has. -/
structure LexicalScope.Grows (l l' : LexicalScope) : Prop where
  parent : l'.parent = l.parent
  lambdaParams : l'.lambdaParams = l.lambdaParams
  locals : l.locals <+: l'.locals

theorem LexicalScope.Grows.refl (l : LexicalScope) : l.Grows l := ⟨rfl, rfl, List.prefix_rfl⟩

theorem LexicalScope.Grows.trans {l l' l'' : LexicalScope} (h : l.Grows l') (h' : l'.Grows l'') :
    l.Grows l'' :=
  ⟨h'.parent.trans h.parent, h'.lambdaParams.trans h.lambdaParams, h.locals.trans h'.locals⟩

/-- The first declaration of a name stays the first. -/
theorem LexicalScope.Grows.bindingIn?_eq {l l' : LexicalScope} (h : l.Grows l') {x : String}
    {v : Binding} (hv : ExprContext.bindingIn? x l = some v) :
    ExprContext.bindingIn? x l' = some v := by
  obtain ⟨more, hmore⟩ := h.locals
  rw [ExprContext.bindingIn?, h.lambdaParams, ← hmore, List.find?_append]
  rw [ExprContext.bindingIn?] at hv
  cases hp : l.lambdaParams.find? fun p => p.name == x with
  | some p => rwa [hp] at hv
  | none =>
    rw [hp] at hv
    cases hf : l.locals.find? fun v => v.name == x with
    | some w => rwa [hf] at hv
    | none => simp [hf] at hv

namespace Body

/-- **A body with something added.** -/
structure Extends (b b' : Body) : Prop where
  scopes : ∀ {s : ScopeId} {l : LexicalScope},
    b.scopes[s]? = some l → ∃ l', b'.scopes[s]? = some l' ∧ l.Grows l'
  calls : b.calls <+: b'.calls

namespace Extends

variable {b b' b'' : Body}

theorem refl (b : Body) : b.Extends b := ⟨fun h => ⟨_, h, .refl _⟩, List.prefix_rfl⟩

theorem trans (h : b.Extends b') (h' : b'.Extends b'') : b.Extends b'' := by
  refine ⟨fun hl => ?_, h.calls.trans h'.calls⟩
  obtain ⟨l', hl', hgrows⟩ := h.scopes hl
  obtain ⟨l'', hl'', hgrows'⟩ := h'.scopes hl'
  exact ⟨l'', hl'', hgrows.trans hgrows'⟩

theorem lt_length (h : b.Extends b') {s : ScopeId} (hs : s < b.scopes.length) :
    s < b'.scopes.length := by
  obtain ⟨l', hl', -⟩ := h.scopes (List.getElem?_eq_getElem hs)
  exact (List.getElem?_eq_some_iff.mp hl').1

/-- What lies inside a scope still does. -/
theorem within (h : b.Extends b') {s s' : ScopeId} {inner : List LexicalScope}
    (hw : b.Within s s' inner) : ∃ inner', b'.Within s s' inner' := by
  induction hw with
  | refl => exact ⟨[], .refl⟩
  | step hscope hparent hlt _ ih =>
    obtain ⟨inner', hw'⟩ := ih
    obtain ⟨l', hl', hgrows⟩ := h.scopes hscope
    exact ⟨l' :: inner', .step hl' (hgrows.parent.trans hparent) hlt hw'⟩

end Extends

theorem Within.trans {b : Body} {s p s' : ScopeId} {outer inner : List LexicalScope}
    (h : b.Within s p outer) (h' : b.Within p s' inner) : b.Within s s' (inner ++ outer) := by
  induction h' with
  | refl => exact h
  | step hscope hparent hlt _ ih => exact .step hscope hparent hlt ih

theorem getElem?_addLocal {b : Body} {s : ScopeId} {l : LexicalScope} (h : b.scopes[s]? = some l)
    (v : LocalVar) :
    (b.addLocal s v).scopes[s]? = some { l with locals := l.locals ++ [v] } := by
  simp [addLocal, h]

theorem extends_addLocal (b : Body) (s : ScopeId) (v : LocalVar) : b.Extends (b.addLocal s v) := by
  refine ⟨fun {s' l} hl => ?_, List.prefix_rfl⟩
  by_cases hs : s = s'
  · subst hs
    exact ⟨_, getElem?_addLocal hl v, rfl, rfl, List.prefix_append _ _⟩
  · exact ⟨l, by simp [addLocal, hs, hl], .refl l⟩

theorem extends_openScope (b : Body) (s : ScopeId) (kind : ScopeKind) (params : List LambdaParam) :
    b.Extends (b.openScope s kind params) := by
  refine ⟨fun {s' l} hl => ⟨l, ?_, .refl l⟩, List.prefix_rfl⟩
  exact (List.getElem?_append_left (List.getElem?_eq_some_iff.mp hl).1).trans hl

theorem getElem?_openScope (b : Body) (s : ScopeId) (kind : ScopeKind) (params : List LambdaParam) :
    (b.openScope s kind params).scopes[b.nextScope]? = some ⟨some s, kind, [], params⟩ :=
  List.getElem?_concat_length

/-- The calls recorded since `b` was built. -/
def callsSince (b' b : Body) : List CallSite := b'.calls.drop b.calls.length

theorem callsSince_eq {b b' : Body} {more : List CallSite} (h : b.calls ++ more = b'.calls) :
    b'.callsSince b = more := by
  rw [callsSince, ← h, List.drop_left]

/-- **What a walk in the scope `s` adds**: its calls stand in `s` or inside it. -/
structure GrowsFrom (s : ScopeId) (b b' : Body) : Prop where
  extend : b.Extends b'
  within : s < b.scopes.length →
    ∀ site ∈ b'.callsSince b, ∃ inner, b'.Within s site.scope inner

end Body

namespace Syntax

theorem kept_growsFrom : Kept Body.GrowsFrom where
  refl s b := ⟨.refl b, fun _ site hsite => by simp [Body.callsSince] at hsite⟩
  trans {s b b' b''} h h' := by
    refine ⟨h.extend.trans h'.extend, fun hs site hsite => ?_⟩
    obtain ⟨more, hmore⟩ := h.extend.calls
    obtain ⟨more', hmore'⟩ := h'.extend.calls
    have hall : b.calls ++ (more ++ more') = b''.calls := by
      rw [← List.append_assoc, hmore, hmore']
    rw [Body.callsSince_eq hall, List.mem_append] at hsite
    rcases hsite with hsite | hsite
    · obtain ⟨inner, hinner⟩ := h.within hs site (Body.callsSince_eq hmore ▸ hsite)
      exact h'.extend.within hinner
    · exact h'.within (h.extend.lt_length hs) site (Body.callsSince_eq hmore' ▸ hsite)
  call s b c line := by
    refine ⟨⟨fun hl => ⟨_, hl, .refl _⟩, List.prefix_append _ _⟩, fun _ site hsite => ⟨[], ?_⟩⟩
    obtain rfl : site = ⟨c, s, line⟩ := by simpa [Body.callsSince, Body.addCall] using hsite
    exact .refl
  declare s b v := by
    refine ⟨b.extends_addLocal s v, fun _ site hsite => ?_⟩
    simp [Body.callsSince, Body.addLocal] at hsite
  inside {s kind params b b'} h := by
    refine ⟨(b.extends_openScope s kind params).trans h.extend, fun hs site hsite => ?_⟩
    obtain ⟨inner, hinner⟩ := h.within (by simp [Body.openScope, Body.nextScope]) site hsite
    obtain ⟨l, hl, hgrows⟩ := h.extend.scopes (b.getElem?_openScope s kind params)
    exact ⟨_, Body.Within.trans (.step hl hgrows.parent hs .refl) hinner⟩

theorem growsFrom_walk (n : Node) (s : ScopeId) (b : Body) : b.GrowsFrom s (n.walk s b) :=
  kept_growsFrom.walk n s b

/-! ## Where the walk comes to a node -/

/-- While the parts `ps` are done in `scope`, beginning with the body `b`, the node `n` is walked in
the scope `s'`, and then the body is `b'`. -/
inductive Part.Leads : ScopeId → List Part → Body → ScopeId → Node → Body → Prop
  | here {scope : ScopeId} {n : Node} {ps : List Part} {b : Body} :
    Leads scope (.node n :: ps) b scope n b
  | next {scope s' : ScopeId} {p : Part} {ps : List Part} {n : Node} {b b' : Body}
    (h : Leads scope ps (p.walk scope b) s' n b') : Leads scope (p :: ps) b s' n b'
  | inside {scope s' : ScopeId} {kind : ScopeKind} {params : List LambdaParam}
    {inside ps : List Part} {n : Node} {b b' : Body}
    (h : Leads b.nextScope inside (b.openScope scope kind params) s' n b') :
    Leads scope (.scope kind params inside :: ps) b s' n b'

/-- **The walk of a body comes to the node `n`** in the scope `s`, when the body `b` is built. -/
inductive Comes (statements : List Stmt) : ScopeId → Node → Body → Prop
  | statement {s : ScopeId} {n : Node} {b : Body}
    (h : Part.Leads 0 (Part.enter (statements.map .stmt)) Body.empty s n b) : Comes statements s n b
  | child {s s' : ScopeId} {n m : Node} {b b' : Body} (hn : Comes statements s n b)
    (h : Part.Leads s n.parts b s' m b') : Comes statements s' m b'

namespace Part

variable {s s' : ScopeId} {ps : List Part} {n : Node} {b b' : Body}

theorem Leads.lt_length (h : Leads s ps b s' n b') (hs : s < b.scopes.length) :
    s' < b'.scopes.length := by
  induction h with
  | here => exact hs
  | next _ ih => exact ih ((kept_growsFrom.part _ _ _ fun n _ => growsFrom_walk n).extend.lt_length hs)
  | inside _ ih => exact ih (by simp [Body.openScope, Body.nextScope])

/-- What the walk of the node builds stays. -/
theorem Leads.extends_walkAll (h : Leads s ps b s' n b') :
    (n.walk s' b').Extends (walkAll s ps b) := by
  induction h with
  | here => exact (kept_growsFrom.walkAll _ _ _).extend
  | next _ ih => exact ih
  | inside _ ih => exact ih.trans (kept_growsFrom.walkAll _ _ _).extend

theorem Leads.mem_nodesOfAll (h : Leads s ps b s' n b') : n ∈ nodesOfAll ps := by
  induction h with
  | here => exact List.mem_cons_self
  | next _ ih => exact List.mem_append_right _ ih
  | inside _ ih => exact List.mem_append_left _ ih

mutual

theorem exists_leads_cons (p : Part) (ps : List Part) (s : ScopeId) (b : Body) (hn : n ∈ p.nodes) :
    ∃ s' b', Leads s (p :: ps) b s' n b' := by
  cases p with
  | node m =>
    obtain rfl := List.mem_singleton.mp hn
    exact ⟨s, b, .here⟩
  | call line c => exact absurd hn List.not_mem_nil
  | declare v => exact absurd hn List.not_mem_nil
  | scope kind params inside =>
    obtain ⟨s', b', h⟩ := exists_leads inside b.nextScope (b.openScope s kind params) hn
    exact ⟨s', b', .inside h⟩

/-- All nodes that are walked are led to. -/
theorem exists_leads (ps : List Part) (s : ScopeId) (b : Body) (hn : n ∈ nodesOfAll ps) :
    ∃ s' b', Leads s ps b s' n b' := by
  cases ps with
  | nil => exact absurd hn List.not_mem_nil
  | cons p ps =>
    rcases List.mem_append.mp hn with hn | hn
    · exact exists_leads_cons p ps s b hn
    · obtain ⟨s', b', h⟩ := exists_leads ps s (p.walk s b) hn
      exact ⟨s', b', .next h⟩

end

end Part

namespace Comes

variable {statements : List Stmt} {s : ScopeId} {n : Node} {b : Body}

theorem lt_length (h : Comes statements s n b) : s < b.scopes.length := by
  induction h with
  | statement h => exact h.lt_length (by decide)
  | child _ h ih => exact h.lt_length ih

/-- **What is built at a node is part of the finished body.** -/
theorem extends_lowerBody (h : Comes statements s n b) :
    (n.walk s b).Extends (lowerBody statements) := by
  induction h with
  | statement h =>
    rw [lowerBody, walkStmts_eq]
    exact h.extends_walkAll
  | @child _ _ n _ _ _ _ h ih =>
    rw [n.walk_eq] at ih
    exact h.extends_walkAll.trans ih

end Comes

theorem Comes.exists_of_mem_preorder {statements : List Stmt} {s : ScopeId} {r n : Node} {b : Body}
    (hr : Comes statements s r b) (hn : n ∈ r.preorder) : ∃ s b, Comes statements s n b := by
  induction r using Node.induction generalizing s b with
  | step r ih =>
    obtain rfl | ⟨m, hm, hn⟩ := Node.mem_preorder.mp hn
    · exact ⟨s, b, hr⟩
    · obtain ⟨s', b', h⟩ := Part.exists_leads r.parts s b (r.nodesOfAll_parts ▸ hm)
      exact ih m hm (hr.child h) hn

/-- **The walk comes to all nodes of the text and to no others.** -/
theorem exists_comes_iff {statements : List Stmt} {n : Node} :
    (∃ s b, Comes statements s n b) ↔ n ∈ statements.flatMap fun s => (Node.stmt s).preorder := by
  constructor
  · rintro ⟨s, b, h⟩
    induction h with
    | statement h =>
      have hn := h.mem_nodesOfAll
      rw [Part.nodesOfAll_enter] at hn
      obtain ⟨t, ht, rfl⟩ := List.mem_map.mp hn
      exact List.mem_flatMap.mpr ⟨t, ht, Node.mem_preorder.mpr (.inl rfl)⟩
    | child _ h ih =>
      have hm := h.mem_nodesOfAll
      rw [Node.nodesOfAll_parts] at hm
      obtain ⟨t, ht, hn⟩ := List.mem_flatMap.mp ih
      exact List.mem_flatMap.mpr ⟨t, ht, Node.mem_preorder_of_mem_children hn hm⟩
  · intro hn
    obtain ⟨t, ht, hn⟩ := List.mem_flatMap.mp hn
    obtain ⟨s, b, h⟩ : ∃ s b, Part.Leads 0 (Part.enter (statements.map .stmt)) Body.empty s (.stmt t) b :=
      Part.exists_leads _ 0 Body.empty (by simpa using ht)
    exact Comes.exists_of_mem_preorder (.statement h) hn

end Syntax

end JavaCallGraph

import JavaCallGraph.Proofs.Lowering.Nodes
import Mathlib.Data.List.Perm.Basic

/-!
# The scopes of a body are a tree

A body keeps its scopes in one list, in which each scope has the number of the scope around it.
The walk over the statements pushes scopes, variables and calls onto that list from all depths of
the text, and nothing checks the numbers afterwards.  Here the text is first turned into a tree that
has no numbers, and the list is seen to be that tree, written down in pre-order.

* `Body.WalksOut` — the walk outwards from a scope, which trusts the numbers; `Body.chain`, which
  checks them, lists just this walk (`Body.IsScopeTree.chain_eq`);
* `Body.IsScopeTree` — scope `0` is around all others, and every other scope comes after the one
  around it; so every walk outwards ends there, through smaller and smaller numbers;
* `Item`, `Syntax.items` — what the scopes of a text hold, one inside the other;
* `Body.ofItems` — the tree written down; `Syntax.lowerBody_eq_ofItems`: it is the lowered body;
* `Syntax.lexicalBody_lowerBody` — the main statement, `Syntax.LexicalBody`.

Which part of the text a scope reaches over is fixed by `Node.parts`.  It is the whole statement for
`for` and for `try` with resources, its `catch` and `finally` clauses included; the variable of a
type test has no scope of its own and goes to the one that the test stands in.
-/

set_option autoImplicit false

namespace JavaCallGraph

/-! ## The walk outwards -/

namespace Body

variable {b : Body}

/-- **The walk outwards**, from a scope to the one around it and so on: the scopes that it comes
through.  It trusts the links. -/
inductive WalksOut (b : Body) : Option ScopeId → List ScopeId → Prop
  | done : WalksOut b none []
  | lost {s : ScopeId} (h : b.scopes[s]? = none) : WalksOut b (some s) []
  | step {s : ScopeId} {l : LexicalScope} {ids : List ScopeId} (h : b.scopes[s]? = some l)
    (rest : WalksOut b l.parent ids) : WalksOut b (some s) (s :: ids)

/-- There is one walk from a scope at most. -/
theorem WalksOut.unique {s : Option ScopeId} {ids ids' : List ScopeId} (h : b.WalksOut s ids)
    (h' : b.WalksOut s ids') : ids = ids' := by
  induction h generalizing ids' with
  | done =>
    cases h'
    rfl
  | lost hs =>
    cases h' with
    | lost => rfl
    | step hs' => simp [hs] at hs'
  | step hs _ ih =>
    cases h' with
    | lost hs' => simp [hs] at hs'
    | step hs' rest' =>
      obtain rfl := Option.some.inj (hs.symm.trans hs')
      rw [ih rest']

/-- **Scope `0` is around all others**, and every other scope comes after the one around it. -/
structure IsScopeTree (b : Body) : Prop where
  root : ∃ l, b.scopes[0]? = some l ∧ l.kind = .method ∧ l.parent = none
  parent : ∀ (s : Nat) l, b.scopes[s]? = some l → s ≠ 0 → ∃ p : Nat, p < s ∧ l.parent = some p

namespace IsScopeTree

theorem parent_lt (h : b.IsScopeTree) {s p : ScopeId} {l : LexicalScope}
    (hl : b.scopes[s]? = some l) (hp : l.parent = some p) : p < s := by
  by_cases hs : s = 0
  · obtain ⟨r, hr, -, hnone⟩ := h.root
    subst hs
    rw [hl] at hr
    obtain rfl := Option.some.inj hr
    simp [hp] at hnone
  · obtain ⟨q, hq, hparent⟩ := h.parent s l hl hs
    obtain rfl := Option.some.inj (hp.symm.trans hparent)
    exact hq

/-- **Every walk outwards ends.** -/
theorem exists_walksOut (h : b.IsScopeTree) (s : ScopeId) : ∃ ids, b.WalksOut (some s) ids := by
  induction s using Nat.strongRecOn with
  | _ s ih =>
    cases hl : b.scopes[s]? with
    | none => exact ⟨[], .lost hl⟩
    | some l =>
      cases hp : l.parent with
      | none => exact ⟨[s], .step hl (hp ▸ .done)⟩
      | some p =>
        obtain ⟨ids, hids⟩ := ih p (h.parent_lt hl hp)
        exact ⟨s :: ids, .step hl (hp ▸ hids)⟩

/-- The numbers become smaller and smaller. -/
theorem pairwise_of_walksOut (h : b.IsScopeTree) {s : Option ScopeId} {ids : List ScopeId}
    (hw : b.WalksOut s ids) : ids.Pairwise (· > ·) ∧ ∀ i ∈ ids, ∃ t, s = some t ∧ i ≤ t := by
  induction hw with
  | done => simp
  | lost => simp
  | @step s l ids hl _ ih =>
    have hlt : ∀ i ∈ ids, i < s := by
      intro i hi
      obtain ⟨p, hp, hle⟩ := ih.2 i hi
      exact Nat.lt_of_le_of_lt hle (h.parent_lt hl hp)
    refine ⟨List.pairwise_cons.mpr ⟨hlt, ih.1⟩, ?_⟩
    intro i hi
    rcases List.mem_cons.mp hi with rfl | hi
    · exact ⟨i, rfl, Nat.le_refl _⟩
    · exact ⟨s, rfl, Nat.le_of_lt (hlt i hi)⟩

/-- The last scope is that of the method. -/
theorem getLast?_of_walksOut (h : b.IsScopeTree) {s : Option ScopeId} {ids : List ScopeId}
    (hw : b.WalksOut s ids) (hne : ids ≠ []) : ids.getLast? = some 0 := by
  induction hw with
  | done => simp at hne
  | lost => simp at hne
  | @step s l ids hl rest ih =>
    by_cases hids : ids = []
    · suffices hs : s = 0 by simp [hids, hs]
      by_contra hs
      obtain ⟨p, hlt, hp⟩ := h.parent s l hl hs
      rw [hp, hids] at rest
      cases rest with
      | lost hnone =>
        have hs := (List.getElem?_eq_some_iff.mp hl).1
        have hp := List.getElem?_eq_none_iff.mp hnone
        exact absurd (Nat.lt_trans hlt hs) (Nat.not_lt.mpr hp)
    · rw [List.getLast?_cons_of_ne_nil hids]
      exact ih hids

/-- **The scopes around a place are those that the walk comes through.** -/
theorem chain_eq (h : b.IsScopeTree) {s : Option ScopeId} {ids : List ScopeId}
    (hw : b.WalksOut s ids) :
    (s.elim [] b.chain).map some = ids.map fun id => b.scopes[id]? := by
  induction hw with
  | done => rfl
  | @lost s hs =>
    rw [Option.elim, chain, hs]
    rfl
  | @step s l ids hl _ ih =>
    rw [Option.elim, chain, hl, List.map_cons, List.map_cons, ← ih, hl]
    cases hp : l.parent with
    | none => rfl
    | some p => simp [h.parent_lt hl hp]

end IsScopeTree

end Body

/-! ## What stands in a scope -/

/-- What a body holds: a call, a variable, or a scope and what stands in that. -/
inductive Item where
  | call (line : Nat) (call : MethodCall)
  | declared (v : LocalVar)
  | scope (kind : ScopeKind) (params : List LambdaParam) (inside : List Item)

/-- A call and the scopes around the one that it stands in, innermost first. -/
structure EnclosedCall where
  site : CallSite
  outer : List ScopeId

/-- All scopes around a call, innermost first. -/
def EnclosedCall.enclosing (e : EnclosedCall) : List ScopeId := e.site.scope :: e.outer

namespace Item

/-- The variables that are declared directly among the items. -/
def directLocals : List Item → List LocalVar
  | [] => []
  | declared v :: is => v :: directLocals is
  | call _ _ :: is | scope _ _ _ :: is => directLocals is

mutual

/-- All variables that are declared in an item, at any depth. -/
def declarations : Item → List LocalVar
  | call _ _ => []
  | declared v => [v]
  | scope _ _ inside => declarationsOfAll inside

/-- All variables that are declared in several items. -/
def declarationsOfAll : List Item → List LocalVar
  | [] => []
  | i :: is => i.declarations ++ declarationsOfAll is

end

mutual

/-- The number of scopes in an item. -/
def count : Item → Nat
  | call _ _ | declared _ => 0
  | scope _ _ inside => countAll inside + 1

/-- The number of scopes in several items. -/
def countAll : List Item → Nat
  | [] => 0
  | i :: is => i.count + countAll is

end

mutual

/-- **The scopes in an item that stands in the scope `around`**, in pre-order and numbered from
`next` on. -/
def scopes (around next : ScopeId) : Item → List LexicalScope
  | call _ _ | declared _ => []
  | scope kind params inside =>
    ⟨some around, kind, directLocals inside, params⟩ :: scopesOfAll next (next + 1) inside

/-- The scopes in several items. -/
def scopesOfAll (around next : ScopeId) : List Item → List LexicalScope
  | [] => []
  | i :: is => i.scopes around next ++ scopesOfAll around (next + i.count) is

end

mutual

/-- **The calls in an item that stands in the scope `s`**, which lies in the scopes `outer`; further
scopes are numbered from `next` on. -/
def calls (s : ScopeId) (outer : List ScopeId) (next : ScopeId) : Item → List EnclosedCall
  | call line c => [⟨⟨c, s, line⟩, outer⟩]
  | declared _ => []
  | scope _ _ inside => callsOfAll next (s :: outer) (next + 1) inside

/-- The calls in several items. -/
def callsOfAll (s : ScopeId) (outer : List ScopeId) (next : ScopeId) : List Item → List EnclosedCall
  | [] => []
  | i :: is => i.calls s outer next ++ callsOfAll s outer (next + i.count) is

end

@[simp] theorem directLocals_append (is js : List Item) :
    directLocals (is ++ js) = directLocals is ++ directLocals js := by
  induction is with
  | nil => rfl
  | cons i is ih => cases i <;> simp [directLocals, ih]

@[simp] theorem declarationsOfAll_append (is js : List Item) :
    declarationsOfAll (is ++ js) = declarationsOfAll is ++ declarationsOfAll js := by
  induction is with
  | nil => rfl
  | cons i is ih => simp [declarationsOfAll, ih]

theorem declarationsOfAll_flatMap {α : Type} (f : α → List Item) (as : List α) :
    declarationsOfAll (as.flatMap f) = as.flatMap fun a => declarationsOfAll (f a) := by
  induction as with
  | nil => rfl
  | cons a as ih => simp [ih]

theorem declarationsOfAll_map {α : Type} (f : α → LocalVar) (as : List α) :
    declarationsOfAll (as.map fun a => declared (f a)) = as.map f := by
  induction as with
  | nil => rfl
  | cons a as ih => simp [declarationsOfAll, declarations, ih]

@[simp] theorem countAll_append (is js : List Item) :
    countAll (is ++ js) = countAll is + countAll js := by
  induction is with
  | nil => simp [countAll]
  | cons i is ih => simp [countAll, ih, Nat.add_assoc]

theorem scopesOfAll_append (around next : ScopeId) (is js : List Item) :
    scopesOfAll around next (is ++ js) =
      scopesOfAll around next is ++ scopesOfAll around (next + countAll is) js := by
  induction is generalizing next with
  | nil => simp [scopesOfAll, countAll]
  | cons i is ih => simp [scopesOfAll, countAll, ih, Nat.add_assoc]

theorem callsOfAll_append (s : ScopeId) (outer : List ScopeId) (next : ScopeId)
    (is js : List Item) :
    callsOfAll s outer next (is ++ js) =
      callsOfAll s outer next is ++ callsOfAll s outer (next + countAll is) js := by
  induction is generalizing next with
  | nil => simp [callsOfAll, countAll]
  | cons i is ih => simp [callsOfAll, countAll, ih, Nat.add_assoc]

mutual

theorem length_scopes (around next : ScopeId) (i : Item) :
    (i.scopes around next).length = i.count := by
  cases i with
  | scope kind params inside => simp [scopes, count, length_scopesOfAll next (next + 1) inside]
  | _ => rfl

theorem length_scopesOfAll (around next : ScopeId) (is : List Item) :
    (scopesOfAll around next is).length = countAll is := by
  cases is with
  | nil => rfl
  | cons i is =>
    simp [scopesOfAll, countAll, length_scopes around next i, length_scopesOfAll around _ is]

end

mutual

/-- **A scope is numbered after the one around it.** -/
theorem exists_parent_scopes {around next : Nat} (i : Item) (h : around < next) {k : Nat}
    {l : LexicalScope} (hl : (i.scopes around next)[k]? = some l) :
    ∃ p : Nat, p < next + k ∧ l.parent = some p := by
  cases i with
  | scope kind params inside =>
    cases k with
    | zero =>
      obtain rfl : _ = l := by simpa [scopes] using hl
      exact ⟨around, h, rfl⟩
    | succ k =>
      rw [scopes, List.getElem?_cons_succ] at hl
      obtain ⟨p, hp, hparent⟩ := exists_parent_scopesOfAll inside (Nat.lt_succ_self next) hl
      exact ⟨p, by omega, hparent⟩
  | _ => simp [scopes] at hl

theorem exists_parent_scopesOfAll {around next : Nat} (is : List Item) (h : around < next)
    {k : Nat} {l : LexicalScope} (hl : (scopesOfAll around next is)[k]? = some l) :
    ∃ p : Nat, p < next + k ∧ l.parent = some p := by
  cases is with
  | nil => simp [scopesOfAll] at hl
  | cons i is =>
    rw [scopesOfAll] at hl
    have hlen := length_scopes around next i
    by_cases hk : k < i.count
    · rw [List.getElem?_append_left (by omega)] at hl
      exact exists_parent_scopes i h hl
    · rw [List.getElem?_append_right (by omega), hlen] at hl
      obtain ⟨p, hp, hparent⟩ := exists_parent_scopesOfAll is (by omega) hl
      exact ⟨p, by omega, hparent⟩

end

mutual

/-- **The walk outwards from a call comes through the scopes around it**, in a body that has the
scopes of the item under their numbers. -/
theorem walksOut_calls {b : Body} {s next : ScopeId} {outer : List ScopeId} (i : Item)
    (hscopes : ∀ k l, (i.scopes s next)[k]? = some l → b.scopes[next + k]? = some l)
    (hs : b.WalksOut (some s) (s :: outer)) {e : EnclosedCall} (he : e ∈ i.calls s outer next) :
    b.WalksOut (some e.site.scope) e.enclosing := by
  cases i with
  | call line c =>
    obtain rfl : e = ⟨⟨c, s, line⟩, outer⟩ := by simpa [calls] using he
    exact hs
  | declared v => simp [calls] at he
  | scope kind params inside =>
    refine walksOut_callsOfAll inside (fun k l hl => ?_) (.step (hscopes 0 _ rfl) hs) he
    -- The new scope itself is the first of them, so those inside come one later.
    rw [Nat.add_assoc, Nat.add_comm 1 k]
    exact hscopes (k + 1) l (by simpa [scopes] using hl)

theorem walksOut_callsOfAll {b : Body} {s next : ScopeId} {outer : List ScopeId} (is : List Item)
    (hscopes : ∀ k l, (scopesOfAll s next is)[k]? = some l → b.scopes[next + k]? = some l)
    (hs : b.WalksOut (some s) (s :: outer)) {e : EnclosedCall}
    (he : e ∈ callsOfAll s outer next is) : b.WalksOut (some e.site.scope) e.enclosing := by
  cases is with
  | nil => simp [callsOfAll] at he
  | cons i is =>
    have hlen := length_scopes s next i
    rcases List.mem_append.mp he with he | he
    · refine walksOut_calls i (fun k l hl => hscopes k l ?_) hs he
      have hk := (List.getElem?_eq_some_iff.mp hl).1
      rw [scopesOfAll, List.getElem?_append_left hk, hl]
    · refine walksOut_callsOfAll is (fun k l hl => ?_) hs he
      rw [Nat.add_assoc]
      refine hscopes (i.count + k) l ?_
      rw [scopesOfAll, List.getElem?_append_right (by omega), hlen, Nat.add_sub_cancel_left, hl]

end

mutual

/-- **Every variable is in a scope**, and once. -/
theorem perm_declarations (around next : ScopeId) (i : Item) :
    (directLocals [i] ++ (i.scopes around next).flatMap (·.locals)).Perm i.declarations := by
  cases i with
  | call line c => simp [directLocals, scopes, declarations]
  | declared v => simp [directLocals, scopes, declarations]
  | scope kind params inside => exact perm_declarationsOfAll next (next + 1) inside

theorem perm_declarationsOfAll (around next : ScopeId) (is : List Item) :
    (directLocals is ++ (scopesOfAll around next is).flatMap (·.locals)).Perm
      (declarationsOfAll is) := by
  cases is with
  | nil => exact .refl _
  | cons i is =>
    have hfirst := perm_declarations around next i
    have hrest := perm_declarationsOfAll around (next + i.count) is
    have hlocals : directLocals (i :: is) = directLocals [i] ++ directLocals is :=
      directLocals_append [i] is
    rw [hlocals, scopesOfAll, declarationsOfAll, List.flatMap_append]
    refine List.Perm.trans ?_ (hfirst.append hrest)
    -- The variables of the first item and of the rest stay; those of the scopes change places.
    simp only [List.append_assoc]
    refine (List.Perm.refl _).append ?_
    simp only [← List.append_assoc]
    exact List.perm_append_comm.append_right _

end

end Item

/-- The parameter of a method as a variable of its body. -/
def Param.asVariable (p : Param) : LocalVar :=
  ⟨p.name, if p.varargs then .array p.type else p.type, none, none⟩

/-! ## The tree written down -/

/-- The scope with further variables declared in it. -/
def LexicalScope.declaring (l : LexicalScope) (vs : List LocalVar) : LexicalScope :=
  { l with locals := l.locals ++ vs }

theorem LexicalScope.declaring_nil (l : LexicalScope) : l.declaring [] = l := by
  simp [declaring]

@[simp] theorem modify_declaring_nil (ls : List LexicalScope) (s : ScopeId) :
    ls.modify s (·.declaring []) = ls := by
  rw [funext LexicalScope.declaring_nil]
  exact ls.modify_id s

@[simp] theorem LexicalScope.declaring_declaring (l : LexicalScope) (vs ws : List LocalVar) :
    (l.declaring vs).declaring ws = l.declaring (vs ++ ws) := by
  simp [declaring]

/-- What is done in a list is done in its beginning. -/
theorem modify_append_of_lt {α : Type} {f : α → α} {l : List α} {i : Nat} (l' : List α)
    (h : i < l.length) : (l ++ l').modify i f = l.modify i f ++ l' := by
  induction l generalizing i with
  | nil => simp at h
  | cons a l ih =>
    cases i with
    | zero => rfl
    | succ i => simp [ih (by simpa using h)]

theorem modify_concat {α : Type} {f : α → α} (l : List α) (a : α) :
    (l ++ [a]).modify l.length f = l ++ [f a] := by
  induction l with
  | nil => rfl
  | cons b l ih => simp [ih]

namespace Body

open Item (directLocals directLocals_append countAll scopesOfAll callsOfAll)

/-- The body with items added to the scope `s`, which lies in the scopes `outer`. -/
def put (b : Body) (s : ScopeId) (outer : List ScopeId) (is : List Item) : Body where
  scopes := b.scopes.modify s (·.declaring (directLocals is)) ++ scopesOfAll s b.nextScope is
  calls := b.calls ++ (callsOfAll s outer b.nextScope is).map (·.site)

/-- **The body that holds the items.** -/
def ofItems (is : List Item) : Body where
  scopes := ⟨none, .method, directLocals is, []⟩ :: scopesOfAll 0 1 is
  calls := (callsOfAll 0 [] 1 is).map (·.site)

theorem put_empty (is : List Item) : empty.put 0 [] is = ofItems is := rfl

theorem put_nil (b : Body) (s : ScopeId) (outer : List ScopeId) : b.put s outer [] = b := by
  simp [put, directLocals, scopesOfAll, callsOfAll]

theorem nextScope_put (b : Body) (s : ScopeId) (outer : List ScopeId) (is : List Item) :
    (b.put s outer is).nextScope = b.nextScope + countAll is := by
  simp [put, nextScope, Item.length_scopesOfAll]

theorem put_append {b : Body} {s : Nat} (hs : s < b.nextScope) (outer : List ScopeId)
    (is js : List Item) : b.put s outer (is ++ js) = (b.put s outer is).put s outer js := by
  have hlt : s < (b.scopes.modify s (·.declaring (directLocals is))).length := by
    simpa [nextScope] using hs
  have hscopes :
      (b.put s outer (is ++ js)).scopes = ((b.put s outer is).put s outer js).scopes := by
    rw [put, put, nextScope_put, directLocals_append, Item.scopesOfAll_append]
    simp only [put]
    rw [modify_append_of_lt _ hlt, List.modify_modify_eq, List.append_assoc]
    simp [Function.comp_def]
  have hcalls : (b.put s outer (is ++ js)).calls = ((b.put s outer is).put s outer js).calls := by
    rw [put, put, nextScope_put, Item.callsOfAll_append]
    simp [put]
  rw [Body.mk.injEq]
  exact ⟨hscopes, hcalls⟩

theorem put_call (b : Body) (s : ScopeId) (outer : List ScopeId) (line : Nat) (c : MethodCall) :
    b.put s outer [.call line c] = b.addCall ⟨c, s, line⟩ := by
  simp [put, directLocals, scopesOfAll, callsOfAll, Item.scopes, Item.calls, addCall]

theorem put_declared (b : Body) (s : ScopeId) (outer : List ScopeId) (v : LocalVar) :
    b.put s outer [.declared v] = b.addLocal s v := by
  simp [put, directLocals, scopesOfAll, callsOfAll, Item.scopes, Item.calls, addLocal,
    LexicalScope.declaring]

/-- What stands in a new scope is put into that. -/
theorem put_scope (b : Body) (s : ScopeId) (outer : List ScopeId) (kind : ScopeKind)
    (params : List LambdaParam) (inside : List Item) :
    b.put s outer [.scope kind params inside] =
      (b.openScope s kind params).put b.nextScope (s :: outer) inside := by
  have hnext : (b.openScope s kind params).nextScope = b.nextScope + 1 := by
    simp [openScope, nextScope]
  have hnew :
      (b.openScope s kind params).scopes.modify b.nextScope (·.declaring (directLocals inside)) =
        b.scopes ++ [⟨some s, kind, directLocals inside, params⟩] := by
    rw [openScope, nextScope, modify_concat]
    simp [LexicalScope.declaring]
  rw [put, put, hnext, hnew]
  simp [openScope, directLocals, scopesOfAll, callsOfAll, Item.scopes, Item.calls]

theorem isScopeTree_ofItems (is : List Item) : (ofItems is).IsScopeTree where
  root := ⟨_, rfl, rfl, rfl⟩
  parent s l hl hs := by
    obtain ⟨k, rfl⟩ := Nat.exists_eq_succ_of_ne_zero hs
    rw [ofItems, List.getElem?_cons_succ] at hl
    obtain ⟨p, hp, hparent⟩ := Item.exists_parent_scopesOfAll is Nat.zero_lt_one hl
    exact ⟨p, by omega, hparent⟩

end Body

namespace Syntax

/-! ## What the scopes of a text hold -/

namespace Part

mutual

/-- What a part leaves behind, given that of the nodes that it enters. -/
def items : (p : Part) → (∀ n ∈ p.nodes, List Item) → List Item
  | node n, f => f n (List.mem_singleton_self n)
  | call line c, _ => [.call line c]
  | declare v, _ => [.declared v]
  | scope kind params inside, f => [.scope kind params (itemsOfAll inside fun n hn => f n hn)]

/-- What several parts leave behind. -/
def itemsOfAll : (ps : List Part) → (∀ n ∈ nodesOfAll ps, List Item) → List Item
  | [], _ => []
  | p :: ps, f =>
    p.items (fun n hn => f n (List.mem_append_left _ hn)) ++
      itemsOfAll ps fun n hn => f n (List.mem_append_right _ hn)

end

@[simp] theorem itemsOfAll_append (f : Node → List Item) (ps qs : List Part) :
    (itemsOfAll (ps ++ qs) fun n _ => f n) =
      (itemsOfAll ps fun n _ => f n) ++ itemsOfAll qs fun n _ => f n := by
  induction ps with
  | nil => rfl
  | cons p ps ih => simp [itemsOfAll, ih]

@[simp] theorem itemsOfAll_enter (f : Node → List Item) (ns : List Node) :
    (itemsOfAll (enter ns) fun n _ => f n) = ns.flatMap f := by
  induction ns with
  | nil => rfl
  | cons n ns ih => simp [itemsOfAll, items, ih]

end Part

/-- **What a node leaves behind in the scope that it stands in.** -/
def Node.items (n : Node) : List Item := Part.itemsOfAll n.parts fun m _ => m.items
termination_by n
decreasing_by
  exact Node.sizeOf_lt_of_mem_children (n.nodesOfAll_parts ▸ ‹_›)

/-- What the statements of a method leave behind in the scope of the method. -/
def items (statements : List Stmt) : List Item := statements.flatMap fun s => (Node.stmt s).items

mutual

theorem Part.walk_eq_put (p : Part) {s : Nat} (outer : List ScopeId) {b : Body}
    (hs : s < b.nextScope)
    (hnodes : ∀ n ∈ p.nodes, ∀ s outer b, s < b.nextScope → n.walk s b = b.put s outer n.items) :
    p.walk s b = b.put s outer (p.items fun n _ => n.items) := by
  cases p with
  | node n => exact hnodes n (List.mem_singleton_self n) s outer b hs
  | call line c => exact (b.put_call s outer line c).symm
  | declare v => exact (b.put_declared s outer v).symm
  | scope kind params inside =>
    rw [Part.items, Body.put_scope]
    refine Part.walkAll_eq_put inside (s :: outer) ?_ hnodes
    simp [Body.nextScope, Body.openScope]

theorem Part.walkAll_eq_put (ps : List Part) {s : Nat} (outer : List ScopeId) {b : Body}
    (hs : s < b.nextScope)
    (hnodes : ∀ n ∈ Part.nodesOfAll ps, ∀ s outer b, s < b.nextScope →
      n.walk s b = b.put s outer n.items) :
    Part.walkAll s ps b = b.put s outer (Part.itemsOfAll ps fun n _ => n.items) := by
  cases ps with
  | nil => exact (b.put_nil s outer).symm
  | cons p ps =>
    have hfirst := Part.walk_eq_put p outer hs fun n hn => hnodes n (List.mem_append_left _ hn)
    have hs' : s < (p.walk s b).nextScope := by
      rw [hfirst, Body.nextScope_put]
      exact Nat.lt_add_right _ hs
    have hrest := Part.walkAll_eq_put ps outer hs' fun n hn =>
      hnodes n (List.mem_append_right _ hn)
    rw [Part.walkAll, hrest, hfirst, Part.itemsOfAll, Body.put_append hs]

end

/-- **A walk leaves behind the items of its node.** -/
theorem Node.walk_eq_put (n : Node) {s : ScopeId} (outer : List ScopeId) {b : Body}
    (hs : s < b.nextScope) : n.walk s b = b.put s outer n.items := by
  induction n using Node.induction generalizing s outer b with
  | step n ih =>
    rw [Node.walk_eq, Node.items]
    refine Part.walkAll_eq_put n.parts outer hs fun m hm s outer b hs => ih m ?_ outer hs
    rwa [← n.nodesOfAll_parts]

/-- **The lowered body is the tree of the text, written down.** -/
theorem lowerBody_eq_ofItems (statements : List Stmt) :
    lowerBody statements = Body.ofItems (items statements) := by
  rw [lowerBody, walkStmts_eq, ← Body.put_empty, items, ← List.flatMap_map]
  rw [← Part.itemsOfAll_enter]
  exact Part.walkAll_eq_put _ [] (by decide) fun n _ s outer b hs => n.walk_eq_put outer hs

/-! ## What a text declares -/

/-- The variables that a node declares. -/
def Node.declares : Node → List LocalVar
  | expr (.instanceOf _ type (some name)) => [⟨name, type, none, none⟩]
  | stmt (.forEach type name iterable _) => [⟨name, type, none, some iterable.lower⟩]
  | declarator (.mk name type init) => [⟨name, type, lowerOption init, none⟩]
  | handler (.catchClause type name _) => [⟨name, type, none, none⟩]
  | resource (.declared type name value) => [⟨name, type, some value.lower, none⟩]
  | member (.method header _) | member (.abstractMethod header _) =>
    header.params.map Param.asVariable
  | _ => []

@[simp] theorem Part.itemsOfAll_declareParams (f : Node → List Item) (ps : List Param) :
    (itemsOfAll (declareParams ps) fun n _ => f n) = ps.map fun p => .declared p.asVariable := by
  induction ps with
  | nil => rfl
  | cons p ps ih => exact congrArg (Item.declared p.asVariable :: ·) ih

/-- **A node leaves behind its own variables and those of what stands in it.** -/
theorem Node.perm_declarations_parts (n : Node) (f : Node → List Item) :
    (Item.declarationsOfAll (Part.itemsOfAll n.parts fun m _ => f m)).Perm
      (n.declares ++ n.children.flatMap fun m => Item.declarationsOfAll (f m)) := by
  fun_cases Node.parts n <;>
    simp [Node.children, Node.declares, Part.block, Part.itemsOfAll, Part.items,
      Item.declarationsOfAll, Item.declarations, Item.declarationsOfAll_flatMap,
      Item.declarationsOfAll_map]

/-- **What is left behind by a node are the variables declared inside it**, each once. -/
theorem Node.perm_declarations (n : Node) :
    (Item.declarationsOfAll n.items).Perm (n.preorder.flatMap Node.declares) := by
  induction n using Node.induction with
  | step n ih =>
    rw [Node.items, Node.preorder_eq, List.flatMap_cons, List.flatMap_assoc]
    refine (n.perm_declarations_parts Node.items).trans ?_
    exact (List.Perm.refl _).append (List.Perm.flatMap_left _ ih)

/-! ## The main statement -/

/-- The calls of the statements with the scopes around each of them. -/
def enclosedCalls (statements : List Stmt) : List EnclosedCall :=
  Item.callsOfAll 0 [] 1 (items statements)

/-- **A body that is the tree of the scopes of its text.** -/
structure LexicalBody (statements : List Stmt) (b : Body) : Prop where
  /-- Scope `0` is that of the method and has none around it; every other scope has one around it,
  with a smaller number. -/
  tree : b.IsScopeTree
  /-- The scopes are those of the text, numbered in pre-order, each with the variables declared
  directly in it. -/
  scopes : b.scopes = ⟨none, .method, Item.directLocals (items statements), []⟩ ::
    Item.scopesOfAll 0 1 (items statements)
  /-- All variables that the text declares are in a scope, each once. -/
  stored : b.locals.Perm
    ((statements.flatMap fun s => (Node.stmt s).preorder).flatMap Node.declares)
  /-- The calls are those of the text. -/
  calls : b.calls = (enclosedCalls statements).map (·.site)
  /-- Their scopes exist. -/
  site_lt : ∀ site ∈ b.calls, site.scope < b.scopes.length
  /-- The walk outwards from a call ends, and comes through the scopes around the call and no
  others, innermost first. -/
  walk : ∀ e ∈ enclosedCalls statements, ∀ ids,
    b.WalksOut (some e.site.scope) ids ↔ ids = e.enclosing
  /-- Their numbers become smaller and smaller. -/
  decreasing : ∀ e ∈ enclosedCalls statements, e.enclosing.Pairwise (· > ·)
  /-- The last one is the scope of the method. -/
  last : ∀ e ∈ enclosedCalls statements, e.enclosing.getLast? = some 0
  /-- They are what a name is looked up in. -/
  chain : ∀ e ∈ enclosedCalls statements,
    (b.chain e.site.scope).map some = e.enclosing.map fun id => b.scopes[id]?

/-- **A lowered body is the tree of the scopes of its text**, whatever the text is. -/
theorem lexicalBody_lowerBody (statements : List Stmt) :
    LexicalBody statements (lowerBody statements) := by
  have hbody := lowerBody_eq_ofItems statements
  have htree : (lowerBody statements).IsScopeTree := by
    rw [hbody]
    exact Body.isScopeTree_ofItems _
  have hcalls : (lowerBody statements).calls = (enclosedCalls statements).map (·.site) := by
    rw [hbody]
    rfl
  have hwalk : ∀ e ∈ enclosedCalls statements,
      (lowerBody statements).WalksOut (some e.site.scope) e.enclosing := by
    intro e he
    rw [hbody]
    refine Item.walksOut_callsOfAll _ (fun k l hl => ?_) (.step rfl .done) he
    rw [Nat.add_comm]
    exact hl
  exact {
    tree := htree
    scopes := by
      rw [hbody]
      rfl
    stored := by
      have hitems : (Item.declarationsOfAll (items statements)).Perm
          ((statements.flatMap fun s => (Node.stmt s).preorder).flatMap Node.declares) := by
        rw [items, Item.declarationsOfAll_flatMap, List.flatMap_assoc]
        exact List.Perm.flatMap_left _ fun s _ => (Node.stmt s).perm_declarations
      rw [hbody]
      exact (Item.perm_declarationsOfAll 0 1 _).trans hitems
    calls := hcalls
    site_lt := by
      intro site hsite
      rw [hcalls] at hsite
      obtain ⟨e, he, rfl⟩ := List.mem_map.mp hsite
      cases hwalk e he with
      | step hl _ => exact (List.getElem?_eq_some_iff.mp hl).1
    walk := by
      intro e he ids
      constructor
      · exact fun hids => hids.unique (hwalk e he)
      · rintro rfl
        exact hwalk e he
    decreasing := fun e he => (htree.pairwise_of_walksOut (hwalk e he)).1
    last := fun e he => htree.getLast?_of_walksOut (hwalk e he) (List.cons_ne_nil _ _)
    chain := fun e he => htree.chain_eq (hwalk e he) }

end Syntax

end JavaCallGraph

import JavaCallGraph.Proofs.Typing.VarType
import JavaCallGraph.Proofs.Typing.CallResult
import Mathlib.Data.List.Chain
import Mathlib.Data.List.Perm.Subperm
import Mathlib.Logic.Function.Iterate
import Mathlib.Logic.Relation
import Mathlib.Order.WellFounded

/-!
# The recursion of inference

To type an expression, certain resolution and inference ask for the types of its parts, and for the
type of the value of a variable declared with `var`.  A part is smaller; a value is not, and it
stands anywhere in the body.  `Codebase.typeOf?` follows values only as often as there are
variables.

Here the recursion is written down as it is, with no such limit: what one step asks, and how it
makes an answer of the answers.

* `Question`, `ExprContext.subquestions` — what is asked, and what one step asks in turn;
* `Answers`, `Codebase.step` — a way to answer all questions, and one step of the recursion;
* `ExprContext.Nested` — values are inside each other at most `n` deep; where no chain of variables
  leads back to itself, that is at most the number of variables (`ExprContext.Acyclic.nested`);
* `Codebase.step_answers` — the functions of the library answer as the recursion does;
* `ExprContext.wellFounded_asks` — no chain of questions goes on for ever;
* `Codebase.exists_iterate_step` — hence each answer is there after finitely many steps.
-/

set_option autoImplicit false

namespace JavaCallGraph

/-! ## Chains of variables -/

mutual

/-- The simple names that stand anywhere in an expression. -/
def Expr.mentions : Expr → List String
  | .name n => [n]
  | .field receiver _ => receiver.mentions
  | .call receiver _ args => Expr.receiverMentions receiver ++ Expr.listMentions args
  | .new _ args => Expr.listMentions args
  | .index array => array.mentions
  | .binary _ l r => l.mentions ++ r.mentions
  | .unary _ operand => operand.mentions
  | .conditional positive negative => positive.mentions ++ negative.mentions
  | .cast _ operand => operand.mentions
  | .instanceOf operand => operand.mentions
  | .assign target value => target.mentions ++ value.mentions
  | _ => []

/-- The names in the receiver of a call. -/
def Expr.receiverMentions : Option Expr → List String
  | none => []
  | some e => e.mentions

/-- The names in several expressions. -/
def Expr.listMentions : List Expr → List String
  | [] => []
  | e :: es => e.mentions ++ Expr.listMentions es

end

mutual

/-- A type depends on names that the expression mentions. -/
theorem Expr.mem_mentions_of_dependencies (e : Expr) {n : String} (h : .name n ∈ e.dependencies) :
    n ∈ e.mentions := by
  cases e with
  | name m => simpa [dependencies, mentions] using h
  | field receiver m => exact mem_mentions_of_dependencies receiver h
  | call receiver m args =>
    rw [dependencies, List.mem_append] at h
    rw [mentions, List.mem_append]
    exact h.imp (mem_receiverMentions_of_dependencies receiver)
      (mem_listMentions_of_dependencies args)
  | index array => exact mem_mentions_of_dependencies array h
  | binary op l r =>
    rw [dependencies] at h
    split at h
    · exact absurd h List.not_mem_nil
    · rw [mentions, List.mem_append]
      exact (List.mem_append.mp h).imp (mem_mentions_of_dependencies l)
        (mem_mentions_of_dependencies r)
  | unary op operand =>
    by_cases hop : op = .not
    · subst hop
      simp [dependencies] at h
    · rw [dependencies_unary operand hop] at h
      exact mem_mentions_of_dependencies operand h
  | conditional positive negative =>
    rw [dependencies, List.mem_append] at h
    rw [mentions, List.mem_append]
    exact h.imp (mem_mentions_of_dependencies positive) (mem_mentions_of_dependencies negative)
  | assign target value =>
    rw [mentions, List.mem_append]
    exact .inl (mem_mentions_of_dependencies target h)
  | _ => simp [dependencies] at h

theorem Expr.mem_receiverMentions_of_dependencies (receiver : Option Expr) {n : String}
    (h : .name n ∈ receiverDependencies receiver) : n ∈ receiverMentions receiver := by
  cases receiver with
  | none => simp [receiverDependencies] at h
  | some e => exact mem_mentions_of_dependencies e h

theorem Expr.mem_listMentions_of_dependencies (es : List Expr) {n : String}
    (h : .name n ∈ listDependencies es) : n ∈ listMentions es := by
  cases es with
  | nil => simp [listDependencies] at h
  | cons e es =>
    rw [listMentions, List.mem_append]
    exact (List.mem_append.mp h).imp (mem_mentions_of_dependencies e)
      (mem_listMentions_of_dependencies es)

end

namespace ExprContext

/-- `n` is a variable declared with `var`, and `e` is what its type is read off: its initial value,
or what is iterated. -/
def ValueOf (ctx : ExprContext) (n : String) (e : Expr) : Prop := ∃ v, ctx.TypedBy n e v

/-- **One variable leads to another name**: its value mentions it. -/
def LeadsOn (ctx : ExprContext) (x y : String) : Prop := ∃ e, ctx.ValueOf x e ∧ y ∈ e.mentions

/-- **No chain of variables leads back to itself.** -/
def Acyclic (ctx : ExprContext) : Prop := ∀ x, ¬Relation.TransGen ctx.LeadsOn x x

variable {ctx : ExprContext}

/-- A variable that a name refers to is one of those in the body, and has that name. -/
theorem mem_locals_of_binding? {n : String} {v : LocalVar} (h : ctx.binding? n = some (.local v)) :
    ∃ b, ctx.decl.body = some b ∧ v ∈ b.locals ∧ v.name = n := by
  rcases Option.or_eq_some_iff.mp h with hb | ⟨-, hp⟩
  · obtain ⟨b, hbody, hfind⟩ := Option.bind_eq_some_iff.mp hb
    obtain ⟨s, hs, hin⟩ := List.exists_of_findSome?_eq_some hfind
    have hlocal : s.locals.find? (fun w => w.name == n) = some v := by
      rcases Option.or_eq_some_iff.mp hin with hlambda | ⟨-, hlocal⟩
      · obtain ⟨p, -, hp⟩ := Option.map_eq_some_iff.mp hlambda
        exact Binding.noConfusion hp
      · obtain ⟨w, hw, hwv⟩ := Option.map_eq_some_iff.mp hlocal
        exact Binding.local.inj hwv ▸ hw
    have hscope := Codebase.mem_scopes_of_mem_chain hs
    refine ⟨b, hbody, List.mem_flatMap.mpr ⟨s, hscope, List.mem_of_find?_eq_some hlocal⟩, ?_⟩
    simpa using List.find?_some hlocal
  · obtain ⟨p, -, hp⟩ := Option.map_eq_some_iff.mp hp
    exact Binding.noConfusion hp

/-- There is no such chain if the variables can be ranked: a value mentions names of lower rank. -/
theorem acyclic_of_rank (rank : String → Nat) (h : ∀ b, ctx.decl.body = some b → ∀ v ∈ b.locals,
    ∀ e, v.value? = some e → ∀ y ∈ e.mentions, rank y < rank v.name) : ctx.Acyclic := by
  have hstep : ∀ x y, ctx.LeadsOn x y → rank y < rank x := by
    rintro x y ⟨e, ⟨v, hv⟩, hy⟩
    obtain ⟨b, hbody, hmem, rfl⟩ := mem_locals_of_binding? hv.binding
    exact h b hbody v hmem e hv.value y hy
  have hpath : ∀ x y, Relation.TransGen ctx.LeadsOn x y → rank y < rank x := by
    intro x y hxy
    induction hxy with
    | single hlead => exact hstep _ _ hlead
    | tail _ hlead ih => exact Nat.lt_trans (hstep _ _ hlead) ih
  exact fun x hx => Nat.lt_irrefl _ (hpath x x hx)

/-- **Values are inside each other at most `n` deep**, beginning with the variables in an
expression. -/
def Nested (ctx : ExprContext) : Nat → Expr → Prop
  | 0, e => ∀ x ∈ e.mentions, ∀ i, ¬ctx.ValueOf x i
  | n + 1, e => ∀ x ∈ e.mentions, ∀ i, ctx.ValueOf x i → Nested ctx n i

/-- Values that are deeper inside each other give a longer chain of variables. -/
theorem exists_chain {n : Nat} {e : Expr} (h : ¬ctx.Nested n e) :
    ∃ x xs, x ∈ e.mentions ∧ xs.length = n ∧ (x :: xs).IsChain ctx.LeadsOn ∧
      ∀ y ∈ x :: xs, ∃ i, ctx.ValueOf y i := by
  induction n generalizing e with
  | zero =>
    simp only [Nested, not_forall, not_not] at h
    obtain ⟨x, hx, i, hi⟩ := h
    refine ⟨x, [], hx, rfl, .singleton x, fun y hy => ?_⟩
    exact ⟨i, List.mem_singleton.mp hy ▸ hi⟩
  | succ n ih =>
    simp only [Nested, not_forall] at h
    obtain ⟨x, hx, i, hi, hdeep⟩ := h
    obtain ⟨y, ys, hy, hlen, hchain, hvalues⟩ := ih hdeep
    refine ⟨x, y :: ys, hx, by simp [hlen], .cons_cons ⟨i, hi, hy⟩ hchain, fun z hz => ?_⟩
    rcases List.mem_cons.mp hz with rfl | hz
    · exact ⟨i, hi⟩
    · exact hvalues z hz

/-- Only different variables follow each other. -/
theorem Acyclic.nodup_of_isChain (h : ctx.Acyclic) {xs : List String}
    (hxs : xs.IsChain ctx.LeadsOn) : xs.Nodup := by
  have hpath : xs.IsChain (Relation.TransGen ctx.LeadsOn) := hxs.imp fun _ _ => .single
  refine (List.isChain_iff_pairwise.mp hpath).imp fun {x y} hxy => ?_
  rintro rfl
  exact h x hxy

/-- **Values are not deeper inside each other than there are variables.** -/
theorem Acyclic.nested (h : ctx.Acyclic) (e : Expr) : ctx.Nested ctx.localCount e := by
  by_contra hdeep
  obtain ⟨x, xs, -, hlen, hchain, hvalues⟩ := exists_chain hdeep
  obtain ⟨i, v, hv⟩ := hvalues x List.mem_cons_self
  obtain ⟨b, hbody, -, -⟩ := mem_locals_of_binding? hv.binding
  have hlocals : x :: xs ⊆ b.locals.map LocalVar.name := by
    intro y hy
    obtain ⟨j, w, hw⟩ := hvalues y hy
    obtain ⟨b', hbody', hmem, hname⟩ := mem_locals_of_binding? hw.binding
    obtain rfl : b = b' := Option.some.inj (hbody.symm.trans hbody')
    exact List.mem_map.mpr ⟨w, hmem, hname⟩
  have hle := (List.subperm_of_subset (h.nodup_of_isChain hchain) hlocals).length_le
  rw [List.length_cons, hlen, List.length_map, localCount, hbody] at hle
  exact absurd hle (Nat.not_succ_le_self _)

/-- The value of a variable, as far as a name has one. -/
def value? (ctx : ExprContext) (n : String) : Option Expr :=
  match ctx.binding? n with
  | some (.local v) => if v.type.isInferred then v.value? else none
  | _ => none

theorem valueOf_of_value? {n : String} {e : Expr} (h : ctx.value? n = some e) :
    ctx.ValueOf n e := by
  rw [value?] at h
  split at h
  · next v hv =>
    split at h
    · next hinferred => exact ⟨v, hv, hinferred, h⟩
    · exact absurd h (by simp)
  · exact absurd h (by simp)

theorem ValueOf.value?_eq {n : String} {e : Expr} (h : ctx.ValueOf n e) :
    ctx.value? n = some e := by
  obtain ⟨v, hv⟩ := h
  rw [value?, hv.binding]
  simp only [hv.inferred, if_true, hv.value]

end ExprContext

/-! ## Questions -/

open Codebase (Role)

/-- A question that certain resolution or inference is asked about a place. -/
inductive Question where
  /-- The certain type of an expression in a role. -/
  | certain (role : Role) (e : Expr)
  /-- The declaration that a call refers to. -/
  | declaration (call : MethodCall)
  /-- The type of an expression, certain or inferred. -/
  | type (e : Expr)
  /-- The type of the result of a call. -/
  | result (call : MethodCall)
  /-- The inferred callee of a call. -/
  | callee (call : MethodCall)

namespace Question

/-- What is asked about the receiver of a call to find its declaration. -/
def ofCertainOwner : Option Expr → List Question
  | none | some .this => []
  | some e => [certain .receiver e]

/-- What is asked about the receiver of a call to guess where it is found. -/
def ofOwner : Option Expr → List Question
  | none | some .super => []
  | some e => [type e]

/-- What the structure of an expression asks. -/
def ofStructure (ctx : ExprContext) : Expr → List Question
  | .name n => (ctx.value? n).toList.map type
  | .field receiver _ => [type receiver]
  | .call receiver n args => [result ⟨receiver, n, args⟩]
  | .index array => [type array]
  | .binary _ l r => [type l, type r]
  | .unary _ operand => [type operand]
  | .conditional positive negative => [type positive, type negative]
  | .assign target _ => [type target]
  | _ => []

end Question

/-- **What one step may ask** before it answers a question. -/
def ExprContext.subquestions (ctx : ExprContext) : Question → List Question
  | .certain _ (.field receiver _) => [.certain .receiver receiver]
  | .certain _ (.call receiver n args) => [.declaration ⟨receiver, n, args⟩]
  | .certain _ _ => []
  | .declaration call => Question.ofCertainOwner call.receiver ++ call.args.map (.certain .value)
  | .type e => .certain .value e :: Question.ofStructure ctx e
  | .result call => .declaration call :: (Question.ofOwner call.receiver ++ call.args.map .type)
  | .callee call => Question.ofOwner call.receiver ++ call.args.map .type

/-- The first question is asked to answer the second one. -/
def ExprContext.Asks (ctx : ExprContext) (p q : Question) : Prop := p ∈ ctx.subquestions q

/-- **A way to answer all questions.** -/
structure Answers where
  certain : Role → Expr → Option TypeInfo
  declaration : MethodCall → Option ResolvedCall
  type : Expr → Option TypeInfo
  result : MethodCall → Option TypeInfo
  callee : MethodCall → Option InferredCall

/-- Two ways give one answer to a question. -/
def Answers.SameAt (a b : Answers) : Question → Prop
  | .certain role e => a.certain role e = b.certain role e
  | .declaration call => a.declaration call = b.declaration call
  | .type e => a.type e = b.type e
  | .result call => a.result call = b.result call
  | .callee call => a.callee call = b.callee call

theorem Answers.ext_sameAt {a b : Answers} (h : ∀ q, a.SameAt b q) : a = b := by
  obtain ⟨_, _, _, _, _⟩ := a
  obtain ⟨_, _, _, _, _⟩ := b
  rw [Answers.mk.injEq]
  exact ⟨funext fun role => funext fun e => h (.certain role e),
    funext fun call => h (.declaration call), funext fun e => h (.type e),
    funext fun call => h (.result call), funext fun call => h (.callee call)⟩

namespace Codebase

/-! ## One step -/

/-- The certain type of an expression, from the answers about its parts. -/
def certainStep? (c : Codebase) (ctx : ExprContext) (a : Answers) (role : Role) :
    Expr → Option TypeInfo
  | .literal l => c.literalType? l
  | .this => some (c.thisType ctx)
  | .super => if role = .receiver then c.superType? ctx else none
  | .name n =>
    if role = .receiver ∧ c.isTypeName ctx n then c.lookup? n ctx.type
    else c.certainNameType? ctx n
  | .new t _ | .cast t _ => (c.qualify ctx.typeScope t).known?
  | .field receiver n =>
    ((a.certain .receiver receiver).bind TypeInfo.known?).bind fun owner =>
      (c.fieldType? owner n).bind TypeInfo.known?
  | .call receiver n args =>
    (a.declaration ⟨receiver, n, args⟩).bind fun r => r.returnType.bind TypeInfo.known?
  | _ => none

/-- The type under which a call is looked up, from the answer about its receiver. -/
def certainOwnerStep? (c : Codebase) (ctx : ExprContext) (a : Answers) :
    Option Expr → Option TypeInfo
  | none | some .this => some (c.thisType ctx)
  | some e => (a.certain .receiver e).bind TypeInfo.known?

/-- The declaration that a call refers to, from the answers about its receiver and arguments. -/
def declarationStep? (c : Codebase) (ctx : ExprContext) (a : Answers) (call : MethodCall) :
    Option ResolvedCall :=
  (c.certainOwnerStep? ctx a call.receiver).bind fun owner =>
    (call.args.mapM (a.certain .value)).bind fun args => c.selectCall? owner call.name args

/-- The type of an expression by its structure, from the answers about its parts. -/
def structuralStep? (c : Codebase) (ctx : ExprContext) (a : Answers) : Expr → Option TypeInfo
  | .literal l => c.literalType? l
  | .name n => c.nameType? a.type ctx n
  | .field receiver n =>
    ((a.type receiver).bind fun owner => c.fieldType? owner n).or <|
      (Expr.dottedName? (.field receiver n)).bind fun d => c.lookup? d ctx.type
  | .call receiver n args => a.result ⟨receiver, n, args⟩
  | .new t _ | .newArray t | .cast t _ => some (c.qualify ctx.typeScope t)
  | .index array => (a.type array).bind TypeInfo.component?
  | .binary op l r =>
    if op.isBoolean then some (.primitive .boolean)
    else if op == .add && (l.isStringLiteral || r.isStringLiteral) then
      some (c.typeInfo stringName)
    else (a.type l).bind fun lt => (a.type r).bind fun rt => c.arithmeticType? op lt rt
  | .unary .not _ | .instanceOf _ => some (.primitive .boolean)
  | .unary _ operand => a.type operand
  | .conditional positive negative => c.conditionalType? (a.type positive) (a.type negative)
  | .assign target _ => a.type target
  | .this => some (c.thisType ctx)
  | .super => c.superType? ctx
  | .classLiteral _ => some (c.typeInfo className)
  | .lambda | .methodReference | .unsupported _ => none

/-- The type whose methods a call may mean, from the answer about its receiver. -/
def ownerStep? (c : Codebase) (ctx : ExprContext) (a : Answers) (name : String)
    (args : List Argument) : Option Expr → Option TypeInfo
  | none => c.lookupUnqualified? ctx name args
  | some .super => c.superType? ctx
  | some e => (a.type e).map c.erased

/-- The type of the result of a call, from the answers about its declaration, receiver and
arguments. -/
def resultStep? (c : Codebase) (ctx : ExprContext) (a : Answers) (call : MethodCall) :
    Option TypeInfo :=
  ((a.declaration call).bind (·.returnType)).or <|
    (c.ownerStep? ctx a call.name (call.args.map a.type) call.receiver).bind fun owner =>
      c.resultOn? call.name (call.args.map a.type) (c.withAncestors owner)

/-- The type that a call is found on: the first of the receiver and its supertypes that declares an
applicable method, else the receiver itself. -/
def nearest (c : Codebase) (name : String) (args : List Argument) (receiver : TypeInfo) :
    TypeInfo :=
  ((c.withAncestors receiver).find? fun t => c.declaresApplicable t name args).getD receiver

/-- The inferred callee of a call, from the answers about its receiver and arguments. -/
def calleeStep? (c : Codebase) (excluded : List String) (ctx : ExprContext) (a : Answers)
    (call : MethodCall) : Option InferredCall :=
  if call.receiverName?.any excluded.contains then none
  else
    (call.args.mapM a.type).bind fun args =>
      let owner := c.ownerStep? ctx a call.name (args.map some) call.receiver
      let found := if call.receiver.isNone then owner
        else owner.map (c.nearest call.name (args.map some))
      found.map fun owner => c.identifyOn owner call.name args

/-- **One step of the recursion**: all answers from all answers. -/
def step (c : Codebase) (excluded : List String) (ctx : ExprContext) (a : Answers) : Answers where
  certain := c.certainStep? ctx a
  declaration := c.declarationStep? ctx a
  type e := (a.certain .value e).or (c.structuralStep? ctx a e)
  result := c.resultStep? ctx a
  callee := c.calleeStep? excluded ctx a

/-- **The answers that the functions of the library give.**  The result of a call is what its
structure tells of it. -/
def answers (c : Codebase) (excluded : List String) (ctx : ExprContext) : Answers where
  certain := c.certainTypeAs? ctx
  declaration := c.resolveCall? ctx
  type := c.typeOf? ctx
  result call := c.structuralType? ctx (.call call.receiver call.name call.args)
  callee := c.inferCall? excluded ctx

/-! ## A step asks what it is said to ask -/

variable {c : Codebase} {excluded : List String} {ctx : ExprContext} {a b : Answers}

theorem mapM_congr_left {α β : Type} {f g : α → Option β} {as : List α} (h : ∀ x ∈ as, f x = g x) :
    as.mapM f = as.mapM g := by
  induction as with
  | nil => rfl
  | cons x as ih =>
    rw [List.mapM_cons, List.mapM_cons, h x List.mem_cons_self,
      ih fun y hy => h y (List.mem_cons_of_mem _ hy)]

theorem certainStep?_congr {role : Role} {e : Expr}
    (h : ∀ p ∈ ctx.subquestions (.certain role e), a.SameAt b p) :
    c.certainStep? ctx a role e = c.certainStep? ctx b role e := by
  cases e with
  | field receiver n =>
    have hreceiver : a.certain .receiver receiver = b.certain .receiver receiver :=
      h _ (List.mem_singleton_self _)
    rw [certainStep?, certainStep?, hreceiver]
  | call receiver n args =>
    have hcall : a.declaration ⟨receiver, n, args⟩ = b.declaration ⟨receiver, n, args⟩ :=
      h _ (List.mem_singleton_self _)
    rw [certainStep?, certainStep?, hcall]
  | _ => rfl

theorem declarationStep?_congr {call : MethodCall}
    (h : ∀ p ∈ ctx.subquestions (.declaration call), a.SameAt b p) :
    c.declarationStep? ctx a call = c.declarationStep? ctx b call := by
  have hargs : call.args.mapM (a.certain .value) = call.args.mapM (b.certain .value) :=
    mapM_congr_left fun e he => h (.certain .value e)
      (List.mem_append_right _ (List.mem_map_of_mem he))
  have howner : c.certainOwnerStep? ctx a call.receiver =
      c.certainOwnerStep? ctx b call.receiver := by
    have hreceiver : ∀ p ∈ Question.ofCertainOwner call.receiver, a.SameAt b p :=
      fun p hp => h p (List.mem_append_left _ hp)
    cases hr : call.receiver with
    | none => rfl
    | some e =>
      by_cases hthis : e = .this
      · rw [hthis]
        rfl
      · rw [hr, Question.ofCertainOwner.eq_3 e hthis] at hreceiver
        have he : a.certain .receiver e = b.certain .receiver e :=
          hreceiver _ (List.mem_singleton_self _)
        rw [certainOwnerStep?.eq_3 c ctx a e hthis, certainOwnerStep?.eq_3 c ctx b e hthis, he]
  rw [declarationStep?, declarationStep?, howner, hargs]

theorem ownerStep?_congr {receiver : Option Expr}
    (h : ∀ p ∈ Question.ofOwner receiver, a.SameAt b p) (name : String) (args : List Argument) :
    c.ownerStep? ctx a name args receiver = c.ownerStep? ctx b name args receiver := by
  cases receiver with
  | none => rfl
  | some e =>
    by_cases hsuper : e = .super
    · rw [hsuper]
      rfl
    · rw [Question.ofOwner.eq_3 e hsuper] at h
      have he : a.type e = b.type e := h _ (List.mem_singleton_self _)
      rw [ownerStep?.eq_3 c ctx a name args e hsuper,
        ownerStep?.eq_3 c ctx b name args e hsuper, he]

/-- The values of the variables in an expression are typed alike. -/
theorem nameType?_congr {f g : Expr → Option TypeInfo} {n : String}
    (h : ∀ i, ctx.ValueOf n i → f i = g i) : c.nameType? f ctx n = c.nameType? g ctx n :=
  nameType?_at (s := ctx.scope) rfl fun _ i v hn hv =>
    h i ⟨v, by rwa [Dependency.name.inj (List.mem_singleton.mp hn)] at hv⟩

theorem structuralStep?_congr {e : Expr} (h : ∀ p ∈ Question.ofStructure ctx e, a.SameAt b p) :
    c.structuralStep? ctx a e = c.structuralStep? ctx b e := by
  have htype : ∀ d, .type d ∈ Question.ofStructure ctx e → a.type d = b.type d := fun d hd => h _ hd
  cases e with
  | name n =>
    refine nameType?_congr fun i hi => htype i ?_
    simp [Question.ofStructure, hi.value?_eq]
  | field receiver n =>
    rw [structuralStep?, structuralStep?, htype receiver (by simp [Question.ofStructure])]
  | call receiver n args =>
    exact h (.result ⟨receiver, n, args⟩) (List.mem_singleton_self _)
  | index array =>
    rw [structuralStep?, structuralStep?, htype array (by simp [Question.ofStructure])]
  | binary op l r =>
    rw [structuralStep?, structuralStep?, htype l (by simp [Question.ofStructure]),
      htype r (by simp [Question.ofStructure])]
  | unary op operand =>
    by_cases hop : op = .not
    · rw [hop]
      rfl
    · rw [structuralStep?.eq_12 c ctx a op operand hop,
        structuralStep?.eq_12 c ctx b op operand hop,
        htype operand (by simp [Question.ofStructure])]
  | conditional positive negative =>
    rw [structuralStep?, structuralStep?, htype positive (by simp [Question.ofStructure]),
      htype negative (by simp [Question.ofStructure])]
  | assign target value => exact htype target (by simp [Question.ofStructure])
  | _ => rfl

/-- **A step uses no answers but those to its subquestions.** -/
theorem step_congr {q : Question} (h : ∀ p ∈ ctx.subquestions q, a.SameAt b p) :
    (c.step excluded ctx a).SameAt (c.step excluded ctx b) q := by
  cases q with
  | certain role e => exact certainStep?_congr h
  | declaration call => exact declarationStep?_congr h
  | type e =>
    have hcertain : a.certain .value e = b.certain .value e := h _ List.mem_cons_self
    have hstructure : c.structuralStep? ctx a e = c.structuralStep? ctx b e :=
      structuralStep?_congr fun p hp => h p (List.mem_cons_of_mem _ hp)
    show (a.certain .value e).or _ = (b.certain .value e).or _
    rw [hcertain, hstructure]
  | result call =>
    have hdeclaration : a.declaration call = b.declaration call := h _ List.mem_cons_self
    have hargs : call.args.map a.type = call.args.map b.type := List.map_congr_left fun e he =>
      h (.type e) (List.mem_cons_of_mem _ (List.mem_append_right _ (List.mem_map_of_mem he)))
    have howner : c.ownerStep? ctx a call.name (call.args.map b.type) call.receiver =
        c.ownerStep? ctx b call.name (call.args.map b.type) call.receiver :=
      ownerStep?_congr (fun p hp => h p (List.mem_cons_of_mem _ (List.mem_append_left _ hp))) _ _
    show c.resultStep? ctx a call = c.resultStep? ctx b call
    rw [resultStep?, resultStep?, hdeclaration, hargs, howner]
  | callee call =>
    have hargs : call.args.mapM a.type = call.args.mapM b.type := mapM_congr_left fun e he =>
      h (.type e) (List.mem_append_right _ (List.mem_map_of_mem he))
    have howner : ∀ args, c.ownerStep? ctx a call.name args call.receiver =
        c.ownerStep? ctx b call.name args call.receiver :=
      ownerStep?_congr (fun p hp => h p (List.mem_append_left _ hp)) _
    show c.calleeStep? excluded ctx a call = c.calleeStep? excluded ctx b call
    simp only [calleeStep?, hargs, howner]

/-! ## The functions of the library take these steps -/

theorem agrees_self (ctx : ExprContext) (d : Dependency) : ctx.Agrees ctx.scope d := by
  cases d <;> rfl

/-- **Values that are not deeper inside each other need no larger budget.** -/
theorem typeWithin?_succ {n : Nat} {e : Expr} (h : ctx.Nested n e) :
    c.typeWithin? ctx (n + 1) e = c.typeWithin? ctx n e := by
  induction n generalizing e with
  | zero =>
    rw [typeWithin?, typeWithin?]
    refine typeWith?_at (s := ctx.scope) e (fun d _ => agrees_self ctx d) fun x i v hx hv => ?_
    exact absurd ⟨v, hv⟩ (h x (e.mem_mentions_of_dependencies hx) i)
  | succ n ih =>
    show c.typeWith? (c.typeWithin? ctx (n + 1)) ctx e = c.typeWith? (c.typeWithin? ctx n) ctx e
    refine typeWith?_at (s := ctx.scope) e (fun d _ => agrees_self ctx d) fun x i v hx hv => ?_
    exact ih (h x (e.mem_mentions_of_dependencies hx) i ⟨v, hv⟩)

/-- The value of a variable is typed like any expression, although one more value is open then. -/
theorem initialType?_eq_typeOf? (h : ctx.Acyclic) {n : String} {i : Expr} (hi : ctx.ValueOf n i) :
    c.initialType? ctx ctx.localCount i = c.typeOf? ctx i := by
  have hnested := h.nested (.name n)
  have hn : n ∈ (Expr.name n).mentions := by simp [Expr.mentions]
  rw [typeOf?]
  cases hcount : ctx.localCount with
  | zero =>
    rw [hcount] at hnested
    exact absurd hi (hnested n hn i)
  | succ k =>
    rw [hcount] at hnested
    exact (typeWithin?_succ (hnested n hn i hi)).symm

theorem certainTypes?_eq_mapM (ctx : ExprContext) (es : List Expr) :
    c.certainTypes? ctx es = es.mapM (c.certainTypeAs? ctx .value) := by
  induction es with
  | nil =>
    rw [certainTypes?, List.mapM_nil]
    rfl
  | cons e es ih =>
    rw [certainTypes?, List.mapM_cons, ih]
    simp [Option.map_eq_bind]

theorem certainStep?_answers (role : Role) (e : Expr) :
    c.certainStep? ctx (c.answers excluded ctx) role e = c.certainTypeAs? ctx role e := by
  cases e with
  | call receiver n args =>
    rw [certainTypeAs?, certainStep?, answers]
    simp only [resolveCall?, Option.bind_assoc]
  | _ =>
    rw [certainTypeAs?.eq_def]
    rfl

theorem declarationStep?_answers (call : MethodCall) :
    c.declarationStep? ctx (c.answers excluded ctx) call = c.resolveCall? ctx call := by
  have howner : c.certainOwnerStep? ctx (c.answers excluded ctx) call.receiver =
      c.certainOwnerType? ctx call.receiver := by
    cases call.receiver with
    | none =>
      rw [certainOwnerType?]
      rfl
    | some e =>
      by_cases hthis : e = .this
      · rw [hthis, certainOwnerType?]
        rfl
      · rw [certainOwnerType?.eq_3 c ctx e hthis, certainOwnerStep?.eq_3 c ctx _ e hthis]
        rfl
  rw [declarationStep?, resolveCall?, howner, certainTypes?_eq_mapM]
  rfl

theorem structuralStep?_answers (h : ctx.Acyclic) (e : Expr) :
    c.structuralStep? ctx (c.answers excluded ctx) e = c.structuralType? ctx e := by
  have htype : ∀ d, (c.answers excluded ctx).type d =
      c.typeWith? (c.initialType? ctx ctx.localCount) ctx d := c.typeOf?_eq_typeWith? ctx
  rw [structuralType?]
  cases e with
  | name n => exact nameType?_congr fun i hi => (initialType?_eq_typeOf? h hi).symm
  | call receiver n args => rfl
  | field receiver n => rw [structuralStep?, structuralWith?, htype]
  | index array => rw [structuralStep?, structuralWith?, htype]
  | binary op l r => rw [structuralStep?, structuralWith?, htype, htype]
  | unary op operand => cases op <;> first | rfl | exact htype operand
  | conditional positive negative => rw [structuralStep?, structuralWith?, htype, htype]
  | assign target value => exact htype target
  | _ => rfl

theorem ownerStep?_answers (name : String) (args : List Argument) (receiver : Option Expr) :
    c.ownerStep? ctx (c.answers excluded ctx) name args receiver =
      c.ownerWith? (c.initialType? ctx ctx.localCount) ctx name args receiver := by
  cases receiver with
  | none =>
    rw [ownerWith?]
    rfl
  | some e =>
    by_cases hsuper : e = .super
    · rw [hsuper, ownerWith?]
      rfl
    · rw [ownerWith?.eq_3 c _ ctx name args e hsuper, ownerStep?.eq_3 c ctx _ name args e hsuper,
        ← c.typeOf?_eq_typeWith?]
      rfl

theorem resultStep?_answers (call : MethodCall) :
    c.resultStep? ctx (c.answers excluded ctx) call =
      c.structuralType? ctx (.call call.receiver call.name call.args) := by
  have hargs : call.args.map (c.answers excluded ctx).type =
      c.typesWith (c.initialType? ctx ctx.localCount) ctx call.args := by
    rw [typesWith_eq_map]
    exact List.map_congr_left fun e _ => c.typeOf?_eq_typeWith? ctx e
  rw [resultStep?, structuralType?, structuralWith?, hargs, ownerStep?_answers]
  rfl

theorem calleeStep?_answers (call : MethodCall) :
    c.calleeStep? excluded ctx (c.answers excluded ctx) call = c.inferCall? excluded ctx call := by
  have howner : ∀ args : List Argument,
      (if call.receiver.isNone then
        c.ownerStep? ctx (c.answers excluded ctx) call.name args call.receiver
      else (c.ownerStep? ctx (c.answers excluded ctx) call.name args call.receiver).map
        (c.nearest call.name args)) = c.inferredOwner? ctx call args := by
    intro args
    rw [inferredOwner?]
    cases call.receiver with
    | none => rfl
    | some e =>
      by_cases hsuper : e = .super
      · rw [hsuper]
        rfl
      · rw [ownerStep?.eq_3 c ctx _ call.name args e hsuper]
        simp only [Option.isNone_some, Bool.false_eq_true, if_false]
        rfl
  simp only [calleeStep?, howner]
  rw [inferCall?]
  cases call.receiverName? with
  | none => rfl
  | some n => rfl

/-- **The functions of the library answer as the recursion does**, if no chain of variables leads
back to itself. -/
theorem step_answers (h : ctx.Acyclic) :
    c.step excluded ctx (c.answers excluded ctx) = c.answers excluded ctx := by
  refine Answers.ext_sameAt fun q => ?_
  cases q with
  | certain role e => exact certainStep?_answers role e
  | declaration call => exact declarationStep?_answers call
  | type e =>
    show (c.certainType? ctx e).or (c.structuralStep? ctx (c.answers excluded ctx) e) =
      c.typeOf? ctx e
    rw [structuralStep?_answers h, typeOf?_eq_or]
  | result call => exact resultStep?_answers call
  | callee call => exact calleeStep?_answers call

end Codebase

/-! ## The recursion ends -/

namespace ExprContext

variable {ctx : ExprContext}

mutual

/-- Certain resolution asks about smaller and smaller parts. -/
theorem acc_certain (role : Codebase.Role) (e : Expr) : Acc ctx.Asks (.certain role e) := by
  cases e with
  | field receiver n =>
    refine ⟨_, fun p hp => ?_⟩
    obtain rfl := List.mem_singleton.mp hp
    exact acc_certain .receiver receiver
  | call receiver n args =>
    refine ⟨_, fun p hp => ?_⟩
    obtain rfl := List.mem_singleton.mp hp
    refine ⟨_, fun p hp => ?_⟩
    rcases List.mem_append.mp hp with hp | hp
    · exact acc_ofCertainOwner receiver p hp
    · obtain ⟨e, he, rfl⟩ := List.mem_map.mp hp
      exact acc_certain_of_mem args e he
  | _ => exact ⟨_, fun p hp => absurd hp List.not_mem_nil⟩

theorem acc_ofCertainOwner (receiver : Option Expr) :
    ∀ p ∈ Question.ofCertainOwner receiver, Acc ctx.Asks p := by
  intro p hp
  cases receiver with
  | none => exact absurd hp List.not_mem_nil
  | some e =>
    by_cases hthis : e = .this
    · rw [hthis] at hp
      exact absurd hp List.not_mem_nil
    · rw [Question.ofCertainOwner.eq_3 e hthis, List.mem_singleton] at hp
      rw [hp]
      exact acc_certain .receiver e

theorem acc_certain_of_mem (es : List Expr) : ∀ e ∈ es, Acc ctx.Asks (.certain .value e) := by
  intro e he
  cases es with
  | nil => exact absurd he List.not_mem_nil
  | cons d es =>
    rcases List.mem_cons.mp he with hd | he
    · rw [hd]
      exact acc_certain .value d
    · exact acc_certain_of_mem es e he

end

theorem acc_declaration (call : MethodCall) : Acc ctx.Asks (.declaration call) :=
  (acc_certain .value (.call call.receiver call.name call.args)).inv (List.mem_singleton_self _)

/-- The values of the variables with these names can be typed. -/
def ValuesEnd (ctx : ExprContext) (names : List String) : Prop :=
  ∀ x ∈ names, ∀ i, ctx.ValueOf x i → Acc ctx.Asks (.type i)

theorem ValuesEnd.mono {names names' : List String} (h : ctx.ValuesEnd names)
    (hsub : ∀ x ∈ names', x ∈ names) : ctx.ValuesEnd names' := fun x hx => h x (hsub x hx)

theorem acc_result {receiver : Option Expr} {name : String} {args : List Expr}
    (howner : ∀ p ∈ Question.ofOwner receiver, Acc ctx.Asks p)
    (hargs : ∀ e ∈ args, Acc ctx.Asks (.type e)) :
    Acc ctx.Asks (.result ⟨receiver, name, args⟩) := by
  refine ⟨_, fun p hp => ?_⟩
  rcases List.mem_cons.mp hp with rfl | hp
  · exact acc_declaration _
  · rcases List.mem_append.mp hp with hp | hp
    · exact howner p hp
    · obtain ⟨e, he, rfl⟩ := List.mem_map.mp hp
      exact hargs e he

mutual

/-- **Inference asks about smaller parts, except for values.** -/
theorem acc_type (e : Expr) (h : ctx.ValuesEnd e.mentions) : Acc ctx.Asks (.type e) := by
  have hstructure : ∀ p ∈ Question.ofStructure ctx e, Acc ctx.Asks p := by
    intro p hp
    cases e with
    | name n =>
      obtain ⟨i, hi, rfl⟩ := List.mem_map.mp hp
      exact h n (List.mem_singleton_self n) i (valueOf_of_value? (Option.mem_toList.mp hi))
    | field receiver n =>
      obtain rfl := List.mem_singleton.mp hp
      exact acc_type receiver h
    | call receiver n args =>
      obtain rfl := List.mem_singleton.mp hp
      rw [Expr.mentions] at h
      exact acc_result (acc_ofOwner receiver (h.mono fun x hx => List.mem_append_left _ hx))
        (acc_type_of_mem args (h.mono fun x hx => List.mem_append_right _ hx))
    | index array =>
      obtain rfl := List.mem_singleton.mp hp
      exact acc_type array h
    | binary op l r =>
      rw [Expr.mentions] at h
      have hl := acc_type l (h.mono fun x hx => List.mem_append_left _ hx)
      have hr := acc_type r (h.mono fun x hx => List.mem_append_right _ hx)
      simp only [Question.ofStructure, List.mem_cons, List.not_mem_nil, or_false] at hp
      rcases hp with rfl | rfl
      · exact hl
      · exact hr
    | unary op operand =>
      obtain rfl := List.mem_singleton.mp hp
      exact acc_type operand h
    | conditional positive negative =>
      rw [Expr.mentions] at h
      have hpositive := acc_type positive (h.mono fun x hx => List.mem_append_left _ hx)
      have hnegative := acc_type negative (h.mono fun x hx => List.mem_append_right _ hx)
      simp only [Question.ofStructure, List.mem_cons, List.not_mem_nil, or_false] at hp
      rcases hp with rfl | rfl
      · exact hpositive
      · exact hnegative
    | assign target value =>
      obtain rfl := List.mem_singleton.mp hp
      rw [Expr.mentions] at h
      exact acc_type target (h.mono fun x hx => List.mem_append_left _ hx)
    | _ => exact absurd hp List.not_mem_nil
  refine ⟨_, fun p hp => ?_⟩
  rcases List.mem_cons.mp hp with rfl | hp
  · exact acc_certain .value e
  · exact hstructure p hp

theorem acc_ofOwner (receiver : Option Expr) (h : ctx.ValuesEnd (Expr.receiverMentions receiver)) :
    ∀ p ∈ Question.ofOwner receiver, Acc ctx.Asks p := by
  intro p hp
  cases receiver with
  | none => exact absurd hp List.not_mem_nil
  | some e =>
    by_cases hsuper : e = .super
    · rw [hsuper] at hp
      exact absurd hp List.not_mem_nil
    · rw [Question.ofOwner.eq_3 e hsuper, List.mem_singleton] at hp
      rw [hp]
      exact acc_type e h

theorem acc_type_of_mem (es : List Expr) (h : ctx.ValuesEnd (Expr.listMentions es)) :
    ∀ e ∈ es, Acc ctx.Asks (.type e) := by
  intro e he
  cases es with
  | nil => exact absurd he List.not_mem_nil
  | cons d es =>
    rw [Expr.listMentions] at h
    rcases List.mem_cons.mp he with hd | he
    · rw [hd]
      exact acc_type d (h.mono fun x hx => List.mem_append_left _ hx)
    · exact acc_type_of_mem es (h.mono fun x hx => List.mem_append_right _ hx) e he

end

/-- The induction is on how deep values are inside each other. -/
theorem acc_type_of_nested {n : Nat} {e : Expr} (h : ctx.Nested n e) : Acc ctx.Asks (.type e) := by
  induction n generalizing e with
  | zero => exact acc_type e fun x hx i hi => absurd hi (h x hx i)
  | succ n ih => exact acc_type e fun x hx i hi => ih (h x hx i hi)

/-- **No chain of questions goes on for ever**, if no chain of variables leads back to itself. -/
theorem wellFounded_asks (h : ctx.Acyclic) : WellFounded ctx.Asks := by
  have htype : ∀ e, Acc ctx.Asks (.type e) := fun e => acc_type_of_nested (h.nested e)
  have hvalues : ∀ names, ctx.ValuesEnd names := fun _ _ _ i _ => htype i
  refine ⟨fun q => ?_⟩
  cases q with
  | certain role e => exact acc_certain role e
  | declaration call => exact acc_declaration call
  | type e => exact htype e
  | result call =>
    exact acc_result (acc_ofOwner call.receiver (hvalues _)) fun e _ => htype e
  | callee call =>
    refine ⟨_, fun p hp => ?_⟩
    rcases List.mem_append.mp hp with hp | hp
    · exact acc_ofOwner call.receiver (hvalues _) p hp
    · obtain ⟨e, -, rfl⟩ := List.mem_map.mp hp
      exact htype e

end ExprContext

namespace Codebase

variable {c : Codebase} {excluded : List String} {ctx : ExprContext}

/-- What holds of each element from some number on, holds of all elements from some number on. -/
theorem exists_forall_of_forall_exists {α : Type} {P : α → Nat → Prop} {as : List α}
    (h : ∀ x ∈ as, ∃ n, ∀ k, n ≤ k → P x k) : ∃ n, ∀ x ∈ as, ∀ k, n ≤ k → P x k := by
  induction as with
  | nil => exact ⟨0, fun x hx => absurd hx List.not_mem_nil⟩
  | cons a as ih =>
    obtain ⟨n, hn⟩ := h a List.mem_cons_self
    obtain ⟨m, hm⟩ := ih fun x hx => h x (List.mem_cons_of_mem _ hx)
    refine ⟨n + m, fun x hx k hk => ?_⟩
    rcases List.mem_cons.mp hx with rfl | hx
    · exact hn k (by omega)
    · exact hm x hx k (by omega)

/-- **Each answer is there after finitely many steps**, whatever the first of them begins with. -/
theorem exists_iterate_step (h : ctx.Acyclic) (q : Question) :
    ∃ n, ∀ k, n ≤ k → ∀ a, ((c.step excluded ctx)^[k] a).SameAt (c.answers excluded ctx) q := by
  induction q using (ExprContext.wellFounded_asks h).induction with
  | _ q ih =>
    obtain ⟨n, hn⟩ := exists_forall_of_forall_exists ih
    refine ⟨n + 1, fun k hk a => ?_⟩
    obtain ⟨k, rfl⟩ : ∃ j, k = j + 1 := ⟨k - 1, by omega⟩
    rw [Function.iterate_succ_apply', ← step_answers h]
    exact step_congr fun p hp => hn p hp k (by omega) a

end Codebase

end JavaCallGraph

import JavaCallGraph.Proofs.Graph.InferredTarget
import JavaCallGraph.Proofs.Typing.Agreement

/-!
# The result of an open call

Inference walks the supertypes of a receiver twice: once for the type that a call is found on
(`Codebase.searchedTypes`), and once for the type of its result (`Codebase.resultOn?`).  The first walk
goes on until a type declares an applicable method.  The second one also ends at a described type, and
that type alone then decides.

All superclasses come before all interfaces.  So a class with a described superclass, if only the root
class, loses the results of the methods that it inherits from interfaces.

* `Codebase.resultOn?_eq_bind` — the second walk as a search;
* `Codebase.open_call_result` — the type of a call that is found on some type;
* `Codebase.find?_passedTypes_of_superclasses` — a described superclass is passed before any interface;
* `Codebase.open_call_result_lost_sample` — a call that is found, and whose result is not.
-/

set_option autoImplicit false

namespace JavaCallGraph

/-- The type is described in the catalog. -/
def TypeInfo.isDescribed (t : TypeInfo) : Bool := t.compiled?.isSome

theorem TypeInfo.eq_compiled_of_isDescribed {t : TypeInfo} (h : t.isDescribed = true) :
    ∃ ct, t = .compiled ct := by
  cases t with
  | compiled ct => exact ⟨ct, rfl⟩
  | _ => exact absurd h (by simp [isDescribed, compiled?])

namespace Codebase

variable {c : Codebase}

/-! ## The two walks -/

/-- The result of the methods of that name on one type: for a declared type that of the first applicable
method, for a described one that of the overload which is selected there. -/
def resultAt? (c : Codebase) (name : String) (args : List Argument) : TypeInfo → Option TypeInfo
  | .source id _ => (c.sourceCandidates id name args).head?.bind c.returnType?
  | .compiled ct =>
    (c.selectCompiled? (.compiled ct) name args).bind fun k => c.compiledReturnType? k.method
  | _ => none

/-- The walk for a result ends at a type. -/
def decidesResult (c : Codebase) (name : String) (args : List Argument) (t : TypeInfo) : Bool :=
  t.isDescribed || c.declaresApplicable t name args

/-- **The type at which the walk for a result ends tells the result.** -/
theorem resultOn?_eq_bind (name : String) (args : List Argument) (ts : List TypeInfo) :
    c.resultOn? name args ts =
      (ts.find? (c.decidesResult name args)).bind (c.resultAt? name args) := by
  induction ts with
  | nil => rfl
  | cons t ts ih =>
    cases t with
    | source id n =>
      cases hms : c.sourceCandidates id name args with
      | nil =>
        have hskip : c.decidesResult name args (.source id n) = false := by
          simp [decidesResult, declaresApplicable, TypeInfo.isDescribed, TypeInfo.compiled?, hms]
        rw [List.find?_cons_of_neg (by simp [hskip]), ← ih]
        simp only [resultOn?, hms]
      | cons m ms =>
        have hends : c.decidesResult name args (.source id n) = true := by
          simp [decidesResult, declaresApplicable, hms]
        rw [List.find?_cons_of_pos hends]
        simp [resultOn?, resultAt?, hms]
    | compiled ct => rfl
    | _ =>
      rw [List.find?_cons_of_neg (by simp [decidesResult, declaresApplicable, TypeInfo.isDescribed,
        TypeInfo.compiled?]), ← ih]
      rfl

/-- A search for either of two kinds ends before the first element of the second kind only if there
is one of the first kind before that. -/
theorem find?_or_eq_some {α : Type} {p q : α → Bool} {as : List α} {a : α}
    (h : as.find? q = some a) :
    as.find? (fun x => p x || q x) = some (((as.takeWhile fun x => !q x).find? p).getD a) := by
  induction as with
  | nil => exact absurd h (by simp)
  | cons x xs ih =>
    by_cases hq : q x = true
    · rw [List.find?_cons_of_pos hq] at h
      obtain rfl := Option.some.inj h
      simp [hq]
    · rw [List.find?_cons_of_neg hq] at h
      by_cases hp : p x = true
      · simp [hp, hq]
      · simp [hp, hq, ih h]

theorem getD_find?_of_append {α : Type} {p : α → Bool} {as : List α} {a b : α}
    (h : (as ++ [a]).find? p = some b) : (as.find? p).getD a = b := by
  rw [List.find?_append] at h
  cases hfind : as.find? p with
  | some x =>
    rw [hfind, Option.some_or] at h
    exact Option.some.inj h
  | none =>
    rw [hfind, Option.none_or] at h
    exact (List.mem_singleton.mp (List.mem_of_find?_eq_some h)).symm

/-- Where some type declares an applicable method, it tells the result unless a described type comes
before it. -/
theorem resultOn?_of_find? {name : String} {args : List Argument} {ts : List TypeInfo}
    {d : TypeInfo} (h : ts.find? (fun t => c.declaresApplicable t name args) = some d) :
    c.resultOn? name args ts = c.resultAt? name args
      (((ts.takeWhile fun t => !c.declaresApplicable t name args).find?
        TypeInfo.isDescribed).getD d) := by
  have hends : ts.find? (c.decidesResult name args) = some
      (((ts.takeWhile fun t => !c.declaresApplicable t name args).find?
        TypeInfo.isDescribed).getD d) := find?_or_eq_some h
  rw [resultOn?_eq_bind, hends, Option.bind_some]

/-! ## The owner of the result -/

theorem typesWith_eq_map (typeOf : Expr → Option TypeInfo) (ctx : ExprContext) (es : List Expr) :
    c.typesWith typeOf ctx es = es.map (c.typeWith? typeOf ctx) := by
  induction es with
  | nil => rw [typesWith, List.map_nil]
  | cons e es ih => rw [typesWith, ih, List.map_cons]

/-- Arguments that have a type each are looked up by these types. -/
theorem map_typeOf?_of_mapM {ctx : ExprContext} {es : List Expr} {ts : List TypeInfo}
    (h : es.mapM (c.typeOf? ctx) = some ts) : es.map (c.typeOf? ctx) = ts.map some := by
  induction es generalizing ts with
  | nil =>
    rw [List.mapM_nil] at h
    rw [← Option.some.inj h, List.map_nil, List.map_nil]
  | cons e es ih =>
    rw [List.mapM_cons] at h
    obtain ⟨t, ht, h⟩ := Option.bind_eq_some_iff.mp h
    obtain ⟨us, hus, h⟩ := Option.bind_eq_some_iff.mp h
    rw [← Option.some.inj h, List.map_cons, List.map_cons, ht, ih hus]

/-- An open call has no certain type. -/
theorem certainType?_of_open {ctx : ExprContext} {call : MethodCall}
    (h : c.resolveCall? ctx call = none) :
    c.certainType? ctx (.call call.receiver call.name call.args) = none := by
  rw [certainType?, certainTypeAs?_call, h, Option.bind_none]

/-- The types before the one that a call is found on.  The result of a call without a receiver is looked
up from that type on, so no type comes before it. -/
def passedTypes (c : Codebase) (ctx : ExprContext) (call : MethodCall) (args : List Argument) :
    List TypeInfo :=
  match call.receiver with
  | none => []
  | some _ => (c.searchedTypes ctx call).takeWhile fun t => !c.declaresApplicable t call.name args

/-- The type of an open call with typed arguments is told by the type that it is found on, or by a
described one before that. -/
theorem typeOf?_of_open {ctx : ExprContext} {call : MethodCall} {args : List TypeInfo}
    {d : TypeInfo} (hopen : c.resolveCall? ctx call = none)
    (hargs : call.args.mapM (c.typeOf? ctx) = some args)
    (hfirst : (c.searchedTypes ctx call).find?
      (fun t => c.declaresApplicable t call.name (args.map some)) = some d) :
    c.typeOf? ctx (.call call.receiver call.name call.args) =
      c.resultAt? call.name (args.map some)
        (((c.passedTypes ctx call (args.map some)).find? TypeInfo.isDescribed).getD d) := by
  have htypes : c.typesWith (c.initialType? ctx ctx.localCount) ctx call.args = args.map some := by
    rw [typesWith_eq_map, ← map_typeOf?_of_mapM hargs]
    exact List.map_congr_left fun e _ => (c.typeOf?_eq_typeWith? ctx e).symm
  rw [typeOf?_eq_or, certainType?_of_open hopen, Option.none_or, structuralType?, structuralWith?,
    hopen, Option.bind_none, Option.none_or, htypes]
  cases hreceiver : call.receiver with
  | none =>
    -- the walk for the result starts where the call is found
    have hfound : c.lookupUnqualified? ctx call.name (args.map some) = some d := by
      have howner := inferredOwner?_eq_some hfirst
      simpa only [inferredOwner?, hreceiver] using howner
    have happlicable := List.find?_some hfirst
    rw [ownerWith?, hfound, Option.bind_some,
      resultOn?_of_find? (d := d) (by simp [withAncestors, happlicable])]
    simp [passedTypes, hreceiver, withAncestors, happlicable]
  | some e =>
    -- both walks go over the same types
    have hscope : c.searchedTypes ctx call =
        (c.ownerWith? (c.initialType? ctx ctx.localCount) ctx call.name (args.map some)
          (some e)).toList.flatMap c.withAncestors := by
      simp only [searchedTypes, hreceiver]
      cases e <;> simp only [ownerWith?, typeOf?_eq_typeWith?]
    have hpassed : c.passedTypes ctx call (args.map some) = (c.searchedTypes ctx call).takeWhile
        fun t => !c.declaresApplicable t call.name (args.map some) := by
      rw [passedTypes, hreceiver]
    rw [hpassed, ← resultOn?_of_find? hfirst, hscope]
    cases howner : c.ownerWith? (c.initialType? ctx ctx.localCount) ctx call.name (args.map some)
        (some e) with
    | none => simp [resultOn?]
    | some owner => simp

/-- **What the result of a call is** that is found on the type `d`. -/
structure CallResult (c : Codebase) (ctx : ExprContext) (call : MethodCall)
    (args : List Argument) (d : TypeInfo) (result : Option TypeInfo) : Prop where
  /-- Found on a declared type, and no described type is passed: the result of its first applicable
  method. -/
  reached : (∀ t ∈ c.passedTypes ctx call args, t.isDescribed = false) → ∀ id n m ms,
    d = .source id n → c.sourceCandidates id call.name args = m :: ms → result = c.returnType? m
  /-- Otherwise the first described type decides, by what is selected there. -/
  stopped : ∀ k, (c.passedTypes ctx call args ++ [d]).find? TypeInfo.isDescribed = some k →
    result = (c.selectCompiled? k call.name args).bind fun s => c.compiledReturnType? s.method
  /-- There is no result if neither that type nor one above it describes a method of the name. -/
  lost : ∀ k, (c.passedTypes ctx call args ++ [d]).find? TypeInfo.isDescribed = some k →
    c.compiledCandidates k call.name = [] → result = none

/-- **The result of an open call.**  Let certain resolution leave a call open whose arguments all have a
type, and let `d` be the first of the searched types that declares an applicable method.  If `d` is a
declared type, the type of the call is the result of that method, unless a described type is passed on
the way to `d`. -/
theorem open_call_result {ctx : ExprContext} {call : MethodCall} {args : List TypeInfo}
    {d : TypeInfo} (hopen : c.resolveCall? ctx call = none)
    (hargs : call.args.mapM (c.typeOf? ctx) = some args)
    (hfirst : (c.searchedTypes ctx call).find?
      (fun t => c.declaresApplicable t call.name (args.map some)) = some d) :
    c.CallResult ctx call (args.map some) d
      (c.typeOf? ctx (.call call.receiver call.name call.args)) := by
  have hresult := typeOf?_of_open hopen hargs hfirst
  have hstopped : ∀ k, (c.passedTypes ctx call (args.map some) ++ [d]).find?
      TypeInfo.isDescribed = some k →
        c.typeOf? ctx (.call call.receiver call.name call.args) =
          (c.selectCompiled? k call.name (args.map some)).bind
            fun s => c.compiledReturnType? s.method := by
    intro k hk
    obtain ⟨ct, rfl⟩ := TypeInfo.eq_compiled_of_isDescribed (List.find?_some hk)
    rw [hresult, getD_find?_of_append hk]
    rfl
  refine ⟨fun hnone id n m ms hd hms => ?_, hstopped, fun k hk hempty => ?_⟩
  · have hpassed : (c.passedTypes ctx call (args.map some)).find?
        TypeInfo.isDescribed = none := by
      rw [List.find?_eq_none]
      intro t ht
      simp [hnone t ht]
    rw [hresult, hpassed, Option.getD_none, hd, resultAt?, hms, List.head?_cons, Option.bind_some]
  · rw [hstopped k hk, selectCompiled?, hempty, Option.bind_none]

/-- A described superclass comes before all interfaces: a call that is found on none of the superclasses
passes it. -/
theorem find?_passedTypes_of_superclasses {ctx : ExprContext} {call : MethodCall}
    {args : List Argument} {r k : TypeInfo} (hreceiver : call.receiver ≠ none)
    (hsearched : c.searchedTypes ctx call = c.withAncestors r)
    (hchain : ∀ t ∈ r :: c.superclasses r, c.declaresApplicable t call.name args = false)
    (hk : (r :: c.superclasses r).find? TypeInfo.isDescribed = some k) :
    (c.passedTypes ctx call args).find? TypeInfo.isDescribed = some k := by
  obtain ⟨e, he⟩ := Option.ne_none_iff_exists'.mp hreceiver
  simp only [passedTypes, he]
  rw [hsearched, withAncestors_eq_append,
    List.takeWhile_append_of_pos (fun t ht => by simp [hchain t ht]), List.find?_append, hk,
    Option.some_or]

end Codebase

/-! ## A method of an interface

`Shop` inherits `make` from the interface `Maker` and calls a method on its result.  Its superclass is
the root class, which is described in the second code base only. -/

namespace Sample

/-- The call of `make` on `this`, with a negative number. -/
def callMake : CallSite := ⟨⟨some .this, "make", [.unary .neg (.literal .int)]⟩, 0, 1⟩

/-- The interface and the class. -/
def shop : Codebase where
  units := [⟨"Shop.java", none, [], none⟩]
  types :=
    [{ classDecl "Maker" [] [{ unary "make" (.primitive .long) [] with
        returnType := .simple "Foo", body := none }] with kind := .interface },
     { classDecl "Shop" [] [method "go"
        [call (some (.call callMake.call.receiver "make" callMake.call.args)) "run", callMake]] with
        implemented := [.simple "Maker"] },
     classDecl "Foo" [] [method "run" []]]
  catalog := .empty

/-- The same with a described root class. -/
def describedShop : Codebase :=
  { shop with catalog := .insert .empty ⟨objectName, false, none, [], [], []⟩ }

end Sample

namespace Codebase

/-- Without a description the result is found. -/
theorem open_call_result_sample :
    Sample.shop.resolveCall? (Sample.shop.context ⟨⟨1⟩, 0⟩ 0) Sample.callMake.call = none ∧
      (Sample.shop.typeOf? (Sample.shop.context ⟨⟨1⟩, 0⟩ 0) (.call (some .this) "make"
        [.unary .neg (.literal .int)])).map TypeInfo.name = some "Foo" := by
  have hopen : Sample.shop.resolveCall? (Sample.shop.context ⟨⟨1⟩, 0⟩ 0) Sample.callMake.call =
      none := by rfl
  have hargs : Sample.callMake.call.args.mapM (Sample.shop.typeOf?
      (Sample.shop.context ⟨⟨1⟩, 0⟩ 0)) = some [.primitive .int] := by rfl
  obtain ⟨n, hfirst⟩ : ∃ n, (Sample.shop.searchedTypes (Sample.shop.context ⟨⟨1⟩, 0⟩ 0)
      Sample.callMake.call).find? (fun t => Sample.shop.declaresApplicable t "make"
        [some (.primitive .int)]) = some (.source ⟨0⟩ n) :=
    TypeInfo.exists_source_of_sourceId? (by decide +kernel)
  have hpassed : ∀ t ∈ Sample.shop.passedTypes (Sample.shop.context ⟨⟨1⟩, 0⟩ 0)
      Sample.callMake.call [some (.primitive .int)], t.isDescribed = false := by decide +kernel
  have hresult := (open_call_result hopen hargs hfirst).reached hpassed ⟨0⟩ n ⟨⟨0⟩, 0⟩ [] rfl
    (by decide +kernel)
  have hfoo : (Sample.shop.returnType? ⟨⟨0⟩, 0⟩).map TypeInfo.name = some "Foo" := by
    decide +kernel
  rw [← hresult] at hfoo
  exact ⟨hopen, hfoo⟩

/-- **A result that is lost.**  With the description the call is still found on the interface, but its
result is not: the search for that passes the root class and ends there. -/
theorem open_call_result_lost_sample :
    ¬∀ (c : Codebase) (m : MethodRef) (s : CallSite) (args : List TypeInfo) (d : TypeId)
        (n : String) (k : MethodRef) (ks : List MethodRef),
      s ∈ c.callSites m → c.resolveCall? (c.context m s.scope) s.call = none →
      s.call.args.mapM (c.typeOf? (c.context m s.scope)) = some args →
      (c.searchedTypes (c.context m s.scope) s.call).find?
          (fun t => c.declaresApplicable t s.call.name (args.map some)) = some (.source d n) →
      c.sourceCandidates d s.call.name (args.map some) = k :: ks →
        c.typeOf? (c.context m s.scope) (.call s.call.receiver s.call.name s.call.args) =
          c.returnType? k := by
  intro h
  obtain ⟨n, hfirst⟩ : ∃ n, (Sample.describedShop.searchedTypes
      (Sample.describedShop.context ⟨⟨1⟩, 0⟩ 0) Sample.callMake.call).find? (fun t =>
        Sample.describedShop.declaresApplicable t "make" [some (.primitive .int)]) =
          some (.source ⟨0⟩ n) :=
    TypeInfo.exists_source_of_sourceId? (by decide +kernel)
  have hresult := h Sample.describedShop ⟨⟨1⟩, 0⟩ Sample.callMake [.primitive .int] ⟨0⟩ n
    ⟨⟨0⟩, 0⟩ [] (List.mem_cons_of_mem _ (List.mem_singleton_self _)) (by rfl) (by rfl) hfirst
    (by decide +kernel)
  have hlost : (Sample.describedShop.typeOf? (Sample.describedShop.context ⟨⟨1⟩, 0⟩ 0)
      (.call Sample.callMake.call.receiver "make" Sample.callMake.call.args)).isSome = false := by
    decide +kernel
  have hfoo : (Sample.describedShop.returnType? ⟨⟨0⟩, 0⟩).isSome := by decide +kernel
  rw [← hresult] at hfoo
  exact Bool.false_ne_true (hlost.symm.trans hfoo)

end Codebase

end JavaCallGraph

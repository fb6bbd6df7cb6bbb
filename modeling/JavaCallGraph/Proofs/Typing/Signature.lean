import JavaCallGraph.Proofs.Typing.Certain
import JavaCallGraph.Proofs.Typing.Specificity
import Mathlib.Data.List.Forall2

/-!
# The nearest unambiguous signature

`Codebase.selectCall?` goes through the candidates of the receiver and its supertypes, keeps the nearest
one for each signature, and takes what the argument types decide for.  This file says the same without an
order among the methods of a type.

* `Codebase.Offers` — a type declares an applicable method with the given signature;
* `Codebase.Decides` — a signature is the only one that is offered, or that of the arguments;
* `Codebase.FirstOffering` — the first of the receiver and its supertypes that offers a signature;
* `Codebase.exists_selectCall?_iff` and `Codebase.decides_of_selectCall?` — there is an answer if a
  signature decides, and it has that signature and the first type that offers it;
* `Codebase.find?_of_selectCall?` — of several methods there with that signature, it is the first one.
-/

set_option autoImplicit false

namespace JavaCallGraph

namespace Codebase

variable {c : Codebase}

/-! ## Signatures that are offered -/

/-- A type itself declares a method of the given name with these parameters; a described method must have
a fixed number of them. -/
inductive DeclaresMethod (c : Codebase) (name : String) : TypeInfo → List TypeInfo → Prop
  /-- A declaration in the source. -/
  | source {id : TypeId} {n : String} {m : MethodRef} (hm : m ∈ c.methodsOf id)
      (hname : (c.method m).name = name) : DeclaresMethod c name (.source id n) (c.paramTypes m)
  /-- A description in the catalog. -/
  | compiled {t : CompiledType} {m : CompiledMethod} (hm : m ∈ t.methods) (hname : m.name = name)
      (hfixed : m.varargs = false) : DeclaresMethod c name (.compiled t) (c.compiledParamTypes m)

/-- **A type offers a signature**: it declares a method with parameters of these names that accept the
arguments. -/
def Offers (c : Codebase) (name : String) (args : List TypeInfo) (t : TypeInfo) (sig : List String) :
    Prop :=
  ∃ ps, c.DeclaresMethod name t ps ∧ List.Forall₂ (fun p a => c.accepts p a = true) ps args ∧
    ps.map TypeInfo.name = sig

/-- The receiver or one of its supertypes offers the signature. -/
def Offered (c : Codebase) (receiver : TypeInfo) (name : String) (args : List TypeInfo)
    (sig : List String) : Prop :=
  ∃ t ∈ c.withAncestors receiver, c.Offers name args t sig

/-- **A signature decides a call**: nothing else is offered, or it has exactly the argument types. -/
def Decides (c : Codebase) (receiver : TypeInfo) (name : String) (args : List TypeInfo)
    (sig : List String) : Prop :=
  c.Offered receiver name args sig ∧
    ((∀ other, c.Offered receiver name args other → other = sig) ∨ sig = args.map TypeInfo.name)

/-- **The first type that offers a signature**, in the order of the receiver and its supertypes. -/
def FirstOffering (c : Codebase) (receiver : TypeInfo) (name : String) (args : List TypeInfo)
    (sig : List String) (t : TypeInfo) : Prop :=
  ∃ before after, c.withAncestors receiver = before ++ t :: after ∧ c.Offers name args t sig ∧
    ∀ s ∈ before, ¬c.Offers name args s sig

variable {receiver t : TypeInfo} {name : String} {args : List TypeInfo} {sig : List String}

/-- At most one signature decides. -/
theorem Decides.unique {sig' : List String} (h : c.Decides receiver name args sig)
    (h' : c.Decides receiver name args sig') : sig = sig' := by
  rcases h.2 with honly | hexact
  · exact (honly sig' h'.1).symm
  · rcases h'.2 with honly' | hexact'
    · exact honly' sig h.1
    · rw [hexact, hexact']

/-! ## Candidates -/

theorem acceptsAll_iff {ps : List TypeInfo} (hlen : ps.length = args.length) :
    c.acceptsAll ps args = true ↔ List.Forall₂ (fun p a => c.accepts p a = true) ps args := by
  rw [acceptsAll, List.all_eq_true, List.forall₂_iff_zip]
  exact ⟨fun h => ⟨hlen, fun hmem => h _ hmem⟩, fun h x hx => h.2 hx⟩

/-- What a type declares, as candidates. -/
theorem declaresMethod_iff {ps : List TypeInfo} :
    c.DeclaresMethod name t ps ↔ ∃ k ∈ c.declaredCandidates t name ps.length, k.params = ps := by
  constructor
  · intro h
    cases h with
    | @source id n m hm hname =>
      refine ⟨_, List.mem_map_of_mem (List.mem_filter.mpr ⟨hm, ?_⟩), rfl⟩
      rw [hname, beq_self_eq_true, Bool.true_and, paramTypes, List.length_map]
      exact beq_self_eq_true _
    | @compiled u m hm hname hfixed =>
      refine ⟨_, List.mem_map_of_mem (List.mem_filter.mpr ⟨List.mem_filter.mpr ⟨hm, ?_⟩, ?_⟩), rfl⟩
      · exact beq_iff_eq.mpr hname
      · rw [hfixed, compiledParamTypes, List.length_map, beq_self_eq_true]
        rfl
  · rintro ⟨k, hk, rfl⟩
    cases t with
    | source id n =>
      obtain ⟨m, hm, rfl⟩ := List.mem_map.mp hk
      obtain ⟨hmem, hp⟩ := List.mem_filter.mp hm
      rw [Bool.and_eq_true, beq_iff_eq] at hp
      exact .source hmem hp.1
    | compiled u =>
      obtain ⟨m, hm, rfl⟩ := List.mem_map.mp hk
      obtain ⟨hnamed, hp⟩ := List.mem_filter.mp hm
      obtain ⟨hmem, hname⟩ := List.mem_filter.mp hnamed
      rw [Bool.and_eq_true, Bool.not_eq_true'] at hp
      exact .compiled hmem (beq_iff_eq.mp hname) hp.2
    | _ => exact absurd hk List.not_mem_nil

theorem declaring_of_mem_declaredCandidates {arity : Nat} {k : Candidate}
    (hk : k ∈ c.declaredCandidates t name arity) : k.declaring = t ∧ k.params.length = arity := by
  cases t with
  | source id n =>
    obtain ⟨m, hm, rfl⟩ := List.mem_map.mp hk
    have hp := (List.mem_filter.mp hm).2
    rw [Bool.and_eq_true, beq_iff_eq, beq_iff_eq] at hp
    exact ⟨rfl, (List.length_map _).trans hp.2⟩
  | compiled u =>
    obtain ⟨m, hm, rfl⟩ := List.mem_map.mp hk
    have hp := (List.mem_filter.mp hm).2
    rw [Bool.and_eq_true, beq_iff_eq] at hp
    exact ⟨rfl, (List.length_map _).trans hp.1⟩
  | _ => exact absurd hk List.not_mem_nil

/-- The applicable candidates of one type. -/
def applicableOn (c : Codebase) (name : String) (args : List TypeInfo) (t : TypeInfo) : List Candidate :=
  (c.declaredCandidates t name args.length).filter fun k => c.acceptsAll k.params args

theorem applicableCandidates_eq_flatMap (receiver : TypeInfo) (name : String) (args : List TypeInfo) :
    c.applicableCandidates receiver name args =
      (c.withAncestors receiver).flatMap (c.applicableOn name args) := by
  rw [applicableCandidates, List.filter_flatMap]
  rfl

/-- **The signatures that a type offers** are those of its applicable candidates. -/
theorem offers_iff : c.Offers name args t sig ↔ ∃ k ∈ c.applicableOn name args t, k.signature = sig := by
  constructor
  · rintro ⟨ps, hdeclares, haccepts, rfl⟩
    obtain ⟨k, hk, rfl⟩ := declaresMethod_iff.mp hdeclares
    rw [haccepts.length_eq] at hk
    exact ⟨k, List.mem_filter.mpr ⟨hk, (acceptsAll_iff haccepts.length_eq).mpr haccepts⟩, rfl⟩
  · rintro ⟨k, hk, rfl⟩
    obtain ⟨hmem, haccepts⟩ := List.mem_filter.mp hk
    have hlen := (declaring_of_mem_declaredCandidates hmem).2
    refine ⟨k.params, declaresMethod_iff.mpr ⟨k, ?_, rfl⟩, (acceptsAll_iff hlen).mp haccepts, rfl⟩
    rwa [hlen]

theorem offered_iff : c.Offered receiver name args sig ↔
    ∃ k ∈ c.applicableCandidates receiver name args, k.signature = sig := by
  simp only [Offered, offers_iff, applicableCandidates_eq_flatMap, List.mem_flatMap]
  constructor
  · rintro ⟨t, ht, k, hk, hsig⟩
    exact ⟨k, ⟨t, ht, hk⟩, hsig⟩
  · rintro ⟨k, ⟨t, ht, hk⟩, hsig⟩
    exact ⟨t, ht, k, hk, hsig⟩

/-! ## The nearest candidate of a signature -/

/-- The nearest candidate comes before all others with its signature. -/
theorem exists_split_of_mem_nearestBySignature {seen : List (List String)} {ks : List Candidate}
    {k : Candidate} (hk : k ∈ nearestBySignature seen ks) : k.signature ∉ seen ∧
      ∃ before after, ks = before ++ k :: after ∧ ∀ l ∈ before, l.signature ≠ k.signature := by
  induction ks generalizing seen with
  | nil => exact absurd hk List.not_mem_nil
  | cons l ks ih =>
    rw [nearestBySignature] at hk
    split at hk
    · next hseen =>
      obtain ⟨hnew, before, after, rfl, hbefore⟩ := ih hk
      refine ⟨hnew, l :: before, after, rfl, fun x hx => ?_⟩
      rcases List.mem_cons.mp hx with rfl | hx
      · exact fun he => hnew (he ▸ List.contains_iff_mem.mp hseen)
      · exact hbefore x hx
    · next hl =>
      rcases List.mem_cons.mp hk with rfl | hk
      · exact ⟨by simpa using hl, [], ks, rfl, fun x hx => absurd hx List.not_mem_nil⟩
      · obtain ⟨hnew, before, after, rfl, hbefore⟩ := ih hk
        rw [List.mem_cons, not_or] at hnew
        refine ⟨hnew.2, l :: before, after, rfl, fun x hx => ?_⟩
        rcases List.mem_cons.mp hx with rfl | hx
        · exact fun he => hnew.1 he.symm
        · exact hbefore x hx

/-- Every signature keeps a candidate. -/
theorem exists_mem_nearestBySignature {seen : List (List String)} {ks : List Candidate} {k : Candidate}
    (hk : k ∈ ks) (hseen : k.signature ∉ seen) :
    ∃ l ∈ nearestBySignature seen ks, l.signature = k.signature := by
  induction ks generalizing seen with
  | nil => exact absurd hk List.not_mem_nil
  | cons x ks ih =>
    rw [nearestBySignature]
    rcases List.mem_cons.mp hk with rfl | hk
    · rw [if_neg (by simpa using hseen)]
      exact ⟨k, List.mem_cons_self, rfl⟩
    · split
      · exact ih hk hseen
      · by_cases hx : x.signature = k.signature
        · exact ⟨x, List.mem_cons_self, hx⟩
        · have hnew : k.signature ∉ x.signature :: seen := by
            rw [List.mem_cons, not_or]
            exact ⟨Ne.symm hx, hseen⟩
          obtain ⟨l, hl, hsig⟩ := ih hk hnew
          exact ⟨l, List.mem_cons_of_mem _ hl, hsig⟩

theorem nodup_signature_nearestBySignature (seen : List (List String)) (ks : List Candidate) :
    ((nearestBySignature seen ks).map Candidate.signature).Nodup := by
  induction ks generalizing seen with
  | nil => exact List.nodup_nil
  | cons k ks ih =>
    rw [nearestBySignature]
    split
    · exact ih seen
    · rw [List.map_cons, List.nodup_cons]
      refine ⟨fun hmem => ?_, ih _⟩
      obtain ⟨l, hl, hsig⟩ := List.mem_map.mp hmem
      exact (exists_split_of_mem_nearestBySignature hl).1 (hsig ▸ List.mem_cons_self)

/-- An element of a `flatMap` splits the list that it comes from. -/
theorem exists_split_of_flatMap {α β : Type} {f : α → List β} {l : List α} {before after : List β}
    {b : β} (h : l.flatMap f = before ++ b :: after) :
    ∃ xs x ys, l = xs ++ x :: ys ∧ b ∈ f x ∧ ∀ y ∈ xs, ∀ d ∈ f y, d ∈ before := by
  induction l generalizing before with
  | nil => exact absurd h (by simp)
  | cons a l ih =>
    rw [List.flatMap_cons, List.append_eq_append_iff] at h
    rcases h with ⟨rest, rfl, hrest⟩ | ⟨rest, hfa, hrest⟩
    · obtain ⟨xs, x, ys, rfl, hb, hbefore⟩ := ih hrest
      refine ⟨a :: xs, x, ys, rfl, hb, fun y hy d hd => ?_⟩
      rcases List.mem_cons.mp hy with rfl | hy
      · exact List.mem_append_left _ hd
      · exact List.mem_append_right _ (hbefore y hy d hd)
    · cases rest with
      | nil =>
        obtain ⟨xs, x, ys, rfl, hb, hbefore⟩ := @ih [] hrest.symm
        refine ⟨a :: xs, x, ys, rfl, hb, fun y hy d hd => ?_⟩
        rcases List.mem_cons.mp hy with rfl | hy
        · rwa [hfa, List.append_nil] at hd
        · exact absurd (hbefore y hy d hd) List.not_mem_nil
      | cons r rest =>
        obtain ⟨rfl, -⟩ := List.cons.inj hrest
        refine ⟨[], a, l, rfl, ?_, fun y hy => absurd hy List.not_mem_nil⟩
        rw [hfa]
        exact List.mem_append_right _ List.mem_cons_self

/-- **The nearest candidate of a signature stands on the first type that offers it.** -/
theorem firstOffering_of_mem_nearestBySignature {k : Candidate}
    (hk : k ∈ nearestBySignature [] (c.applicableCandidates receiver name args)) :
    k ∈ c.applicableOn name args k.declaring ∧
      c.FirstOffering receiver name args k.signature k.declaring := by
  obtain ⟨-, before, after, hsplit, hbefore⟩ := exists_split_of_mem_nearestBySignature hk
  rw [applicableCandidates_eq_flatMap] at hsplit
  obtain ⟨xs, t, ys, hl, hmem, hxs⟩ := exists_split_of_flatMap hsplit
  have ht : k.declaring = t :=
    (declaring_of_mem_declaredCandidates (List.mem_filter.mp hmem).1).1
  rw [ht]
  refine ⟨hmem, xs, ys, hl, offers_iff.mpr ⟨k, hmem, rfl⟩, fun s hs hoffers => ?_⟩
  obtain ⟨l, hl, hsig⟩ := offers_iff.mp hoffers
  exact hbefore l (hxs s hs l hl) hsig

/-- **It is the first candidate with its signature there.** -/
theorem find?_of_mem_nearestBySignature {k : Candidate}
    (hk : k ∈ nearestBySignature [] (c.applicableCandidates receiver name args)) :
    (c.applicableOn name args k.declaring).find? (fun l => l.signature == k.signature) = some k := by
  obtain ⟨-, before, after, hsplit, hbefore⟩ := exists_split_of_mem_nearestBySignature hk
  have hfind : (c.applicableCandidates receiver name args).find?
      (fun l => l.signature == k.signature) = some k := by
    refine List.find?_eq_some_iff_append.mpr ⟨beq_self_eq_true _, before, after, hsplit, ?_⟩
    simpa using hbefore
  rw [applicableCandidates_eq_flatMap, List.find?_flatMap] at hfind
  obtain ⟨t, -, ht⟩ := List.exists_of_findSome?_eq_some hfind
  have hmem := (List.mem_filter.mp (List.mem_of_find?_eq_some ht)).1
  rwa [(declaring_of_mem_declaredCandidates hmem).1]

/-! ## The choice -/

/-- The exact candidates are those with the signature of the arguments. -/
theorem zip_names_iff {ps : List TypeInfo} (hlen : ps.length = args.length) :
    ((ps.zip args).all fun (p, a) => p.name == a.name) = true ↔
      ps.map TypeInfo.name = args.map TypeInfo.name := by
  rw [List.all_eq_true, ← List.forall₂_eq_eq_eq, List.forall₂_map_left_iff, List.forall₂_map_right_iff,
    List.forall₂_iff_zip]
  exact ⟨fun h => ⟨hlen, fun hmem => beq_iff_eq.mp (h _ hmem)⟩, fun h x hx => beq_iff_eq.mpr (h.2 hx)⟩

theorem choose?_eq_only? (x y : Candidate) (ks : List Candidate) :
    choose? args (x :: y :: ks) = only? ((x :: y :: ks).filter fun k =>
      (k.params.zip args).all fun (p, a) => p.name == a.name) := by
  rw [choose?.eq_def]
  simp only
  generalize (x :: y :: ks).filter (fun k => (k.params.zip args).all fun (p, a) => p.name == a.name) = es
  match es with
  | [] => rfl
  | [e] => rfl
  | e :: e' :: es => rfl

/-- **What is chosen among candidates of different signatures**: the only one, or the exact one. -/
theorem choose?_eq_some_iff {ks : List Candidate} (hnodup : (ks.map Candidate.signature).Nodup)
    (hlen : ∀ k ∈ ks, k.params.length = args.length) {k : Candidate} :
    choose? args ks = some k ↔
      k ∈ ks ∧ ((∀ l ∈ ks, l.signature = k.signature) ∨ k.signature = args.map TypeInfo.name) := by
  have hinj : ∀ l ∈ ks, ∀ l' ∈ ks, l.signature = l'.signature → l = l' :=
    fun l hl l' hl' => List.inj_on_of_nodup_map hnodup hl hl'
  match ks with
  | [] => simp [choose?]
  | [x] =>
    rw [choose?, Option.some.injEq, List.mem_singleton]
    constructor
    · rintro rfl
      exact ⟨rfl, Or.inl fun l hl => by rw [List.mem_singleton.mp hl]⟩
    · exact fun h => h.1.symm
  | x :: y :: ks =>
    rw [choose?_eq_only?, only?_eq_some_iff (hnodup.of_map _ |>.filter _)]
    simp only [List.mem_filter]
    constructor
    · rintro ⟨⟨hk, hexact⟩, -⟩
      exact ⟨hk, Or.inr ((zip_names_iff (hlen k hk)).mp hexact)⟩
    · rintro ⟨hk, honly | hexact⟩
      · -- two candidates have two signatures
        have hxy := hinj x List.mem_cons_self y (List.mem_cons_of_mem _ List.mem_cons_self)
          ((honly x List.mem_cons_self).trans
            (honly y (List.mem_cons_of_mem _ List.mem_cons_self)).symm)
        rw [hxy, List.map_cons, List.map_cons, List.nodup_cons] at hnodup
        exact absurd List.mem_cons_self hnodup.1
      · refine ⟨⟨hk, (zip_names_iff (hlen k hk)).mpr hexact⟩, fun l hl => ?_⟩
        refine hinj l hl.1 k hk ?_
        rw [hexact]
        exact (zip_names_iff (hlen l hl.1)).mp hl.2

/-- The nearest applicable candidates. -/
def nearestCandidates (c : Codebase) (receiver : TypeInfo) (name : String) (args : List TypeInfo) :
    List Candidate :=
  nearestBySignature [] (c.applicableCandidates receiver name args)

theorem offered_iff_nearest : c.Offered receiver name args sig ↔
    ∃ k ∈ c.nearestCandidates receiver name args, k.signature = sig := by
  rw [offered_iff]
  constructor
  · rintro ⟨k, hk, rfl⟩
    exact exists_mem_nearestBySignature hk List.not_mem_nil
  · rintro ⟨k, hk, hsig⟩
    exact ⟨k, mem_of_mem_nearestBySignature hk, hsig⟩

/-- **An answer is the nearest candidate with the signature that decides.** -/
theorem selectCall?_eq_some_iff {x : ResolvedCall} : c.selectCall? receiver name args = some x ↔
    ∃ k ∈ c.nearestCandidates receiver name args,
      c.Decides receiver name args k.signature ∧ k.resolved name = x := by
  have hlen : ∀ k ∈ c.nearestCandidates receiver name args, k.params.length = args.length := by
    intro k hk
    have hmem := (firstOffering_of_mem_nearestBySignature hk).1
    exact (declaring_of_mem_declaredCandidates (List.mem_filter.mp hmem).1).2
  have hdecides : ∀ k ∈ c.nearestCandidates receiver name args,
      (c.Decides receiver name args k.signature ↔
        (∀ l ∈ c.nearestCandidates receiver name args, l.signature = k.signature) ∨
          k.signature = args.map TypeInfo.name) := by
    intro k hk
    rw [Decides, and_iff_right (offered_iff_nearest.mpr ⟨k, hk, rfl⟩)]
    simp only [offered_iff_nearest, forall_exists_index, and_imp, forall_apply_eq_imp_iff₂]
  rw [selectCall?, Option.map_eq_some_iff]
  refine exists_congr fun k => ?_
  rw [choose?_eq_some_iff (nodup_signature_nearestBySignature _ _) hlen, and_assoc]
  refine and_congr_right fun hk => ?_
  rw [hdecides k hk]
  exact Iff.rfl

/-- **There is an answer if and only if a signature decides.** -/
theorem exists_selectCall?_iff : (∃ x, c.selectCall? receiver name args = some x) ↔
    ∃ sig, c.Decides receiver name args sig := by
  constructor
  · rintro ⟨x, hx⟩
    obtain ⟨k, -, hk, -⟩ := selectCall?_eq_some_iff.mp hx
    exact ⟨_, hk⟩
  · rintro ⟨sig, hsig⟩
    obtain ⟨k, hk, rfl⟩ := offered_iff_nearest.mp hsig.1
    exact ⟨_, selectCall?_eq_some_iff.mpr ⟨k, hk, hsig, rfl⟩⟩

/-- **An answer has the signature that decides, and the first type that offers it.** -/
theorem decides_of_selectCall? {x : ResolvedCall} (h : c.selectCall? receiver name args = some x) :
    c.Decides receiver name args x.params ∧
      c.FirstOffering receiver name args x.params x.declaring := by
  obtain ⟨k, hk, hdecides, rfl⟩ := selectCall?_eq_some_iff.mp h
  exact ⟨hdecides, (firstOffering_of_mem_nearestBySignature hk).2⟩

/-- **Of several methods with that signature on that type, the first applicable one is the answer.** -/
theorem find?_of_selectCall? {x : ResolvedCall} (h : c.selectCall? receiver name args = some x) :
    ∃ k, (c.applicableOn name args x.declaring).find? (fun k => k.signature == x.params) = some k ∧
      x = k.resolved name := by
  obtain ⟨k, hk, -, rfl⟩ := selectCall?_eq_some_iff.mp h
  exact ⟨k, find?_of_mem_nearestBySignature hk, rfl⟩

/-- The candidate behind an answer. -/
theorem exists_candidate_of_selectCall? {x : ResolvedCall}
    (h : c.selectCall? receiver name args = some x) :
    ∃ k ∈ c.declaredCandidates x.declaring name args.length, x = k.resolved name := by
  obtain ⟨k, hk, rfl⟩ := find?_of_selectCall? h
  exact ⟨k, (List.mem_filter.mp (List.mem_of_find?_eq_some hk)).1, rfl⟩

end Codebase

end JavaCallGraph

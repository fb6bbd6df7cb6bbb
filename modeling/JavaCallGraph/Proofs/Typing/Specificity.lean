import JavaCallGraph.Proofs.Typing.Inference
import Mathlib.Data.List.Nodup

/-!
# The most specific overload

Of several applicable overloads that are described in the catalog `Codebase.selectCompiled?` takes the
one that no other one is more specific than, if there is exactly one.  This file says so without the
positions in which candidates stand.

* `Codebase.moreSpecific_iff` — one overload is more specific than another if it is nowhere worse and
  somewhere better;
* `Codebase.unbeaten` — the candidates that no other one is more specific than;
  `Codebase.mostSpecific` lists these, since no candidate is more specific than itself
  (`mostSpecific_eq_unbeaten`);
* `Codebase.selectAmong?` — the choice among given candidates, of which `selectCompiled?` is a case.
  When a candidate is applicable it is the only unbeaten one of those that are
  (`selectAmong?_eq_only?`).
* `Codebase.moreSpecific_iff_of_takesExactly`, `Codebase.not_moreSpecific_of_takesExactly` — whose
  parameters are the argument types beats all others and is beaten by none.
-/

set_option autoImplicit false

namespace JavaCallGraph

/-- The only element of a list. -/
def only? {α : Type} : List α → Option α
  | [a] => some a
  | _ => none

theorem only?_eq_some_iff {α : Type} {l : List α} (h : l.Nodup) {a : α} :
    only? l = some a ↔ a ∈ l ∧ ∀ b ∈ l, b = a := by
  match l, h with
  | [], _ => simp [only?]
  | [b], _ =>
    simp only [only?, Option.some.injEq, List.mem_singleton, forall_eq]
    exact ⟨fun h => ⟨h.symm, h⟩, fun h => h.2⟩
  | b :: d :: l, h =>
    simp only [only?, reduceCtorEq, false_iff, not_and, not_forall]
    intro ha
    -- two different elements cannot both be `a`
    by_contra hall
    simp only [not_exists, not_not] at hall
    have hb := hall b List.mem_cons_self
    have hd := hall d (List.mem_cons_of_mem _ List.mem_cons_self)
    exact (List.nodup_cons.mp h).1 (hb.trans hd.symm ▸ List.mem_cons_self)

namespace Codebase

variable {c : Codebase}

/-! ## Comparing two overloads -/

/-- The parameter of a described method that takes the argument at position `i`. -/
def takesAt? (c : Codebase) (m : CompiledMethod) (arity i : Nat) : Option TypeInfo :=
  paramAt? (c.compiledParamTypes m) m.varargs i arity

/-- At the argument at position `i` the parameters of two methods compare as `o`. -/
def ComparesAt (c : Codebase) (a b : CompiledMethod) (args : List TypeInfo) (i : Nat)
    (o : Ordering) : Prop :=
  ∃ p q t, c.takesAt? a args.length i = some p ∧ c.takesAt? b args.length i = some q ∧
    args[i]? = some t ∧ c.prefer p q t = o

theorem mem_preferences {a b : CompiledMethod} {args : List TypeInfo} {o : Ordering} :
    o ∈ c.preferences a b (args.map some) ↔ ∃ i, c.ComparesAt a b args i o := by
  rw [preferences, List.mem_filterMap]
  constructor
  · rintro ⟨⟨arg, i⟩, hmem, ho⟩
    have hi := List.mem_zipIdx_iff_getElem?.mp hmem
    simp only at hi ho
    rw [List.length_map] at ho
    split at ho
    · next p q t hp hq =>
      rw [List.getElem?_map, Option.map_eq_some_iff] at hi
      obtain ⟨u, hu, hut⟩ := hi
      rw [Option.some.inj hut] at hu
      exact ⟨i, p, q, t, hp, hq, hu, Option.some.inj ho⟩
    · exact absurd ho (by simp)
  · rintro ⟨i, p, q, t, hp, hq, ht, ho⟩
    refine ⟨(some t, i), List.mem_zipIdx_iff_getElem?.mpr ?_, ?_⟩
    · rw [List.getElem?_map, ht, Option.map_some]
    · rw [takesAt?] at hp hq
      simp only [List.length_map, hp, hq, ho]

/-- **More specific is what is nowhere worse and somewhere better.** -/
theorem moreSpecific_iff {a b : CompiledMethod} {args : List TypeInfo} :
    c.moreSpecific a b (args.map some) = true ↔
      (∃ i, c.ComparesAt a b args i .lt) ∧ ∀ i, ¬c.ComparesAt a b args i .gt := by
  rw [moreSpecific, Bool.and_eq_true, Bool.not_eq_true', List.contains_iff_mem, mem_preferences,
    ← Bool.not_eq_true, List.contains_iff_mem, mem_preferences, not_exists]

theorem prefer_of_name_eq {p q t : TypeInfo} (h : p.name = q.name) : c.prefer p q t = .eq := by
  rw [prefer, if_pos (beq_iff_eq.mpr h)]

/-- A parameter of the type of the argument is better than any other. -/
theorem prefer_exact {p q t : TypeInfo} (hp : p.name = t.name) (hq : q.name ≠ t.name) :
    c.prefer p q t = .lt ∧ c.prefer q p t = .gt := by
  have hpq : p.name ≠ q.name := fun h => hq (h ▸ hp)
  constructor
  · rw [prefer, if_neg (by simpa using hpq), if_pos (by simpa using hp)]
  · rw [prefer, if_neg (by simpa using hpq.symm), if_neg (by simpa using hq),
      if_pos (by simpa using hp)]

theorem not_moreSpecific_self (m : CompiledMethod) (args : List TypeInfo) :
    c.moreSpecific m m (args.map some) = false := by
  rw [← Bool.not_eq_true, moreSpecific_iff]
  rintro ⟨⟨i, p, q, t, hp, hq, -, ho⟩, -⟩
  rw [hp] at hq
  rw [prefer_of_name_eq (by rw [Option.some.inj hq])] at ho
  exact absurd ho (by decide)

/-- Every argument is taken by a parameter of the same type. -/
def TakesExactly (c : Codebase) (m : CompiledMethod) (args : List TypeInfo) : Prop :=
  ∀ i t, args[i]? = some t → ∃ p, c.takesAt? m args.length i = some p ∧ p.name = t.name

/-- At every argument the method that takes it exactly is preferred, unless the other one does so,
too. -/
theorem prefer_of_takesExactly {a : CompiledMethod} {args : List TypeInfo} (ha : c.TakesExactly a args)
    {i : Nat} {p q t : TypeInfo} (hp : c.takesAt? a args.length i = some p) (ht : args[i]? = some t) :
    c.prefer p q t = .lt ∧ c.prefer q p t = .gt ∧ q.name ≠ t.name ∨
      c.prefer p q t = .eq ∧ c.prefer q p t = .eq ∧ q.name = t.name := by
  obtain ⟨p', hp', hname⟩ := ha i t ht
  have hname : p.name = t.name := by rwa [Option.some.inj (hp.symm.trans hp')]
  by_cases hqt : q.name = t.name
  · exact Or.inr ⟨prefer_of_name_eq (hname.trans hqt.symm), prefer_of_name_eq (hqt.trans hname.symm), hqt⟩
  · exact Or.inl ⟨(prefer_exact hname hqt).1, (prefer_exact hname hqt).2, hqt⟩

/-- Nothing is more specific than a method with exactly the types of the arguments. -/
theorem not_moreSpecific_of_takesExactly {a : CompiledMethod} {args : List TypeInfo}
    (ha : c.TakesExactly a args) (b : CompiledMethod) :
    c.moreSpecific b a (args.map some) = false := by
  rw [← Bool.not_eq_true, moreSpecific_iff]
  rintro ⟨⟨i, q, p, t, hq, hp, ht, ho⟩, -⟩
  rcases prefer_of_takesExactly (q := q) ha hp ht with ⟨-, h, -⟩ | ⟨-, h, -⟩
  · exact absurd (h.symm.trans ho) (by decide)
  · exact absurd (h.symm.trans ho) (by decide)

/-- **A method with exactly the types of the arguments beats all others** whose parameters take them. -/
theorem moreSpecific_iff_of_takesExactly {a b : CompiledMethod} {args : List TypeInfo}
    (ha : c.TakesExactly a args)
    (hb : ∀ i, i < args.length → ∃ q, c.takesAt? b args.length i = some q) :
    c.moreSpecific a b (args.map some) = true ↔ ¬c.TakesExactly b args := by
  rw [moreSpecific_iff]
  constructor
  · rintro ⟨⟨i, p, q, t, hp, hq, ht, ho⟩, -⟩ hb'
    obtain ⟨q', hq', hname⟩ := hb' i t ht
    rw [Option.some.inj (hq'.symm.trans hq)] at hname
    rcases prefer_of_takesExactly (q := q) ha hp ht with ⟨-, -, hne⟩ | ⟨h, -, -⟩
    · exact hne hname
    · exact absurd (h.symm.trans ho) (by decide)
  · intro hb'
    simp only [TakesExactly, not_forall] at hb'
    obtain ⟨i, t, ht, hne⟩ := hb'
    obtain ⟨hlt, -⟩ := List.getElem?_eq_some_iff.mp ht
    obtain ⟨q, hq⟩ := hb i hlt
    obtain ⟨p, hp, -⟩ := ha i t ht
    refine ⟨⟨i, p, q, t, hp, hq, ht, ?_⟩, ?_⟩
    · rcases prefer_of_takesExactly (q := q) ha hp ht with ⟨h, -, -⟩ | ⟨-, -, h⟩
      · exact h
      · exact absurd ⟨q, hq, h⟩ hne
    · rintro j ⟨p, q, t, hp, hq, ht, ho⟩
      rcases prefer_of_takesExactly (q := q) ha hp ht with ⟨h, -, -⟩ | ⟨h, -, -⟩
      · exact absurd (h.symm.trans ho) (by decide)
      · exact absurd (h.symm.trans ho) (by decide)

/-! ## The candidates that are not beaten -/

/-- The candidates that no other one is more specific than. -/
def unbeaten (c : Codebase) (ks : List CompiledCandidate) (args : List Argument) :
    List CompiledCandidate :=
  ks.filter fun k => ks.all fun l => !c.moreSpecific l.method k.method args

theorem mem_unbeaten {ks : List CompiledCandidate} {args : List Argument} {k : CompiledCandidate} :
    k ∈ c.unbeaten ks args ↔
      k ∈ ks ∧ ∀ l ∈ ks, c.moreSpecific l.method k.method args = false := by
  simp [unbeaten, List.mem_filter, List.all_eq_true]

theorem mostSpecific_eq_unbeaten (ks : List CompiledCandidate) (args : List TypeInfo) :
    c.mostSpecific ks (args.map some) = c.unbeaten ks (args.map some) := by
  have hsame : ∀ x ∈ ks.zipIdx,
      (ks.zipIdx.all fun y => x.2 == y.2 || !c.moreSpecific y.1.method x.1.method (args.map some)) =
        ks.all fun l => !c.moreSpecific l.method x.1.method (args.map some) := by
    rintro ⟨k, i⟩ hk
    rw [Bool.eq_iff_iff, List.all_eq_true, List.all_eq_true]
    constructor
    · intro h l hl
      obtain ⟨j, hj⟩ := List.mem_iff_getElem?.mp hl
      have hlj := h (l, j) (List.mem_zipIdx_iff_getElem?.mpr hj)
      rcases Bool.or_eq_true_iff.mp hlj with hij | hlj
      · -- at its own position stands the candidate itself
        have hkl : some k = some l := by
          rw [← List.mem_zipIdx_iff_getElem?.mp hk, ← hj, beq_iff_eq.mp hij]
        rw [← Option.some.inj hkl, not_moreSpecific_self]
        rfl
      · exact hlj
    · rintro h ⟨l, j⟩ hl
      simp only [h l (List.fst_mem_of_mem_zipIdx hl), Bool.or_true]
  rw [mostSpecific, List.filter_congr hsame, unbeaten]
  conv_rhs => rw [← List.zipIdx_map_fst 0 ks, List.filter_map]
  rw [List.zipIdx_map_fst]
  rfl

/-! ## The choice -/

/-- The choice of `selectCompiled?` among given candidates. -/
def selectAmong? (c : Codebase) (ks : List CompiledCandidate) (args : List Argument) :
    Option CompiledCandidate :=
  match ks with
  | [] => none
  | [k] => some k
  | ks =>
    match ks.filter fun k => c.compiledApplicable k.method args with
    | [] => none
    | [k] => some k
    | ks =>
      if args.any Option.isNone then none
      else
        match c.mostSpecific ks args with
        | [k] => some k
        | _ => none

theorem selectCompiled?_eq_selectAmong? (start : TypeInfo) (name : String) (args : List Argument) :
    c.selectCompiled? start name args = c.selectAmong? (c.compiledCandidates start name) args := rfl

theorem unbeaten_singleton (k : CompiledCandidate) (args : List TypeInfo) :
    c.unbeaten [k] (args.map some) = [k] := by
  rw [unbeaten, List.filter_cons_of_pos, List.filter_nil]
  rw [List.all_cons, not_moreSpecific_self]
  rfl

/-- **The choice by the number of candidates**: a single one is taken as it is. -/
theorem selectAmong?_eq (ks : List CompiledCandidate) (args : List TypeInfo) :
    c.selectAmong? ks (args.map some) =
      if ks.length ≤ 1 then only? ks else only?
        (c.unbeaten (ks.filter fun k => c.compiledApplicable k.method (args.map some))
          (args.map some)) := by
  have hnone : (args.map some).any Option.isNone = false := by simp
  match ks with
  | [] => rfl
  | [k] => rfl
  | k :: l :: ks =>
    rw [selectAmong?.eq_def, if_neg (by simp)]
    simp only
    generalize (k :: l :: ks).filter (fun k => c.compiledApplicable k.method (args.map some)) = as
    match as with
    | [] => rfl
    | [a] =>
      rw [unbeaten_singleton]
      rfl
    | a :: b :: as =>
      simp only [hnone, mostSpecific_eq_unbeaten, Bool.false_eq_true, if_false]
      cases c.unbeaten (a :: b :: as) (args.map some) with
      | nil => rfl
      | cons d ds => cases ds <;> rfl

/-- **The choice is the only unbeaten candidate among those that are applicable**, if there are any. -/
theorem selectAmong?_eq_only? {ks : List CompiledCandidate} {args : List TypeInfo}
    (h : ∃ k ∈ ks, c.compiledApplicable k.method (args.map some) = true) :
    c.selectAmong? ks (args.map some) = only?
      (c.unbeaten (ks.filter fun k => c.compiledApplicable k.method (args.map some))
        (args.map some)) := by
  obtain ⟨k, hk, happ⟩ := h
  rw [selectAmong?_eq]
  split
  · next hle =>
    obtain rfl : ks = [k] := by
      have hlen : ks.length = 1 := Nat.le_antisymm hle (List.length_pos_of_mem hk)
      obtain ⟨a, rfl⟩ := List.length_eq_one_iff.mp hlen
      rw [List.mem_singleton.mp hk]
    have hfilter : ([k].filter fun k => c.compiledApplicable k.method (args.map some)) = [k] :=
      List.filter_eq_self.mpr fun a ha => List.mem_singleton.mp ha ▸ happ
    rw [hfilter, unbeaten_singleton]
  · rfl

/-! ## Candidates have different parameters -/

theorem mem_of_mem_distinctCompiled {seen : List (List String)} {ks : List CompiledCandidate}
    {k : CompiledCandidate} (hk : k ∈ distinctCompiled seen ks) :
    k ∈ ks ∧ k.method.params ∉ seen := by
  induction ks generalizing seen with
  | nil => exact absurd hk List.not_mem_nil
  | cons l ks ih =>
    rw [distinctCompiled] at hk
    split at hk
    · exact ⟨List.mem_cons_of_mem _ (ih hk).1, (ih hk).2⟩
    · next hl =>
      rcases List.mem_cons.mp hk with rfl | hk
      · exact ⟨List.mem_cons_self, by simpa using hl⟩
      · exact ⟨List.mem_cons_of_mem _ (ih hk).1,
          fun h => (ih hk).2 (List.mem_cons_of_mem _ h)⟩

theorem nodup_params_distinctCompiled (seen : List (List String)) (ks : List CompiledCandidate) :
    ((distinctCompiled seen ks).map fun k => k.method.params).Nodup := by
  induction ks generalizing seen with
  | nil => exact List.nodup_nil
  | cons l ks ih =>
    rw [distinctCompiled]
    split
    · exact ih seen
    · rw [List.map_cons, List.nodup_cons]
      refine ⟨fun hmem => ?_, ih _⟩
      obtain ⟨k, hk, hparams⟩ := List.mem_map.mp hmem
      exact (mem_of_mem_distinctCompiled hk).2 (hparams ▸ List.mem_cons_self)

theorem nodup_compiledCandidates (start : TypeInfo) (name : String) :
    (c.compiledCandidates start name).Nodup :=
  (nodup_params_distinctCompiled _ _).of_map _

/-- **Candidates with the same parameters are the same.** -/
theorem eq_of_params_eq {start : TypeInfo} {name : String} {k l : CompiledCandidate}
    (hk : k ∈ c.compiledCandidates start name) (hl : l ∈ c.compiledCandidates start name)
    (h : k.method.params = l.method.params) : k = l :=
  List.inj_on_of_nodup_map (nodup_params_distinctCompiled _ _) hk hl h

end Codebase

end JavaCallGraph

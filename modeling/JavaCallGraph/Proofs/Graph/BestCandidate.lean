import JavaCallGraph.Proofs.Distance
import JavaCallGraph.Proofs.Graph.Unambiguous
import Mathlib.Data.List.Lex
import Mathlib.Data.Prod.Lex
import Mathlib.Order.Compare
import Mathlib.Order.WithBot

/-!
# The best candidate is the first with the least keys

`Codebase.pickBest?` compares candidates by a cascade over pairs of positions and keeps them in a ranked
list.  The cascade is the lexicographic order of key vectors: per position whether the parameter is not
of the expected name, whether it is a type variable, and how far up the hierarchy it lies, where what
cannot be reached is infinitely far.  Hence it is a total preorder, and what the ranking leaves on top is
the first candidate with the least vector.

* `Fit.compareAll_compares` — the cascade is a lexicographic order.
* `Codebase.exists_firstLeast` — a ranking leaves the first of the least elements on top.
* `Codebase.pickBest?_picksFirst` — the main statement, `Codebase.PicksFirst`.
* `Codebase.exists_findIn?` — hence which method of a type an identity means.
-/

set_option autoImplicit false

namespace JavaCallGraph

/-- What a parameter is judged by: whether it has another name than expected, whether it is a type
variable, and the distance to it. -/
abbrev FitKey : Type := Bool ×ₗ Bool ×ₗ WithTop Nat

namespace Fit

/-- A distance; there is no way to what is infinitely far. -/
def reach (d : Option Nat) : WithTop Nat :=
  d.elim ⊤ WithTop.some

/-- The three criteria as one value. -/
def key (f : Fit) : FitKey :=
  toLex (f.inexact, toLex (f.isVariable, reach f.distance))

/-- The key of a parameter of the expected type. -/
def exactKey : FitKey := toLex (false, toLex (false, reach (some 0)))

/-- Nothing is better than the expected type. -/
theorem exactKey_le (k : FitKey) : exactKey ≤ k := by
  have hbot : exactKey = (⊥ : FitKey) := rfl
  exact hbot ▸ bot_le

/-! ## The cascade is a lexicographic order -/

theorem then_compares_toLex {α β : Type} [Preorder α] [Preorder β] {o o' : Ordering} {a a' : α} {b b' : β}
    (h : o.Compares a a') (h' : o'.Compares b b') :
    (o.then o').Compares (toLex (a, b)) (toLex (a', b')) := by
  cases o with
  | lt => exact Prod.Lex.toLex_lt_toLex.mpr (Or.inl h)
  | gt => exact Prod.Lex.toLex_lt_toLex.mpr (Or.inl h)
  | eq =>
    obtain rfl : a = a' := h
    cases o' with
    | lt => exact Prod.Lex.toLex_lt_toLex.mpr (Or.inr ⟨rfl, h'⟩)
    | gt => exact Prod.Lex.toLex_lt_toLex.mpr (Or.inr ⟨rfl, h'⟩)
    | eq =>
      obtain rfl : b = b' := h'
      rfl

theorem then_compares_cons {α : Type} [LT α] {o o' : Ordering} {a b : α} {as bs : List α}
    (h : o.Compares a b) (h' : o'.Compares as bs) : (o.then o').Compares (a :: as) (b :: bs) := by
  cases o with
  | lt => exact List.cons_lt_cons_iff.mpr (Or.inl h)
  | gt => exact List.cons_lt_cons_iff.mpr (Or.inl h)
  | eq =>
    obtain rfl : a = b := h
    cases o' with
    | lt => exact List.cons_lt_cons_iff.mpr (Or.inr ⟨rfl, h'⟩)
    | gt => exact List.cons_lt_cons_iff.mpr (Or.inr ⟨rfl, h'⟩)
    | eq =>
      obtain rfl : as = bs := h'
      rfl

theorem compareFlags_compares (a b : Bool) : (compareFlags a b).Compares a b := by
  cases a <;> cases b <;> simp [compareFlags]

theorem compareDistances_compares (a b : Option Nat) :
    (compareDistances a b).Compares (reach a) (reach b) := by
  cases a with
  | none =>
    cases b with
    | none => rfl
    | some n => exact WithTop.coe_lt_top n
  | some m =>
    cases b with
    | none => exact WithTop.coe_lt_top m
    | some n =>
      have hmn : (Ord.compare m n).Compares m n := compare_iff m n |>.mp rfl
      rw [compareDistances]
      cases hcmp : Ord.compare m n <;> rw [hcmp] at hmn
      · exact WithTop.coe_lt_coe.mpr hmn
      · exact WithTop.coe_inj.mpr hmn
      · exact WithTop.coe_lt_coe.mpr hmn

theorem compare_compares (a b : Fit) : (a.compare b).Compares a.key b.key :=
  then_compares_toLex (compareFlags_compares _ _)
    (then_compares_toLex (compareFlags_compares _ _) (compareDistances_compares _ _))

/-- **The first position with a difference decides**, as in the order of vectors. -/
theorem compareAll_compares {as bs : List Fit} (hlen : as.length = bs.length) :
    (compareAll as bs).Compares (as.map key) (bs.map key) := by
  induction as generalizing bs with
  | nil =>
    rw [List.eq_nil_of_length_eq_zero hlen.symm]
    rfl
  | cons a as ih =>
    cases bs with
    | nil => exact absurd hlen (by simp)
    | cons b bs => exact then_compares_cons (compare_compares a b) (ih (Nat.succ.inj hlen))

end Fit

namespace Codebase

variable {c : Codebase}

/-! ## A ranking leaves the first least element on top -/

section FirstLeast

variable {α κ : Type} [LinearOrder κ]

/-- The first of the elements with the least key: those before it have a greater key, those behind it
no smaller one. -/
def FirstLeast (key : α → κ) (l : List α) (x : α) : Prop :=
  ∃ before after, l = before ++ x :: after ∧
    (∀ y ∈ before, key x < key y) ∧ ∀ y ∈ after, key x ≤ key y

variable {key : α → κ} {l : List α} {x y : α}

theorem FirstLeast.mem (h : FirstLeast key l x) : x ∈ l := by
  obtain ⟨before, after, rfl, -, -⟩ := h
  exact List.mem_append_right _ List.mem_cons_self

theorem FirstLeast.le (h : FirstLeast key l x) (hy : y ∈ l) : key x ≤ key y := by
  obtain ⟨before, after, rfl, hbefore, hafter⟩ := h
  rcases List.mem_append.mp hy with hy | hy
  · exact (hbefore y hy).le
  · rcases List.mem_cons.mp hy with rfl | hy
    · exact le_rfl
    · exact hafter y hy

theorem firstLeast_singleton (key : α → κ) (x : α) : FirstLeast key [x] x :=
  ⟨[], [], rfl, by simp, by simp⟩

theorem FirstLeast.concat (h : FirstLeast key l x) (hy : key x ≤ key y) :
    FirstLeast key (l ++ [y]) x := by
  obtain ⟨before, after, rfl, hbefore, hafter⟩ := h
  refine ⟨before, after ++ [y], by simp, hbefore, fun z hz => ?_⟩
  rcases List.mem_append.mp hz with hz | hz
  · exact hafter z hz
  · rwa [List.mem_singleton.mp hz]

/-- What is first in a list of images comes from what is first in the list. -/
theorem FirstLeast.of_map {β : Type} {f : β → α} {l : List β} (h : FirstLeast key (l.map f) x) :
    ∃ y, f y = x ∧ FirstLeast (fun y => key (f y)) l y := by
  obtain ⟨before, after, hl, hbefore, hafter⟩ := h
  obtain ⟨before, rest, rfl, rfl, hrest⟩ := List.map_eq_append_iff.mp hl
  obtain ⟨y, after, rfl, rfl, rfl⟩ := List.map_eq_cons_iff.mp hrest
  exact ⟨y, rfl, before, after, rfl, fun z hz => hbefore _ (List.mem_map_of_mem hz),
    fun z hz => hafter _ (List.mem_map_of_mem hz)⟩

/-- **A ranking leaves the first least element on top.**  The induction is on the elements from the
last one on, as the ranking takes them up one after the other. -/
theorem exists_firstLeast {compare : α → α → Ordering} (hl : l ≠ [])
    (hcmp : ∀ x ∈ l, ∀ y ∈ l, (compare x y).Compares (key x) (key y)) :
    ∃ x, (l.foldl (fun done k => rank compare k done) []).getLast? = some x ∧
      FirstLeast key l x := by
  induction l using List.reverseRecOn with
  | nil => exact absurd rfl hl
  | append_singleton l y ih =>
    rw [List.foldl_concat]
    by_cases hnil : l = []
    · subst hnil
      exact ⟨y, rfl, firstLeast_singleton key y⟩
    · obtain ⟨x, hlast, hx⟩ := ih hnil fun x hx z hz =>
        hcmp x (List.mem_append_left _ hx) z (List.mem_append_left _ hz)
      have hcmpy : ∀ z ∈ l, (compare y z).Compares (key y) (key z) := fun z hz =>
        hcmp y (List.mem_append_right _ List.mem_cons_self) z (List.mem_append_left _ hz)
      by_cases hlt : key y < key x
      · refine ⟨y, ?_, l, [], rfl, fun z hz => hlt.trans_le (hx.le hz), by simp⟩
        rw [rank_eq_append, List.getLast?_concat]
        intro z hz
        have hzl : z ∈ l := (mem_foldl_rank compare hz).resolve_right List.not_mem_nil
        exact (hcmpy z hzl).eq_lt.mpr (hlt.trans_le (hx.le hzl))
      · exact ⟨x, getLast?_rank compare hlast (mt (hcmpy x hx.mem).eq_lt.mp hlt),
          hx.concat (not_lt.mp hlt)⟩

end FirstLeast

/-! ## Candidates by their keys -/

/-- What a parameter is judged by where a type of the given name is expected. -/
def keyFor (c : Codebase) (p : TypeInfo) (expected : String) : FitKey :=
  toLex (p.name != expected,
    toLex (p.isVariable, Fit.reach (c.distance? (c.typeInfo expected) p.name)))

/-- What a candidate is judged by, position by position. -/
def keysOf (c : Codebase) (expected : List String) (m : MethodRef) : List FitKey :=
  (c.paramTypes m).zipWith c.keyFor expected

/-- How two candidates compare for the named parameter types. -/
def compareFor (c : Codebase) (expected : List String) (m k : MethodRef) : Ordering :=
  Fit.compareAll (c.fitsOf (expected.map c.typeInfo) m) (c.fitsOf (expected.map c.typeInfo) k)

/-- All parameters have the expected names, and none is a type variable. -/
def ExactlyNamed (c : Codebase) (expected : List String) (m : MethodRef) : Prop :=
  (c.paramTypes m).map TypeInfo.name = expected ∧ ∀ p ∈ c.paramTypes m, p.isVariable = false

variable {expected : List String} {ms : List MethodRef} {m k : MethodRef}

theorem map_key_fitsOf (m : MethodRef) :
    (c.fitsOf (expected.map c.typeInfo) m).map Fit.key = c.keysOf expected m := by
  rw [fitsOf, keysOf, List.zipWith_map_right, List.map_zipWith]
  simp only [fit, Fit.key, name_typeInfo]
  rfl

theorem length_fitsOf (hm : (c.paramTypes m).length = expected.length) :
    (c.fitsOf (expected.map c.typeInfo) m).length = expected.length := by
  rw [fitsOf, List.length_zipWith, List.length_map, hm, Nat.min_self]

/-- **Candidates compare as their keys do.** -/
theorem compareFor_compares (hm : (c.paramTypes m).length = expected.length)
    (hk : (c.paramTypes k).length = expected.length) :
    (c.compareFor expected m k).Compares (c.keysOf expected m) (c.keysOf expected k) := by
  have h := Fit.compareAll_compares ((length_fitsOf (c := c) hm).trans (length_fitsOf hk).symm)
  rwa [map_key_fitsOf, map_key_fitsOf] at h

/-- No step leads to a type of the expected name. -/
theorem keyFor_eq_exactKey_iff {p : TypeInfo} {e : String} :
    c.keyFor p e = Fit.exactKey ↔ p.name = e ∧ p.isVariable = false := by
  rw [keyFor, Fit.exactKey, toLex_inj, Prod.mk.injEq, toLex_inj, Prod.mk.injEq, bne_eq_false_iff_eq]
  constructor
  · exact fun h => ⟨h.1, h.2.1⟩
  · rintro ⟨hname, hvar⟩
    refine ⟨hname, hvar, congrArg _ (distance?_eq_zero_iff.mpr ?_)⟩
    rw [name_typeInfo, hname]

theorem zipWith_keyFor_eq_replicate_iff {ps : List TypeInfo} {es : List String}
    (hlen : ps.length = es.length) :
    ps.zipWith c.keyFor es = List.replicate es.length Fit.exactKey ↔
      ps.map TypeInfo.name = es ∧ ∀ p ∈ ps, p.isVariable = false := by
  induction ps generalizing es with
  | nil => simp [List.eq_nil_of_length_eq_zero hlen.symm]
  | cons p ps ih =>
    cases es with
    | nil => exact absurd hlen (by simp)
    | cons e es =>
      rw [List.zipWith_cons_cons, List.length_cons, List.replicate_succ, List.cons.injEq,
        keyFor_eq_exactKey_iff, ih (Nat.succ.inj hlen), List.map_cons, List.cons.injEq,
        List.forall_mem_cons]
      tauto

theorem replicate_le {κ : Type} [LinearOrder κ] {a : κ} (h : ∀ k, a ≤ k) (ks : List κ) :
    List.replicate ks.length a ≤ ks := by
  induction ks with
  | nil => exact le_rfl
  | cons k ks ih =>
    rw [List.length_cons, List.replicate_succ]
    rcases eq_or_ne a k with rfl | hne
    · exact List.cons_le_cons a ih
    · exact (List.cons_lt_cons_iff.mpr (Or.inl (lt_of_le_of_ne (h k) hne))).le

/-- The exactly named candidates have smaller keys than all others. -/
theorem keysOf_lt_of_exactlyNamed (hk : (c.paramTypes k).length = expected.length)
    (hexact : c.ExactlyNamed expected m) (hother : ¬c.ExactlyNamed expected k) :
    c.keysOf expected m < c.keysOf expected k := by
  have hm : (c.paramTypes m).length = expected.length := by
    rw [← hexact.1, List.length_map]
  have hlen : (c.keysOf expected k).length = expected.length := by
    rw [keysOf, List.length_zipWith, hk, Nat.min_self]
  have hleast : c.keysOf expected m = List.replicate expected.length Fit.exactKey :=
    (zipWith_keyFor_eq_replicate_iff hm).mpr hexact
  rw [hleast]
  refine lt_of_le_of_ne ?_ fun he => hother ((zipWith_keyFor_eq_replicate_iff hk).mp he.symm)
  rw [← hlen]
  exact replicate_le Fit.exactKey_le _

/-! ## The best candidate -/

/-- **Which candidate is the best.** -/
structure PicksFirst (c : Codebase) (expected : List String) (ms : List MethodRef) : Prop where
  /-- Of two candidates one is not worse than the other. -/
  total : ∀ m ∈ ms, ∀ k ∈ ms, c.compareFor expected m k ≠ .gt ∨ c.compareFor expected k m ≠ .gt
  /-- Being not worse goes on from candidate to candidate. -/
  trans : ∀ m ∈ ms, ∀ k ∈ ms, ∀ l ∈ ms, c.compareFor expected m k ≠ .gt →
    c.compareFor expected k l ≠ .gt → c.compareFor expected m l ≠ .gt
  /-- The comparison is the same from both sides. -/
  swap : ∀ m ∈ ms, ∀ k ∈ ms, c.compareFor expected k m = (c.compareFor expected m k).swap
  /-- It is the order of the keys, in which the first position with a difference decides. -/
  lexicographic : ∀ m ∈ ms, ∀ k ∈ ms,
    (c.compareFor expected m k).Compares (c.keysOf expected m) (c.keysOf expected k)
  /-- The first candidate with the least keys is taken. -/
  first : ∃ m, c.pickBest? ms expected = some m ∧ FirstLeast (c.keysOf expected) ms m
  /-- In another order of the candidates it has the same keys. -/
  permuted : ∀ ms', ms'.Perm ms → ∃ m m', c.pickBest? ms expected = some m ∧
    c.pickBest? ms' expected = some m' ∧ c.keysOf expected m' = c.keysOf expected m
  /-- A candidate with the expected parameters is better than one without. -/
  exact : ∀ m ∈ ms, c.ExactlyNamed expected m → ∀ k ∈ ms, ¬c.ExactlyNamed expected k →
    c.compareFor expected m k = .lt ∧ c.pickBest? ms expected ≠ some k

/-- The best candidate is the first with the least keys. -/
theorem exists_pickBest? (hms : ms ≠ [])
    (hlen : ∀ m ∈ ms, (c.paramTypes m).length = expected.length) :
    ∃ m, c.pickBest? ms expected = some m ∧ FirstLeast (c.keysOf expected) ms m := by
  have hcompares : ∀ x ∈ ms.map fun m => (m, c.fitsOf (expected.map c.typeInfo) m),
      ∀ y ∈ ms.map fun m => (m, c.fitsOf (expected.map c.typeInfo) m),
        (Fit.compareAll x.2 y.2).Compares (c.keysOf expected x.1) (c.keysOf expected y.1) := by
    simp only [List.forall_mem_map]
    exact fun m hm k hk => compareFor_compares (hlen m hm) (hlen k hk)
  obtain ⟨x, hlast, hx⟩ := exists_firstLeast (by simpa using hms) hcompares
  obtain ⟨m, rfl, hm⟩ := hx.of_map
  exact ⟨m, by rw [pickBest?, hlast, Option.map_some], hm⟩

/-- **Which method of a type an identity means**: the first with the least keys of those that answer to
it, which have as many parameters as it names. -/
theorem exists_findIn? {t : TypeId} {id : MethodId} (h : c.candidatesIn t id ≠ []) :
    ∃ m, c.findIn? t id = some m ∧ FirstLeast (c.keysOf id.params) (c.candidatesIn t id) m := by
  have hpick := exists_pickBest? h fun m hm => length_paramTypes_of_mem_candidatesIn hm
  rw [findIn?]
  split
  · next hnil => exact absurd hnil h
  · next m hm => exact ⟨m, rfl, hm ▸ firstLeast_singleton _ m⟩
  · exact hpick

/-- **The first best candidate is taken**, if all have as many parameters as are expected. -/
theorem pickBest?_picksFirst (hms : ms ≠ [])
    (hlen : ∀ m ∈ ms, (c.paramTypes m).length = expected.length) : c.PicksFirst expected ms := by
  have hcompares : ∀ m ∈ ms, ∀ k ∈ ms,
      (c.compareFor expected m k).Compares (c.keysOf expected m) (c.keysOf expected k) :=
    fun m hm k hk => compareFor_compares (hlen m hm) (hlen k hk)
  have hswap : ∀ m ∈ ms, ∀ k ∈ ms,
      c.compareFor expected k m = (c.compareFor expected m k).swap := fun m hm k hk =>
    (hcompares k hk m hm).inj (Ordering.compares_swap.mpr (hcompares m hm k hk))
  obtain ⟨m, hpick, hm⟩ := exists_pickBest? hms hlen
  exact {
    total := fun m hm k hk => by
      rw [(hcompares m hm k hk).ne_gt, (hcompares k hk m hm).ne_gt]
      exact le_total _ _
    trans := fun m hm k hk l hl hmk hkl => by
      rw [(hcompares m hm k hk).ne_gt] at hmk
      rw [(hcompares k hk l hl).ne_gt] at hkl
      exact (hcompares m hm l hl).ne_gt.mpr (hmk.trans hkl)
    swap := hswap
    lexicographic := hcompares
    first := ⟨m, hpick, hm⟩
    permuted := fun ms' hperm => by
      have hms' : ms' ≠ [] := fun hnil => hms (List.nil_perm.mp (hnil ▸ hperm))
      obtain ⟨m', hpick', hm'⟩ := exists_pickBest? hms' fun k hk => hlen k (hperm.mem_iff.mp hk)
      refine ⟨m, m', hpick, hpick', le_antisymm ?_ ?_⟩
      · exact hm'.le (hperm.mem_iff.mpr hm.mem)
      · exact hm.le (hperm.mem_iff.mp hm'.mem)
    exact := fun e he hexact k hk hother => by
      have hlt := keysOf_lt_of_exactlyNamed (hlen k hk) hexact hother
      refine ⟨(hcompares e he k hk).eq_lt.mpr hlt, fun hbest => ?_⟩
      rw [hpick, Option.some.injEq] at hbest
      subst hbest
      exact absurd (hm.le he) (not_le_of_gt hlt) }

end Codebase

/-! ## Animals at home -/

namespace Sample

/-- A class and one below it, and a third one whose method takes a variable, something unknown or, two
times, the upper class. -/
def animals : Codebase :=
  { code with
    types := [classDecl "Animal" [] [], classDecl "Dog" [.simple "Animal"] [],
      classDecl "Home" []
        [{ unary "keep" (.simple "T") [] with typeParams := [⟨"T", []⟩] },
         unary "keep" (.simple "Ghost") [], unary "keep" (.simple "Animal") [],
         unary "keep" (.simple "Animal") []]] }

end Sample

namespace Codebase

/-- Of the methods that keep an animal the first one keeps a dog. -/
theorem pickBest?_picksFirst_sample :
    Sample.animals.pickBest? (Sample.animals.methodsOf ⟨2⟩) ["Dog"] = some ⟨⟨2⟩, 2⟩ ∧
      FirstLeast (Sample.animals.keysOf ["Dog"]) (Sample.animals.methodsOf ⟨2⟩) ⟨⟨2⟩, 2⟩ ∧
      ∃ m', Sample.animals.pickBest? (Sample.animals.methodsOf ⟨2⟩).reverse ["Dog"] = some m' ∧
        Sample.animals.keysOf ["Dog"] m' = Sample.animals.keysOf ["Dog"] ⟨⟨2⟩, 2⟩ := by
  have hpicks : Sample.animals.PicksFirst ["Dog"] (Sample.animals.methodsOf ⟨2⟩) :=
    pickBest?_picksFirst (by decide +kernel) (by decide +kernel)
  have hbest : Sample.animals.pickBest? (Sample.animals.methodsOf ⟨2⟩) ["Dog"] = some ⟨⟨2⟩, 2⟩ := by
    decide +kernel
  obtain ⟨m, hm, hfirst⟩ := hpicks.first
  obtain ⟨k, k', hk, hk', hkeys⟩ := hpicks.permuted _ (List.reverse_perm _)
  rw [hbest, Option.some.injEq] at hm hk
  subst hm hk
  exact ⟨hbest, hfirst, k', hk', hkeys⟩

end Codebase

end JavaCallGraph

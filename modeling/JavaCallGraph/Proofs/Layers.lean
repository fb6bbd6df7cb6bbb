import JavaCallGraph.Codebase.Layers
import Mathlib.Data.Finset.Card
import Mathlib.Data.Finset.SDiff
import Mathlib.Data.List.Nodup
import Mathlib.Logic.Relation
import Mathlib.Order.Bounds.Basic
import Mathlib.Tactic.Tauto

/-!
# A search by layers lists what can be reached

`Layers.layers` goes on for a given number of layers and never lists a key twice.  It lists everything
that can be reached if nothing is missing in the end, and if things of one key lead on to the same; for
the keys alone it is enough that nothing is missing behind any thing with a listed key.

* `Layers.Closed` — nothing is missing: whatever one step leads to has a key that was listed.
* `Layers.closed_of_weight_lt` — the budget suffices when it exceeds the weight of the keys that lead on.
  Only few things need to have such a key: those that lead to nothing but the root do not count.
* `Layers.layers_eq_of_closed` — a larger budget makes no difference then.
* `Layers.mem_map_key_iff` — the keys of a list without missing keys are those that can be reached.
* `Layers.findIdx?_layers_eq_some_iff` — the number of the layer in which a key is listed is the least
  number of steps to it.
-/

set_option autoImplicit false

namespace JavaCallGraph.Layers

variable {α : Type} {key : α → String} {next : α → List α}

/-! ## One layer -/

/-- Every key is seen in the end. -/
theorem mem_map_fresh_or {seen : List String} {as : List α} {k : String} :
    (k ∈ (fresh key seen as).map key ∨ k ∈ seen) ↔ (k ∈ as.map key ∨ k ∈ seen) := by
  induction as generalizing seen with
  | nil => rfl
  | cons a as ih =>
    rw [fresh]
    split
    · next ha =>
      rw [List.contains_iff_mem] at ha
      rw [ih, List.map_cons, List.mem_cons]
      constructor
      · rintro (h | h)
        · exact Or.inl (Or.inr h)
        · exact Or.inr h
      · rintro ((rfl | h) | h)
        · exact Or.inr ha
        · exact Or.inl h
        · exact Or.inr h
    · have hstep : (k ∈ (fresh key (key a :: seen) as).map key ∨ k ∈ key a :: seen) ↔
          (k ∈ as.map key ∨ k ∈ key a :: seen) := ih
      rw [List.mem_cons] at hstep
      rw [List.map_cons, List.map_cons, List.mem_cons, List.mem_cons]
      tauto

theorem key_mem_of_mem {seen : List String} {as : List α} {a : α} (h : a ∈ as) :
    key a ∈ seen ∨ key a ∈ (fresh key seen as).map key :=
  (mem_map_fresh_or.mpr (Or.inl (List.mem_map_of_mem h))).symm

theorem nodup_map_key_fresh (seen : List String) (as : List α) :
    ((fresh key seen as).map key).Nodup := by
  induction as generalizing seen with
  | nil => exact List.nodup_nil
  | cons b bs ih =>
    rw [fresh]
    split
    · exact ih seen
    · rw [List.map_cons, List.nodup_cons]
      refine ⟨fun hmem => ?_, ih _⟩
      obtain ⟨a, ha, hkey⟩ := List.mem_map.mp hmem
      exact key_notMem_of_mem_fresh ha (hkey ▸ List.mem_cons_self)

theorem fresh_eq_nil_of_forall {seen : List String} {as : List α} (h : ∀ a ∈ as, key a ∈ seen) :
    fresh key seen as = [] := by
  rw [List.eq_nil_iff_forall_not_mem]
  exact fun a ha => key_notMem_of_mem_fresh ha (h a (mem_of_mem_fresh ha))

/-- Only the elements of the list of seen keys matter. -/
theorem fresh_congr {seen seen' : List String} (h : ∀ k, k ∈ seen ↔ k ∈ seen') (as : List α) :
    fresh key seen as = fresh key seen' as := by
  induction as generalizing seen seen' with
  | nil => rfl
  | cons a as ih =>
    have hcons : ∀ k, k ∈ key a :: seen ↔ k ∈ key a :: seen' := fun k => by
      rw [List.mem_cons, List.mem_cons, h]
    have hcontains : seen.contains (key a) = seen'.contains (key a) := by
      rw [Bool.eq_iff_iff, List.contains_iff_mem, List.contains_iff_mem, h]
    rw [fresh, fresh, hcontains, ih h, ih hcons]

theorem fresh_append (seen : List String) (as bs : List α) :
    fresh key seen (as ++ bs) = fresh key seen as ++ fresh key (as.map key ++ seen) bs := by
  induction as generalizing seen with
  | nil => rfl
  | cons a as ih =>
    rw [List.cons_append, fresh, fresh]
    split
    · next ha =>
      rw [List.contains_iff_mem] at ha
      rw [ih]
      refine congrArg _ (fresh_congr (fun k => ?_) bs)
      rw [List.map_cons, List.cons_append, List.mem_cons, List.mem_append]
      constructor
      · exact Or.inr
      · rintro (rfl | hk)
        · exact Or.inr ha
        · exact hk
    · rw [ih, List.cons_append]
      refine congrArg (a :: ·) (congrArg _ (fresh_congr (fun k => ?_) bs))
      rw [List.map_cons, List.cons_append, List.mem_cons, List.mem_append, List.mem_append,
        List.mem_cons]
      tauto

/-- **The fresh elements are the first ones of their keys.** -/
theorem mem_fresh_iff {seen : List String} {as : List α} {a : α} :
    a ∈ fresh key seen as ↔ key a ∉ seen ∧ as.find? (fun b => key b == key a) = some a := by
  induction as generalizing seen with
  | nil => exact ⟨fun h => absurd h List.not_mem_nil, fun h => absurd h.2 (by simp)⟩
  | cons b as ih =>
    rw [fresh, List.find?_cons]
    by_cases hb : key b ∈ seen
    · rw [if_pos (List.contains_iff_mem.mpr hb), ih]
      refine and_congr_right fun ha => ?_
      have hne : (key b == key a) = false := beq_false_of_ne fun he => ha (he ▸ hb)
      rw [hne]
    · rw [if_neg fun h => hb (List.contains_iff_mem.mp h), List.mem_cons, ih]
      by_cases hk : key b = key a
      · rw [hk, beq_self_eq_true, Option.some.injEq]
        constructor
        · rintro (rfl | h)
          · exact ⟨hb, rfl⟩
          · exact absurd List.mem_cons_self h.1
        · rintro ⟨-, rfl⟩
          exact Or.inl rfl
      · rw [beq_false_of_ne hk, List.mem_cons, not_or]
        constructor
        · rintro (rfl | ⟨⟨-, ha⟩, hfind⟩)
          · exact absurd rfl hk
          · exact ⟨ha, hfind⟩
        · rintro ⟨ha, hfind⟩
          exact Or.inr ⟨⟨fun he => hk he.symm, ha⟩, hfind⟩

/-! ## All layers -/

theorem layers_of_still {seen : List String} {frontier : List α}
    (h : ∀ a ∈ frontier, ∀ b ∈ next a, key b ∈ seen) (n : Nat) :
    layers key next n seen frontier = [] := by
  have hfresh : fresh key seen (frontier.flatMap next) = [] := by
    refine fresh_eq_nil_of_forall fun b hb => ?_
    obtain ⟨a, ha, hab⟩ := List.mem_flatMap.mp hb
    exact h a ha b hab
  cases n with
  | zero => rfl
  | succ n => rw [layers, hfresh]

/-- The first layer, and what is behind it. -/
theorem flatten_layers_succ (n : Nat) (seen : List String) (frontier : List α) :
    (layers key next (n + 1) seen frontier).flatten =
      fresh key seen (frontier.flatMap next) ++
        (layers key next n ((fresh key seen (frontier.flatMap next)).map key ++ seen)
          (fresh key seen (frontier.flatMap next))).flatten := by
  rw [layers]
  split
  · next h =>
    rw [h, layers_of_still (fun a ha => absurd ha List.not_mem_nil)]
    rfl
  · next h => rw [h, List.flatten_cons]

/-- **No key is listed twice**, and none that was seen before. -/
theorem nodup_map_key (n : Nat) (seen : List String) (frontier : List α) :
    ((layers key next n seen frontier).flatten.map key).Nodup ∧
      ∀ a ∈ (layers key next n seen frontier).flatten, key a ∉ seen := by
  induction n generalizing seen frontier with
  | zero => exact ⟨List.nodup_nil, fun a ha => absurd ha List.not_mem_nil⟩
  | succ n ih =>
    rw [flatten_layers_succ]
    generalize hlayer : fresh key seen (frontier.flatMap next) = layer
    obtain ⟨hnodup, hnew⟩ := ih (layer.map key ++ seen) layer
    constructor
    · rw [List.map_append, List.nodup_append]
      refine ⟨hlayer ▸ nodup_map_key_fresh seen _, hnodup, fun k hk l hl heq => ?_⟩
      obtain ⟨a, ha, rfl⟩ := List.mem_map.mp hl
      exact hnew a ha (List.mem_append_left _ (heq ▸ hk))
    · intro a ha
      rcases List.mem_append.mp ha with ha | ha
      · rw [← hlayer] at ha
        exact key_notMem_of_mem_fresh ha
      · exact fun hseen => hnew a ha (List.mem_append_right _ hseen)

/-! ## Nothing is missing -/

/-- **Nothing is missing in the layers**: what one step leads to was seen or is listed. -/
def Closed (key : α → String) (next : α → List α) (n : Nat) (seen : List String)
    (frontier : List α) : Prop :=
  ∀ a ∈ frontier ++ (layers key next n seen frontier).flatten, ∀ b ∈ next a,
    key b ∈ seen ++ (layers key next n seen frontier).flatten.map key

theorem closed_of_still {seen : List String} {frontier : List α}
    (h : ∀ a ∈ frontier, ∀ b ∈ next a, key b ∈ seen) (n : Nat) :
    Closed key next n seen frontier := by
  rw [Closed, layers_of_still h, List.flatten_nil, List.append_nil, List.map_nil, List.append_nil]
  exact h

/-- Nothing is missing if nothing is missing behind the first layer. -/
theorem closed_succ_iff {n : Nat} {seen : List String} {frontier : List α} :
    Closed key next (n + 1) seen frontier ↔
      Closed key next n ((fresh key seen (frontier.flatMap next)).map key ++ seen)
        (fresh key seen (frontier.flatMap next)) := by
  have hfirst : ∀ a ∈ frontier, ∀ b ∈ next a,
      key b ∈ seen ∨ key b ∈ (fresh key seen (frontier.flatMap next)).map key :=
    fun a ha b hb => key_mem_of_mem (List.mem_flatMap.mpr ⟨a, ha, hb⟩)
  rw [Closed, Closed, flatten_layers_succ]
  generalize fresh key seen (frontier.flatMap next) = layer at hfirst ⊢
  simp only [List.mem_append, List.map_append]
  constructor
  · intro h a ha b hb
    have := h a (Or.inr ha) b hb
    tauto
  · intro h a ha b hb
    rcases ha with ha | ha
    · have := hfirst a ha b hb
      tauto
    · have := h a ha b hb
      tauto

/-- **A larger budget makes no difference** when nothing is missing. -/
theorem layers_eq_of_closed {n k : Nat} {seen : List String} {frontier : List α}
    (h : Closed key next n seen frontier) (hk : n ≤ k) :
    layers key next k seen frontier = layers key next n seen frontier := by
  induction n generalizing k seen frontier with
  | zero =>
    refine layers_of_still (fun a ha b hb => ?_) k
    simpa [layers] using h a (List.mem_append_left _ ha) b hb
  | succ n ih =>
    obtain ⟨k, rfl⟩ : ∃ j, k = j + 1 := ⟨k - 1, by omega⟩
    have hrest := closed_succ_iff.mp h
    rw [layers, layers]
    split
    · rfl
    · next hlayer =>
      rw [hlayer] at hrest
      rw [ih hrest (by omega)]

/-! ## How many layers there are -/

/-- The number of keys among `keys` that were not seen yet; a root that was not seen counts twice more. -/
def weight (keys : Finset String) (root : String) (seen : List String) : Nat :=
  (keys \ seen.toFinset).card + if root ∈ seen then 0 else 2

section Weight

variable {keys : Finset String} {root : String} {seen new : List String}

theorem sdiff_append_subset (keys : Finset String) (new seen : List String) :
    keys \ (new ++ seen).toFinset ⊆ keys \ seen.toFinset := by
  rw [List.toFinset_append]
  exact Finset.sdiff_subset_sdiff (Finset.Subset.refl _) Finset.subset_union_right

/-- A key that is seen for the first time counts no longer. -/
theorem weight_append_lt_of_key {k : String} (hk : k ∈ keys) (hnew : k ∈ new) (hseen : k ∉ seen) :
    weight keys root (new ++ seen) < weight keys root seen := by
  have hkeys : (keys \ (new ++ seen).toFinset).card < (keys \ seen.toFinset).card := by
    refine Finset.card_lt_card ⟨sdiff_append_subset keys new seen, fun hsub => ?_⟩
    have hmem := hsub (Finset.mem_sdiff.mpr ⟨hk, by simpa using hseen⟩)
    exact (Finset.mem_sdiff.mp hmem).2 (by simp [hnew])
  rw [weight, weight]
  by_cases hroot : root ∈ seen
  · simpa [hroot] using hkeys
  · rw [if_neg hroot]
    split <;> omega

theorem weight_append_add_two_le (hnew : root ∈ new) (hseen : root ∉ seen) :
    weight keys root (new ++ seen) + 2 ≤ weight keys root seen := by
  have hkeys := Finset.card_le_card (sdiff_append_subset keys new seen)
  rw [weight, weight, if_pos (List.mem_append_left _ hnew), if_neg hseen]
  omega

end Weight

/-- **The budget suffices** when it exceeds the weight.  What has none of the keys may lead to the root
only, and after the root was listed to nothing that is new. -/
theorem closed_of_weight_lt {keys : Finset String} {root : String} {P : α → Prop}
    (hdown : ∀ a, P a → ∀ b ∈ next a, P b)
    (hkeys : ∀ a, P a → key a ∈ keys ∨ ∀ b ∈ next a, key b = root) {n : Nat} :
    ∀ {seen : List String} {frontier : List α}, (∀ a ∈ frontier, P a) →
      weight keys root seen < n → Closed key next n seen frontier := by
  induction n using Nat.strong_induction_on with
  | _ n ih =>
    intro seen frontier hfrontier hn
    obtain ⟨n, rfl⟩ : ∃ k, n = k + 1 := ⟨n - 1, by omega⟩
    rw [closed_succ_iff]
    have hnew : ∀ a ∈ fresh key seen (frontier.flatMap next), P a ∧ key a ∉ seen := by
      intro a ha
      obtain ⟨b, hb, hab⟩ := List.mem_flatMap.mp (mem_of_mem_fresh ha)
      exact ⟨hdown b (hfrontier b hb) a hab, key_notMem_of_mem_fresh ha⟩
    generalize fresh key seen (frontier.flatMap next) = layer at hnew ⊢
    by_cases hkey : ∃ a ∈ layer, key a ∈ keys
    · obtain ⟨a, ha, hmem⟩ := hkey
      have hlt : weight keys root (layer.map key ++ seen) < weight keys root seen :=
        weight_append_lt_of_key hmem (List.mem_map_of_mem ha) (hnew a ha).2
      exact ih n (by omega) (fun b hb => (hnew b hb).1) (by omega)
    · -- the layer leads to nothing but the root
      have hroot : ∀ a ∈ layer, ∀ b ∈ next a, key b = root := fun a ha =>
        (hkeys a (hnew a ha).1).resolve_left fun hmem => hkey ⟨a, ha, hmem⟩
      by_cases hseen : root ∈ layer.map key ++ seen
      · exact closed_of_still (fun a ha b hb => hroot a ha b hb ▸ hseen) n
      · have htwo : 2 ≤ weight keys root seen := by
          rw [weight, if_neg fun h => hseen (List.mem_append_right _ h)]
          omega
        obtain ⟨n, rfl⟩ : ∃ k, n = k + 1 := ⟨n - 1, by omega⟩
        rw [closed_succ_iff]
        have hlast : ∀ b ∈ fresh key (layer.map key ++ seen) (layer.flatMap next),
            P b ∧ key b = root := by
          intro b hb
          obtain ⟨a, ha, hab⟩ := List.mem_flatMap.mp (mem_of_mem_fresh hb)
          exact ⟨hdown a (hnew a ha).1 b hab, hroot a ha b hab⟩
        generalize fresh key (layer.map key ++ seen) (layer.flatMap next) = last at hlast ⊢
        cases last with
        | nil => exact closed_of_still (fun a ha => absurd ha List.not_mem_nil) n
        | cons b last =>
          have hmem : root ∈ (b :: last).map key :=
            (hlast b List.mem_cons_self).2 ▸ List.mem_map_of_mem List.mem_cons_self
          have hle : weight keys root (((b :: last).map key ++ layer.map key) ++ seen) + 2 ≤
              weight keys root seen :=
            weight_append_add_two_le (List.mem_append_left _ hmem)
              (fun h => hseen (List.mem_append_right _ h))
          rw [List.append_assoc] at hle
          exact ih n (by omega) (fun d hd => (hlast d hd).1) (by omega)

/-! ## What can be reached -/

/-- One step leads from `a` to `b`. -/
def Leads (next : α → List α) (a b : α) : Prop := b ∈ next a

theorem transGen_of_mem_layers {n : Nat} {seen : List String} {frontier : List α} {b : α}
    (hb : b ∈ (layers key next n seen frontier).flatten) :
    ∃ a ∈ frontier, Relation.TransGen (Leads next) a b := by
  induction n generalizing seen frontier with
  | zero => exact absurd hb List.not_mem_nil
  | succ n ih =>
    rw [flatten_layers_succ] at hb
    have hfirst : ∀ d ∈ fresh key seen (frontier.flatMap next), ∃ a ∈ frontier, d ∈ next a :=
      fun d hd => List.mem_flatMap.mp (mem_of_mem_fresh hd)
    rcases List.mem_append.mp hb with hb | hb
    · obtain ⟨a, ha, hab⟩ := hfirst b hb
      exact ⟨a, ha, .single hab⟩
    · obtain ⟨d, hd, hdb⟩ := ih hb
      obtain ⟨a, ha, had⟩ := hfirst d hd
      exact ⟨a, ha, .head had hdb⟩

/-- **The keys of a list without missing keys are those that can be reached.**  Several things can have
one key, so nothing may be missing behind any thing that can be reached and has a listed key. -/
theorem mem_map_key_iff {start : α} {listed : List α}
    (hsound : ∀ a ∈ listed, Relation.TransGen (Leads next) start a)
    (hnew : key start ∉ listed.map key)
    (hclosed : ∀ a, Relation.ReflTransGen (Leads next) start a →
      key a ∈ (start :: listed).map key → ∀ b ∈ next a, key b ∈ (start :: listed).map key)
    {k : String} :
    k ∈ listed.map key ↔
      k ≠ key start ∧ ∃ a, Relation.TransGen (Leads next) start a ∧ key a = k := by
  constructor
  · intro hk
    refine ⟨fun heq => hnew (heq ▸ hk), ?_⟩
    obtain ⟨a, ha, rfl⟩ := List.mem_map.mp hk
    exact ⟨a, hsound a ha, rfl⟩
  · rintro ⟨hne, a, hpath, rfl⟩
    have hlisted : key a ∈ (start :: listed).map key := by
      clear hne
      induction hpath with
      | single hab => exact hclosed start .refl List.mem_cons_self _ hab
      | tail hpath hbd ih => exact hclosed _ hpath.to_reflTransGen ih _ hbd
    rw [List.map_cons] at hlisted
    exact (List.mem_cons.mp hlisted).resolve_left hne

/-! ## How many steps it takes -/

/-- `n` steps lead from `a` to `b`. -/
inductive LeadsIn (next : α → List α) : Nat → α → α → Prop
  | refl (a : α) : LeadsIn next 0 a a
  | tail {n : Nat} {a b d : α} (h : LeadsIn next n a b) (hd : d ∈ next b) : LeadsIn next (n + 1) a d

theorem LeadsIn.head {n : Nat} {a b d : α} (hb : b ∈ next a) (h : LeadsIn next n b d) :
    LeadsIn next (n + 1) a d := by
  induction h with
  | refl => exact .tail (.refl a) hb
  | tail _ hd ih => exact .tail (ih hb) hd

/-- More than no steps begin with one. -/
theorem leadsIn_succ_iff {n : Nat} {a d : α} :
    LeadsIn next (n + 1) a d ↔ ∃ b ∈ next a, LeadsIn next n b d := by
  constructor
  · intro h
    induction n generalizing d with
    | zero =>
      cases h with
      | tail h hd =>
        cases h
        exact ⟨d, hd, .refl d⟩
    | succ n ih =>
      cases h with
      | tail h hd =>
        obtain ⟨b, hb, hbd⟩ := ih h
        exact ⟨b, hb, .tail hbd hd⟩
  · rintro ⟨b, hb, h⟩
    exact h.head hb

theorem LeadsIn.reflTransGen {n : Nat} {a b : α} (h : LeadsIn next n a b) :
    Relation.ReflTransGen (Leads next) a b := by
  induction h with
  | refl => exact .refl
  | tail _ hd ih => exact ih.tail hd

/-- What is listed in a layer is as many steps away as the layers up to there are. -/
theorem leadsIn_of_mem_layer {n i : Nat} {seen : List String} {frontier l : List α} {b : α}
    (hl : (layers key next n seen frontier)[i]? = some l) (hb : b ∈ l) :
    ∃ a ∈ frontier, LeadsIn next (i + 1) a b := by
  induction n generalizing seen frontier i with
  | zero => exact absurd hl (by simp [layers])
  | succ n ih =>
    rw [layers] at hl
    split at hl
    · exact absurd hl (by simp)
    · next c cs hlayer =>
      have hfirst : ∀ d ∈ c :: cs, ∃ a ∈ frontier, d ∈ next a := fun d hd =>
        List.mem_flatMap.mp (mem_of_mem_fresh (hlayer ▸ hd))
      cases i with
      | zero =>
        rw [List.getElem?_cons_zero, Option.some.injEq] at hl
        obtain ⟨a, ha, hab⟩ := hfirst b (hl ▸ hb)
        exact ⟨a, ha, .tail (.refl a) hab⟩
      | succ i =>
        rw [List.getElem?_cons_succ] at hl
        obtain ⟨d, hd, hdb⟩ := ih hl
        obtain ⟨a, ha, had⟩ := hfirst d hd
        exact ⟨a, ha, hdb.head had⟩

/-- One step from a layer leads to the next one at most, if nothing is missing; the frontier counts as
the layer before the first. -/
theorem exists_layer_of_mem_next {n i : Nat} {seen : List String} {frontier l : List α}
    (hclosed : Closed key next n seen frontier)
    (hl : (frontier :: layers key next n seen frontier)[i]? = some l) {a b : α} (ha : a ∈ l)
    (hb : b ∈ next a) :
    key b ∈ seen ∨
      ∃ j ≤ i, ∃ m, (layers key next n seen frontier)[j]? = some m ∧ key b ∈ m.map key := by
  induction n generalizing seen frontier i with
  | zero =>
    have ha : a ∈ frontier := by
      cases i with
      | zero => exact (Option.some.inj hl) ▸ ha
      | succ i => exact absurd hl (by simp [layers])
    exact Or.inl (by simpa [layers] using hclosed a (List.mem_append_left _ ha) b hb)
  | succ n ih =>
    have hrest := closed_succ_iff.mp hclosed
    rw [layers] at hl ⊢
    generalize hlayer : fresh key seen (frontier.flatMap next) = layer at hl hrest ⊢
    have hfirst : ∀ a ∈ frontier, b ∈ next a → key b ∈ seen ∨ key b ∈ layer.map key := by
      intro a ha hb
      rw [← hlayer]
      exact key_mem_of_mem (List.mem_flatMap.mpr ⟨a, ha, hb⟩)
    cases i with
    | zero =>
      rw [List.getElem?_cons_zero, Option.some.injEq] at hl
      refine (hfirst a (hl ▸ ha) hb).imp_right fun hmem => ⟨0, Nat.le_refl _, layer, ?_, hmem⟩
      cases layer with
      | nil => exact absurd hmem List.not_mem_nil
      | cons c cs => rfl
    | succ i =>
      cases layer with
      | nil => exact absurd hl (by simp)
      | cons c cs =>
        rw [List.getElem?_cons_succ] at hl
        rcases ih hrest hl with hseen | ⟨j, hj, m, hm, hmem⟩
        · refine (List.mem_append.mp hseen).symm.imp_right fun hmem => ?_
          exact ⟨0, Nat.zero_le _, c :: cs, rfl, hmem⟩
        · exact Or.inr ⟨j + 1, Nat.succ_le_succ hj, m, hm, hmem⟩

section Distance

variable {n : Nat} {start : α} (hclosed : Closed key next n [key start] [start])
  (hsame : ∀ a b, Relation.ReflTransGen (Leads next) start a →
    Relation.ReflTransGen (Leads next) start b → key a = key b → next b ⊆ next a)

include hclosed hsame

/-- What some steps lead to is listed in a layer with a smaller number. -/
theorem exists_layer_of_leadsIn {m : Nat} {b : α} (h : LeadsIn next m start b)
    (hne : key b ≠ key start) :
    ∃ j < m, ∃ l, (layers key next n [key start] [start])[j]? = some l ∧ key b ∈ l.map key := by
  generalize ha : start = a at h
  induction h with
  | refl => exact absurd (congrArg key ha.symm) hne
  | @tail m a b d h hd ih =>
    subst ha
    -- a type of the key of `b` is in the frontier or in a layer, and it leads to `d` as well
    obtain ⟨i, hi, l, hl, a, hal, hkey⟩ : ∃ i ≤ m, ∃ l,
        ([start] :: layers key next n [key start] [start])[i]? = some l ∧ ∃ a ∈ l, key a = key b := by
      by_cases hb : key b = key start
      · exact ⟨0, Nat.zero_le _, [start], rfl, start, List.mem_singleton_self _, hb.symm⟩
      · obtain ⟨j, hj, l, hl, hmem⟩ := ih hb rfl
        obtain ⟨a, hal, hkey⟩ := List.mem_map.mp hmem
        exact ⟨j + 1, hj, l, hl, a, hal, hkey⟩
    have hreach : Relation.ReflTransGen (Leads next) start a := by
      cases i with
      | zero =>
        rw [List.getElem?_cons_zero, Option.some.injEq] at hl
        subst hl
        exact List.mem_singleton.mp hal ▸ .refl
      | succ i =>
        obtain ⟨s, hs, hsa⟩ := leadsIn_of_mem_layer hl hal
        rw [← List.mem_singleton.mp hs]
        exact hsa.reflTransGen
    have had := hsame a b hreach h.reflTransGen hkey hd
    rcases exists_layer_of_mem_next hclosed hl hal had with hseen | ⟨j, hj, l', hl', hmem⟩
    · exact absurd (List.mem_singleton.mp hseen) hne
    · exact ⟨j, by omega, l', hl', hmem⟩

/-- **The layer in which a key is listed counts the least number of steps to it.** -/
theorem findIdx?_layers_eq_some_iff {k : String} (hne : k ≠ key start) {i : Nat} :
    (layers key next n [key start] [start]).findIdx? (fun l => l.any fun a => key a == k) = some i ↔
      IsLeast {m | ∃ a, LeadsIn next m start a ∧ key a = k} (i + 1) := by
  have hsteps : ∀ m a, LeadsIn next m start a → key a = k →
      ∃ j < m, ∃ l, (layers key next n [key start] [start])[j]? = some l ∧
        (l.any fun a => key a == k) = true := by
    intro m a ha hk
    obtain ⟨j, hj, l, hl, hmem⟩ := exists_layer_of_leadsIn hclosed hsame ha (hk ▸ hne)
    obtain ⟨b, hb, hkey⟩ := List.mem_map.mp hmem
    exact ⟨j, hj, l, hl, List.any_eq_true.mpr ⟨b, hb, beq_iff_eq.mpr (hkey.trans hk)⟩⟩
  have hleast : ∀ i, (layers key next n [key start] [start]).findIdx?
      (fun l => l.any fun a => key a == k) = some i →
        IsLeast {m | ∃ a, LeadsIn next m start a ∧ key a = k} (i + 1) := by
    intro i hi
    obtain ⟨hlt, hany, hbefore⟩ := List.findIdx?_eq_some_iff_getElem.mp hi
    constructor
    · obtain ⟨a, ha, hk⟩ := List.any_eq_true.mp hany
      obtain ⟨s, hs, hsa⟩ := leadsIn_of_mem_layer (List.getElem?_eq_getElem hlt) ha
      exact ⟨a, List.mem_singleton.mp hs ▸ hsa, beq_iff_eq.mp hk⟩
    · rintro m ⟨a, ha, hk⟩
      obtain ⟨j, hj, l, hl, hl'⟩ := hsteps m a ha hk
      obtain ⟨hjlt, rfl⟩ := List.getElem?_eq_some_iff.mp hl
      by_contra hm
      exact hbefore j (by omega) hl'
  refine ⟨hleast i, fun h => ?_⟩
  obtain ⟨a, ha, hk⟩ := h.1
  obtain ⟨j, -, l, hl, hl'⟩ := hsteps _ a ha hk
  cases hfind : (layers key next n [key start] [start]).findIdx? fun l => l.any fun a => key a == k with
  | none =>
    exact absurd hl' (Bool.eq_false_iff.mp
      (List.findIdx?_eq_none_iff.mp hfind l (List.mem_of_getElem? hl)))
  | some d => exact congrArg some (Nat.succ_injective ((hleast d hfind).unique h))

end Distance

/-! ## The same search elsewhere -/

section Map

variable {β : Type} {key' : β → String} {next' : β → List β} {f : α → β}

theorem fresh_map (hkey : ∀ a, key' (f a) = key a) (seen : List String) (as : List α) :
    fresh key' seen (as.map f) = (fresh key seen as).map f := by
  induction as generalizing seen with
  | nil => rfl
  | cons a as ih =>
    rw [List.map_cons, fresh, fresh, hkey]
    split
    · exact ih seen
    · rw [List.map_cons, ih]

/-- **A map that keeps keys and next elements keeps the layers.** -/
theorem layers_map (hkey : ∀ a, key' (f a) = key a) (hnext : ∀ a, next' (f a) = (next a).map f)
    (n : Nat) (seen : List String) (frontier : List α) :
    layers key' next' n seen (frontier.map f) = (layers key next n seen frontier).map (List.map f) := by
  induction n generalizing seen frontier with
  | zero => rfl
  | succ n ih =>
    have hflat : (frontier.map f).flatMap next' = (frontier.flatMap next).map f := by
      rw [List.flatMap_map, List.map_flatMap]
      exact congrArg (List.flatMap · _) (funext hnext)
    have hkeys : ∀ as : List α, (as.map f).map key' = as.map key := fun as => by
      rw [List.map_map]
      exact List.map_congr_left fun a _ => hkey a
    rw [layers, layers, hflat, fresh_map hkey]
    cases fresh key seen (frontier.flatMap next) with
    | nil => rfl
    | cons a as =>
      have hseen := hkeys (a :: as)
      rw [List.map_cons] at hseen
      simp only [List.map_cons (f := f)]
      rw [hseen, ← List.map_cons, ih]
      rfl

end Map

end JavaCallGraph.Layers

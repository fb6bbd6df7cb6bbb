import JavaCallGraph.Proofs.Supertypes

/-!
# Dotted names of nested types

A nested type is written with dots, `p.A.B`, and known under its canonical name, `p.A$B`.  A dotted name
does not say where the package ends, so the lookup tries: first the name as it is written, then the one
with its last dot turned into `$`, then the one with the last two, and so on.

* `TurnsDots` — what it means that the last dots of a name are turned, said of the texts alone.
* `Codebase.Searches` — the search that turns one dot after the other, as a relation between where it
  stands and what it comes to.  It ends for every name (`Codebase.searches_iff`).
* `Codebase.InPackage`, `Codebase.nesting` — the package of a type, and the simple names of the types
  around it: what the type is written with.  `Codebase.qualifiedName_eq_joinWith` puts its canonical name
  together from them.
* `Codebase.LooksUpDotted` — the main statement, proved of every assembled code base.
-/

set_option autoImplicit false

namespace JavaCallGraph

/-! ## Texts put together -/

namespace Text

variable {sep : String}

theorem joinWith_cons {w : String} {ws : List String} (h : ws ≠ []) :
    joinWith sep (w :: ws) = w ++ sep ++ joinWith sep ws := by
  cases ws with
  | nil => exact absurd rfl h
  | cons v vs => rfl

/-- Some of the texts may be put together first. -/
theorem joinWith_append (vs : List String) {ws : List String} (h : ws ≠ []) :
    joinWith sep (vs ++ ws) = joinWith sep (vs ++ [joinWith sep ws]) := by
  induction vs with
  | nil => rfl
  | cons v vs ih =>
    rw [List.cons_append, List.cons_append, joinWith_cons (by simp [h]), joinWith_cons (by simp), ih]

/-- The last text stands at the end. -/
theorem toList_joinWith_concat (vs : List String) (w : String) :
    (joinWith sep (vs ++ [w])).toList =
      (vs.flatMap fun v => v.toList ++ sep.toList) ++ w.toList := by
  induction vs with
  | nil => rfl
  | cons v vs ih =>
    rw [List.cons_append, joinWith_cons (by simp), String.toList_append, String.toList_append, ih,
      List.flatMap_cons]
    simp only [List.append_assoc]

theorem joinWith_concat {vs : List String} (h : vs ≠ []) (w : String) :
    joinWith sep (vs ++ [w]) = joinWith sep vs ++ sep ++ w := by
  obtain ⟨us, u, rfl⟩ := (List.eq_nil_or_concat vs).resolve_left h
  apply String.toList_inj.mp
  rw [List.concat_eq_append, toList_joinWith_concat, String.toList_append, String.toList_append,
    toList_joinWith_concat]
  simp

/-- What stands around the last separator; there is none behind it. -/
theorem splitLast?_eq_some {c : Char} {s before after : String}
    (h : splitLast? c s = some (before, after)) :
    s.toList = before.toList ++ c :: after.toList ∧ c ∉ after.toList := by
  have hafter : (afterLast c s).toList = (s.toList.reverse.takeWhile (· != c)).reverse := by
    rw [afterLast, String.toList_ofList]
  have hsplit : s.toList = (s.toList.reverse.dropWhile (· != c)).reverse ++ (afterLast c s).toList := by
    rw [hafter, ← List.reverse_append, List.takeWhile_append_dropWhile, List.reverse_reverse]
  rw [splitLast?] at h
  split at h
  · exact absurd h (by simp)
  · next d rest hdrop =>
    have hd : d = c := by
      have hfirst := List.head?_dropWhile_not (· != c) s.toList.reverse
      rw [hdrop] at hfirst
      simpa using hfirst
    rw [hdrop, hd] at hsplit
    simp only [Option.some.injEq, Prod.mk.injEq] at h
    rw [← h.1, ← h.2, String.toList_ofList]
    constructor
    · rw [hsplit]
      simp
    · rw [hafter, List.mem_reverse]
      exact fun hmem => by simpa using List.mem_takeWhile_imp hmem

theorem splitLast?_eq_none {c : Char} {s : String} (h : splitLast? c s = none) :
    c ∉ s.toList := by
  rw [splitLast?] at h
  split at h
  · next hdrop =>
    rw [List.dropWhile_eq_nil_iff] at hdrop
    exact fun hmem => by simpa using hdrop c (List.mem_reverse.mpr hmem)
  · exact absurd h (by simp)

end Text

/-! ## Turning dots -/

/-- `$` for a dot. -/
def turnDot (c : Char) : Char := if c = '.' then '$' else c

/-- **`m` is `n` with its last `k` dots turned into `$`.** -/
def TurnsDots (k : Nat) (n m : String) : Prop :=
  ∃ before after : List Char, n.toList = before ++ after ∧ after.count '.' = k ∧
    m.toList = before ++ after.map turnDot

theorem dot_notMem_map_turnDot (cs : List Char) : '.' ∉ cs.map turnDot := by
  rw [List.mem_map]
  rintro ⟨c, -, hc⟩
  rw [turnDot] at hc
  split at hc
  · exact absurd hc (by decide)
  · next h => exact h hc

/-- Where there are no dots nothing is turned. -/
theorem map_turnDot_of_notMem {cs : List Char} (h : '.' ∉ cs) : cs.map turnDot = cs := by
  refine (List.map_congr_left fun c hc => ?_).trans (List.map_id cs)
  rw [turnDot, if_neg, id]
  rintro rfl
  exact h hc

namespace TurnsDots

variable {k : Nat} {n m : String}

theorem refl (n : String) : TurnsDots 0 n n := ⟨n.toList, [], by simp, rfl, by simp⟩

/-- The dots that are left and those that are turned. -/
theorem add_count (h : TurnsDots k n m) : k + m.toList.count '.' = n.toList.count '.' := by
  obtain ⟨before, after, hn, rfl, hm⟩ := h
  rw [hn, hm, List.count_append, List.count_append,
    List.count_eq_zero.mpr (dot_notMem_map_turnDot after)]
  omega

/-- **There is one way to turn the last `k` dots.**  Two ways to say where they begin differ by a text
without dots. -/
theorem unique {m' : String} (h : TurnsDots k n m) (h' : TurnsDots k n m') : m = m' := by
  have hsame : ∀ {before before' mid after : List Char} {m m' : String},
      before' = before ++ mid → (mid ++ after).count '.' = after.count '.' →
      m.toList = before ++ (mid ++ after).map turnDot → m'.toList = before' ++ after.map turnDot →
      m = m' := by
    intro before before' mid after m m' hbefore hcount hm hm'
    rw [List.count_append] at hcount
    have hmid : '.' ∉ mid := List.count_eq_zero.mp (by omega)
    rw [← String.toList_inj, hm, hm', hbefore, List.map_append, map_turnDot_of_notMem hmid,
      List.append_assoc]
  obtain ⟨before, after, hn, hk, hm⟩ := h
  obtain ⟨before', after', hn', hk', hm'⟩ := h'
  rcases List.append_eq_append_iff.mp (hn.symm.trans hn') with ⟨mid, hb, rfl⟩ | ⟨mid, hb, rfl⟩
  · exact hsame hb (hk.trans hk'.symm) hm hm'
  · exact (hsame hb (hk'.trans hk.symm) hm' hm).symm

/-- Turning the last dot that is left turns one more. -/
theorem next (h : TurnsDots k n m) {outer last : String}
    (hm : Text.splitLast? '.' m = some (outer, last)) : TurnsDots (k + 1) n (outer ++ "$" ++ last) := by
  obtain ⟨before, after, hn, rfl, hmn⟩ := h
  obtain ⟨hsplit, hlast⟩ := Text.splitLast?_eq_some hm
  have hdot : '.' ∉ after.map turnDot := dot_notMem_map_turnDot after
  -- the last dot is in the part where none is turned yet
  rcases List.append_eq_append_iff.mp (hmn.symm.trans hsplit) with ⟨mid, -, hmid⟩ | ⟨mid, rfl, hmid⟩
  · rw [hmid] at hdot
    exact absurd (List.mem_append_right _ List.mem_cons_self) hdot
  · cases mid with
    | nil =>
      rw [List.nil_append] at hmid
      rw [← hmid] at hdot
      exact absurd List.mem_cons_self hdot
    | cons d mid =>
      rw [List.cons_append, List.cons.injEq] at hmid
      obtain ⟨rfl, hmid⟩ := hmid
      rw [hmid, List.mem_append, not_or] at hlast
      refine ⟨outer.toList, '.' :: mid ++ after, by rw [hn]; simp, ?_, ?_⟩
      · rw [List.count_append, List.count_cons_self, List.count_eq_zero.mpr hlast.1]
        omega
      · rw [List.map_append, List.map_cons, map_turnDot_of_notMem hlast.1]
        simp [hmid, turnDot]

/-- The texts behind the dots that are turned. -/
theorem joinWith (vs : List String) {ws : List String} (h : ws ≠ [])
    (hws : ∀ w ∈ ws, isDotted w = false) :
    TurnsDots (ws.length - 1) (Text.joinWith "." (vs ++ ws))
      (Text.joinWith "." (vs ++ [Text.joinWith "$" ws])) := by
  have hturned : (Text.joinWith "." ws).toList.count '.' = ws.length - 1 ∧
      (Text.joinWith "$" ws).toList = (Text.joinWith "." ws).toList.map turnDot := by
    clear h
    induction ws with
    | nil => exact ⟨rfl, rfl⟩
    | cons w ws ih =>
      have hw : '.' ∉ w.toList := by simpa [isDotted] using hws w List.mem_cons_self
      obtain ⟨hcount, hmap⟩ := ih fun v hv => hws v (List.mem_cons_of_mem _ hv)
      cases ws with
      | nil => exact ⟨List.count_eq_zero.mpr hw, (map_turnDot_of_notMem hw).symm⟩
      | cons v vs =>
        have hcons : ∀ sep, Text.joinWith sep (w :: v :: vs) =
            w ++ sep ++ Text.joinWith sep (v :: vs) := fun _ => rfl
        rw [hcons, hcons]
        simp only [String.toList_append, List.map_append, List.count_append, hcount, hmap,
          map_turnDot_of_notMem hw, List.count_eq_zero.mpr hw, List.length_cons]
        exact ⟨by simp [Nat.add_comm], by simp [turnDot]⟩
  refine ⟨vs.flatMap fun v => v.toList ++ ".".toList, (Text.joinWith "." ws).toList, ?_, hturned.1, ?_⟩
  · rw [Text.joinWith_append vs h, Text.toList_joinWith_concat]
  · rw [Text.toList_joinWith_concat, hturned.2]

end TurnsDots

/-! ## The names that are tried -/

theorem length_pieces_dot (n : String) :
    (Text.pieces (· == '.') n).length = n.toList.count '.' + 1 := by
  rw [Text.pieces, List.length_map, Text.length_cut, List.count]

/-- The candidates are the name with its last dots turned. -/
theorem turnsDots_nestedSpelling {k : Nat} {n : String} (hk : k ≤ n.toList.count '.') :
    TurnsDots k n (nestedSpelling (Text.pieces (· == '.') n) k) := by
  generalize hparts : Text.pieces (· == '.') n = parts
  have hlength : parts.length = n.toList.count '.' + 1 := by rw [← hparts, length_pieces_dot]
  have hjoin : Text.joinWith "." parts = n := by rw [← hparts, Text.joinWith_pieces]
  have hplain : ∀ w ∈ parts.drop (parts.length - (k + 1)), isDotted w = false := by
    intro w hw
    have hw := List.mem_of_mem_drop hw
    rw [← hparts, Text.pieces] at hw
    obtain ⟨v, hv, rfl⟩ := List.mem_map.mp hw
    rw [isDotted, List.contains_eq_mem, decide_eq_false_iff_not, String.toList_ofList]
    exact fun hmem => by simpa using Text.not_of_mem_cut hv _ hmem
  have hdrop : (parts.drop (parts.length - (k + 1))).length = k + 1 := by
    rw [List.length_drop]
    omega
  have hturns := TurnsDots.joinWith (parts.take (parts.length - (k + 1)))
    (List.ne_nil_of_length_pos (by omega)) hplain
  rw [List.take_append_drop, hjoin, hdrop] at hturns
  exact hturns

namespace Codebase

variable {c : Codebase} {n : String}

/-- Nothing is found if no candidate is known. -/
theorem knownDotted?_eq_none_iff :
    c.knownDotted? n = none ↔ ∀ k m, TurnsDots k n m → c.known? m = none := by
  rw [knownDotted?, nestedSpellings, List.findSome?_eq_none_iff, List.forall_mem_map]
  simp only [List.mem_range, length_pieces_dot]
  constructor
  · intro h k m hm
    have hk := hm.add_count
    rw [hm.unique (turnsDots_nestedSpelling (by omega))]
    exact h k (by omega)
  · exact fun h k hk => h k _ (turnsDots_nestedSpelling (by omega))

/-- **The type that is found has the name with the fewest turned dots.** -/
theorem knownDotted?_eq_some_iff {t : TypeInfo} :
    c.knownDotted? n = some t ↔ ∃ k, TurnsDots k n t.name ∧ c.known? t.name = some t ∧
      ∀ j < k, ∀ m, TurnsDots j n m → c.known? m = none := by
  have hfirst : ∀ {t}, c.knownDotted? n = some t → ∃ k, TurnsDots k n t.name ∧
      c.known? t.name = some t ∧ ∀ j < k, ∀ m, TurnsDots j n m → c.known? m = none := by
    intro t h
    rw [knownDotted?, nestedSpellings, List.findSome?_eq_some_iff] at h
    obtain ⟨before, m, after, hlist, hm, hnone⟩ := h
    have hlength := congrArg List.length hlist
    rw [List.length_map, List.length_range, length_pieces_dot, List.length_append,
      List.length_cons] at hlength
    have hget : ∀ j ≤ before.length, (before ++ m :: after)[j]? =
        some (nestedSpelling (Text.pieces (· == '.') n) j) := by
      intro j hj
      rw [← hlist, List.getElem?_map, List.getElem?_range (by rw [length_pieces_dot]; omega)]
      rfl
    have hmk := hget before.length (Nat.le_refl _)
    rw [List.getElem?_append_right (Nat.le_refl _), Nat.sub_self, List.getElem?_cons_zero,
      Option.some.injEq] at hmk
    rw [name_of_known? hm]
    refine ⟨before.length, hmk ▸ turnsDots_nestedSpelling (by omega), hm, fun j hj m' hm' => ?_⟩
    rw [hm'.unique (turnsDots_nestedSpelling (by omega))]
    have hmj := hget j (Nat.le_of_lt hj)
    rw [List.getElem?_append_left hj] at hmj
    exact hnone _ (List.mem_of_getElem? hmj)
  refine ⟨hfirst, ?_⟩
  rintro ⟨k, hk, ht, hnone⟩
  cases hfound : c.knownDotted? n with
  | none => rw [knownDotted?_eq_none_iff.mp hfound k _ hk] at ht; exact absurd ht (by simp)
  | some s =>
    obtain ⟨j, hj, hs, hless⟩ := hfirst hfound
    rcases Nat.lt_trichotomy j k with hlt | rfl | hlt
    · rw [hnone j hlt _ hj] at hs
      exact absurd hs (by simp)
    · rw [← hs, ← ht, hj.unique hk]
    · rw [hless k hlt _ hk] at ht
      exact absurd ht (by simp)

/-! ## The search -/

/-- **The search for a dotted name**, from one candidate on. -/
inductive Searches (c : Codebase) : String → Option TypeInfo → Prop
  /-- The candidate is known. -/
  | found {m : String} {t : TypeInfo} (h : c.known? m = some t) : Searches c m (some t)
  /-- It is not, and the search goes on with one more dot turned. -/
  | turn {m outer last : String} {r : Option TypeInfo} (h : c.known? m = none)
      (hm : Text.splitLast? '.' m = some (outer, last))
      (rest : Searches c (outer ++ "$" ++ last) r) : Searches c m r
  /-- It is not, and there are no more dots. -/
  | giveUp {m : String} (h : c.known? m = none) (hm : Text.splitLast? '.' m = none) :
      Searches c m none

/-- The search comes to one end at most. -/
theorem Searches.unique {m : String} {r r' : Option TypeInfo} (h : c.Searches m r)
    (h' : c.Searches m r') : r = r' := by
  induction h with
  | found h =>
    cases h' with
    | found h' => exact h.symm.trans h'
    | turn h' _ _ | giveUp h' _ => exact absurd (h.symm.trans h') (by simp)
  | turn h hm _ ih =>
    cases h' with
    | found h' => exact absurd (h.symm.trans h') (by simp)
    | turn _ hm' rest =>
      obtain ⟨rfl, rfl⟩ := Prod.mk.inj (Option.some.inj (hm.symm.trans hm'))
      exact ih rest
    | giveUp _ hm' => exact absurd (hm.symm.trans hm') (by simp)
  | giveUp h hm =>
    cases h' with
    | found h' => exact absurd (h.symm.trans h') (by simp)
    | turn _ hm' _ => exact absurd (hm.symm.trans hm') (by simp)
    | giveUp _ _ => rfl

/-- From a candidate that is reached, the search finds what is found among all.  The induction is on the
dots that are left; that no earlier candidate is known goes along. -/
theorem searches_of_turnsDots {k : Nat} {m : String} (hm : TurnsDots k n m)
    (hless : ∀ j < k, ∀ m', TurnsDots j n m' → c.known? m' = none) :
    c.Searches m (c.knownDotted? n) := by
  induction hleft : m.toList.count '.' using Nat.strong_induction_on generalizing k m with
  | _ left ih =>
    cases hknown : c.known? m with
    | some t =>
      obtain rfl := name_of_known? hknown
      rw [knownDotted?_eq_some_iff.mpr ⟨k, hm, hknown, hless⟩]
      exact .found hknown
    | none =>
      cases hsplit : Text.splitLast? '.' m with
      | some split =>
        obtain ⟨outer, last⟩ := split
        have hnext := hm.next hsplit
        have hcount := hm.add_count
        have hcount' := hnext.add_count
        refine .turn hknown hsplit (ih _ (by omega) hnext (fun j hj m' hm' => ?_) rfl)
        rcases Nat.lt_succ_iff_lt_or_eq.mp hj with hj | rfl
        · exact hless j hj m' hm'
        · rwa [hm'.unique hm]
      | none =>
        -- all dots are turned, so there are no other candidates
        have hcount := hm.add_count
        rw [List.count_eq_zero.mpr (Text.splitLast?_eq_none hsplit)] at hcount
        have hnone : c.knownDotted? n = none := by
          refine knownDotted?_eq_none_iff.mpr fun j m' hm' => ?_
          have hj := hm'.add_count
          rcases Nat.lt_or_eq_of_le (show j ≤ k by omega) with hj | rfl
          · exact hless j hj m' hm'
          · rwa [hm'.unique hm]
        rw [hnone]
        exact .giveUp hknown hsplit

/-- **The search ends for every name**, with what the lookup gives. -/
theorem searches_iff {r : Option TypeInfo} : c.Searches n r ↔ r = c.knownDotted? n := by
  have hends : c.Searches n (c.knownDotted? n) :=
    searches_of_turnsDots (.refl n) fun j hj => absurd hj (Nat.not_lt_zero j)
  exact ⟨fun h => h.unique hends, fun h => h ▸ hends⟩

/-! ## The names of a nested type -/

/-- The simple names of a type and of the types around it, outermost first. -/
def nesting (c : Codebase) (id : TypeId) : List String :=
  (c.enclosing id).reverse.map fun t => (c.decl t).name

/-- The type that stands in no other one, around the given type. -/
def outermost (c : Codebase) (id : TypeId) : TypeId := (c.enclosing id).getLastD id

/-- **The type is declared in the given package**, or in none: its outermost type is named after it. -/
def InPackage (c : Codebase) (package : Option String) (id : TypeId) : Prop :=
  (c.decl (c.outermost id)).qualifiedName =
    Syntax.qualifiedName package none (c.decl (c.outermost id)).name

/-- How a type in a package is written in full: `p.A.B`. -/
def javaSpelling (c : Codebase) (package : Option String) (id : TypeId) : String :=
  Text.joinWith "." (package.toList ++ c.nesting id)

theorem qualifiedName_eq_joinWith_dot (package : Option String) (name : String) :
    Syntax.qualifiedName package none name = Text.joinWith "." (package.toList ++ [name]) := by
  cases package <;> rfl

namespace WellFormed

theorem nesting_of_outer (h : c.WellFormed) {id o : TypeId} (ho : (c.decl id).outer = some o) :
    c.nesting id = c.nesting o ++ [(c.decl id).name] := by
  rw [nesting, h.enclosing_eq, ho, Option.elim_some, List.reverse_cons, List.map_append]
  rfl

theorem nesting_of_top (h : c.WellFormed) {id : TypeId} (ho : (c.decl id).outer = none) :
    c.nesting id = [(c.decl id).name] := by
  rw [nesting, h.enclosing_eq, ho]
  rfl

theorem nesting_ne_nil (h : c.WellFormed) (id : TypeId) : c.nesting id ≠ [] := by
  rw [nesting, h.enclosing_eq]
  simp

theorem outermost_of_outer (h : c.WellFormed) {id o : TypeId} (ho : (c.decl id).outer = some o) :
    c.outermost id = c.outermost o := by
  rw [outermost, outermost, h.enclosing_eq id, ho, Option.elim_some, h.enclosing_eq o,
    List.getLastD_cons, List.getLastD_cons, List.getLastD_cons]

theorem outermost_of_top (h : c.WellFormed) {id : TypeId} (ho : (c.decl id).outer = none) :
    c.outermost id = id := by
  rw [outermost, h.enclosing_eq, ho]
  rfl

/-- **The canonical name is the package and, behind it, the nesting with `$`.** -/
theorem qualifiedName_eq_joinWith (h : c.WellFormed) {package : Option String} {id : TypeId}
    (hp : c.InPackage package id) :
    (c.decl id).qualifiedName =
      Text.joinWith "." (package.toList ++ [Text.joinWith "$" (c.nesting id)]) := by
  induction id using h.induction_outer with
  | htop id ho =>
    rw [InPackage, h.outermost_of_top ho, qualifiedName_eq_joinWith_dot] at hp
    rw [h.nesting_of_top ho, hp]
    rfl
  | hinner id o ho ih =>
    rw [InPackage, h.outermost_of_outer ho] at hp
    rw [(h.outer ho).2.2.qualifiedName_eq, ih hp, h.nesting_of_outer ho,
      Text.joinWith_concat (h.nesting_ne_nil o), ← String.toList_inj]
    simp only [String.toList_append, Text.toList_joinWith_concat, List.append_assoc]

end WellFormed

/-- **A nested type is found by its Java spelling**, or a type whose name has fewer `$`. -/
theorem WellFormed.exists_knownDotted?_javaSpelling (h : c.WellFormed) (hunique : c.UniqueNames)
    {package : Option String} {id : TypeId} (hid : id ∈ c.typeIds) (hp : c.InPackage package id)
    (hnesting : ∀ n ∈ c.nesting id, isDotted n = false) :
    ∃ t, c.knownDotted? (c.javaSpelling package id) = some t ∧
      ((∀ j < (c.nesting id).length - 1, ∀ m, TurnsDots j (c.javaSpelling package id) m →
        c.known? m = none) → t = c.sourceType id) := by
  have hturns := TurnsDots.joinWith package.toList (h.nesting_ne_nil id) hnesting
  rw [← h.qualifiedName_eq_joinWith hp] at hturns
  have hknown := hunique.known?_qualifiedName (mem_typeIds.mp hid)
  cases hfound : c.knownDotted? (c.javaSpelling package id) with
  | none =>
    rw [knownDotted?_eq_none_iff.mp hfound _ _ hturns] at hknown
    exact absurd hknown (by simp)
  | some t =>
    refine ⟨t, rfl, fun hless => ?_⟩
    have hthis : c.knownDotted? (c.javaSpelling package id) = some (c.sourceType id) :=
      knownDotted?_eq_some_iff.mpr ⟨_, hturns, hknown, hless⟩
    exact Option.some.inj (hfound.symm.trans hthis)

end Codebase

/-! ## Packages of lowered files -/

/-- The type stands in another one, or is named after the package. -/
def TypeDecl.NamedIn (package : Option String) (d : TypeDecl) : Prop :=
  d.outer = none → d.qualifiedName = Syntax.qualifiedName package none d.name

namespace Syntax

mutual

theorem outer_ne_none_of_mem_lowerType (package : Option String) (o : Enclosing) (start : Nat)
    (t : TypeTree) : ∀ d ∈ lowerType package (some o) start t, d.outer ≠ none := by
  cases t with
  | mk header members =>
    intro d hd
    rcases List.mem_cons.mp hd with rfl | hd
    · simp [TypeHeader.lower]
    · exact outer_ne_none_of_mem_lowerNested package _ _ members d hd

/-- The types among the members of a type stand in it. -/
theorem outer_ne_none_of_mem_lowerNested (package : Option String) (owner : Enclosing) (start : Nat)
    (ms : List Member) : ∀ d ∈ lowerNested package owner start ms, d.outer ≠ none := by
  cases ms with
  | nil => exact fun d hd => absurd hd List.not_mem_nil
  | cons m ms =>
    intro d hd
    cases m with
    | type t =>
      rcases List.mem_append.mp hd with hd | hd
      · exact outer_ne_none_of_mem_lowerType package owner start t d hd
      · exact outer_ne_none_of_mem_lowerNested package owner _ ms d hd
    | field mods vars => exact outer_ne_none_of_mem_lowerNested package owner start ms d hd
    | method header body => exact outer_ne_none_of_mem_lowerNested package owner start ms d hd
    | abstractMethod header value =>
      exact outer_ne_none_of_mem_lowerNested package owner start ms d hd
    | initializer body => exact outer_ne_none_of_mem_lowerNested package owner start ms d hd
    | constructor => exact outer_ne_none_of_mem_lowerNested package owner start ms d hd
    | enumConstant name => exact outer_ne_none_of_mem_lowerNested package owner start ms d hd

end

theorem namedIn_of_mem_lowerType (package : Option String) (start : Nat) (t : TypeTree) :
    ∀ d ∈ lowerType package none start t, d.NamedIn package := by
  cases t with
  | mk header members =>
    intro d hd ho
    rcases List.mem_cons.mp hd with rfl | hd
    · rfl
    · exact absurd ho (outer_ne_none_of_mem_lowerNested package _ _ members d hd)

/-- The types that an item adds are named after the package declared before it. -/
theorem ParsedFile.mem_types_add {f : ParsedFile} {item : TopLevel} {d : TypeDecl}
    (hd : d ∈ (f.add item).types) : d ∈ f.types ∨ d.NamedIn f.package := by
  cases item with
  | type t =>
    rcases List.mem_append.mp hd with hd | hd
    · exact Or.inl hd
    · exact Or.inr (namedIn_of_mem_lowerType f.package f.types.length t d hd)
  | _ => exact Or.inl hd

/-- **Every type of a file belongs to a package.** -/
theorem UnitTree.exists_namedIn (u : UnitTree) : ∀ d ∈ u.lower.types, ∃ p, d.NamedIn p := by
  have hall : ∀ (items : List TopLevel) (f : ParsedFile), (∀ d ∈ f.types, ∃ p, d.NamedIn p) →
      ∀ d ∈ (items.foldl ParsedFile.add f).types, ∃ p, d.NamedIn p := by
    intro items
    induction items with
    | nil => exact fun f hf => hf
    | cons item items ih =>
      exact fun f hf => ih _ fun d hd =>
        (ParsedFile.mem_types_add hd).elim (hf d) fun hnamed => ⟨_, hnamed⟩
  exact hall u.items _ fun d hd => absurd hd List.not_mem_nil

/-- No package is declared behind a type. -/
def PackageFirst : List TopLevel → Prop
  | [] => True
  | .type _ :: items => ∀ name, TopLevel.package name ∉ items
  | _ :: items => PackageFirst items

theorem ParsedFile.package_add {item : TopLevel} (h : ∀ name, item ≠ .package name)
    (f : ParsedFile) : (f.add item).package = f.package := by
  cases item with
  | package name => exact absurd rfl (h name)
  | _ => rfl

theorem package_foldl_add {items : List TopLevel} (h : ∀ name, TopLevel.package name ∉ items)
    (f : ParsedFile) : (items.foldl ParsedFile.add f).package = f.package := by
  induction items generalizing f with
  | nil => rfl
  | cons item items ih =>
    have hrest : ∀ name, TopLevel.package name ∉ items :=
      fun name hmem => h name (List.mem_cons_of_mem _ hmem)
    have hitem : ∀ name, item ≠ .package name := fun name heq => h name (heq ▸ List.mem_cons_self)
    rw [List.foldl_cons, ih hrest, ParsedFile.package_add hitem]

theorem namedIn_foldl_add {items : List TopLevel} (h : ∀ name, TopLevel.package name ∉ items)
    {f : ParsedFile} (hf : ∀ d ∈ f.types, d.NamedIn f.package) :
    ∀ d ∈ (items.foldl ParsedFile.add f).types, d.NamedIn f.package := by
  induction items generalizing f with
  | nil => exact hf
  | cons item items ih =>
    have hrest : ∀ name, TopLevel.package name ∉ items :=
      fun name hmem => h name (List.mem_cons_of_mem _ hmem)
    have hitem : ∀ name, item ≠ .package name := fun name heq => h name (heq ▸ List.mem_cons_self)
    have hsame := ParsedFile.package_add hitem f
    rw [List.foldl_cons]
    rw [← hsame] at hf ⊢
    refine ih hrest fun d hd => ?_
    exact (ParsedFile.mem_types_add hd).elim (hf d) fun hnamed => hsame ▸ hnamed

/-- **The types of a file that begins with its package belong to it.** -/
theorem UnitTree.namedIn_package {u : UnitTree} (h : PackageFirst u.items) :
    ∀ d ∈ u.lower.types, d.NamedIn u.lower.package := by
  have hall : ∀ (items : List TopLevel) (f : ParsedFile), PackageFirst items → f.types = [] →
      ∀ d ∈ (items.foldl ParsedFile.add f).types,
        d.NamedIn (items.foldl ParsedFile.add f).package := by
    intro items
    induction items with
    | nil => exact fun f _ hf d hd => absurd (hf ▸ hd) List.not_mem_nil
    | cons item items ih =>
      intro f hfirst hf
      cases item with
      | type t =>
        rw [List.foldl_cons, package_foldl_add hfirst]
        refine namedIn_foldl_add hfirst fun d hd => ?_
        exact (ParsedFile.mem_types_add hd).elim (fun hd => absurd (hf ▸ hd) List.not_mem_nil) id
      | package name => exact ih _ hfirst hf
      | imported i => exact ih _ hfirst hf
      | other => exact ih _ hfirst hf
  exact hall u.items _ h rfl

end Syntax

/-! ## Packages in a code base -/

namespace Codebase

variable {c : Codebase}

@[simp]
theorem namedIn_place {withAccessors : Bool} {unit base : Nat} {d : TypeDecl} {p : Option String} :
    (place withAccessors unit base d).NamedIn p ↔ d.NamedIn p := by
  simp [TypeDecl.NamedIn]

/-- **Every type of an assembled code base belongs to a package.** -/
theorem exists_namedIn_assemble (withAccessors : Bool) (catalog : Catalog) (files : List SourceTree) :
    ∀ d ∈ (assemble withAccessors catalog (files.map SourceTree.lower)).types, ∃ p, d.NamedIn p := by
  refine assemble_induction (P := fun c => ∀ d ∈ c.types, ∃ p, d.NamedIn p)
    (fun d hd => absurd hd List.not_mem_nil) fun c hc f hf d hd => ?_
  rcases List.mem_append.mp hd with hd | hd
  · exact hc d hd
  · obtain ⟨e, he, rfl⟩ := List.mem_map.mp hd
    obtain ⟨s, -, rfl⟩ := List.mem_map.mp hf
    exact (s.tree.exists_namedIn e he).imp fun p hp => namedIn_place.mpr hp

/-- **If all files begin with their packages**, then the types belong to the packages of their files. -/
theorem namedIn_package_assemble (withAccessors : Bool) (catalog : Catalog) {files : List SourceTree}
    (hfiles : ∀ s ∈ files, Syntax.PackageFirst s.tree.items) :
    ∀ d ∈ (assemble withAccessors catalog (files.map SourceTree.lower)).types,
      d.NamedIn ((assemble withAccessors catalog (files.map SourceTree.lower)).unit d.unit).package := by
  -- a file is found at its position also after further ones were added
  have hall : ∀ d ∈ (assemble withAccessors catalog (files.map SourceTree.lower)).types,
      d.unit.index < (assemble withAccessors catalog (files.map SourceTree.lower)).units.length ∧
        d.NamedIn ((assemble withAccessors catalog (files.map SourceTree.lower)).unit d.unit).package := by
    refine assemble_induction
      (P := fun c => ∀ d ∈ c.types, d.unit.index < c.units.length ∧ d.NamedIn (c.unit d.unit).package)
      (fun d hd => absurd hd List.not_mem_nil) fun c hc f hf d hd => ?_
    rcases List.mem_append.mp hd with hd | hd
    · obtain ⟨hlt, hnamed⟩ := hc d hd
      refine ⟨?_, ?_⟩
      · rw [addFile, List.length_append]
        omega
      · rw [addFile, unit, List.getElem?_append_left hlt]
        exact hnamed
    · obtain ⟨e, he, rfl⟩ := List.mem_map.mp hd
      obtain ⟨s, hs, rfl⟩ := List.mem_map.mp hf
      rw [unit_place]
      refine ⟨by simp [addFile], ?_⟩
      rw [namedIn_place, addFile, unit, List.getElem?_concat_length]
      exact Syntax.UnitTree.namedIn_package (hfiles s hs) e he
  exact fun d hd => (hall d hd).2

namespace WellFormed

theorem outer_outermost (h : c.WellFormed) (id : TypeId) :
    (c.decl (c.outermost id)).outer = none := by
  induction id using h.induction_outer with
  | htop id ho => rwa [h.outermost_of_top ho]
  | hinner id o ho ih => rwa [h.outermost_of_outer ho]

theorem outermost_mem_typeIds (h : c.WellFormed) {id : TypeId} (hid : id ∈ c.typeIds) :
    c.outermost id ∈ c.typeIds := by
  induction id using h.induction_outer with
  | htop id ho => rwa [h.outermost_of_top ho]
  | hinner id o ho ih =>
    rw [h.outermost_of_outer ho]
    exact ih (mem_typeIds.mpr (h.outer ho).2.1)

theorem packageOf_outermost (h : c.WellFormed) (id : TypeId) :
    c.packageOf (c.outermost id) = c.packageOf id := by
  induction id using h.induction_outer with
  | htop id ho => rw [h.outermost_of_top ho]
  | hinner id o ho ih =>
    rw [h.outermost_of_outer ho, ih, packageOf, packageOf, unitOf, unitOf, (h.outer ho).2.2.unit_eq]

theorem inPackage_of_namedIn (h : c.WellFormed) {id : TypeId} {p : Option String}
    (hp : (c.decl (c.outermost id)).NamedIn p) : c.InPackage p id :=
  hp (h.outer_outermost id)

end WellFormed

/-! ## The main statement -/

/-- **Dotted names are looked up by turning dots**, fewest first. -/
structure LooksUpDotted (c : Codebase) : Prop where
  /-- The search ends for every name. -/
  ends : ∀ n r, c.Searches n r ↔ r = c.knownDotted? n
  /-- What is found has the name with its last `k` dots turned, and fewer turned dots give no known
  name. -/
  found : ∀ n t, c.knownDotted? n = some t ↔ ∃ k, TurnsDots k n t.name ∧ c.known? t.name = some t ∧
    ∀ j < k, ∀ m, TurnsDots j n m → c.known? m = none
  /-- Nothing is found only if none of the names is known. -/
  missing : ∀ n, c.knownDotted? n = none ↔ ∀ k m, TurnsDots k n m → c.known? m = none
  /-- Every type belongs to a package. -/
  packaged : ∀ id ∈ c.typeIds, ∃ p, c.InPackage p id
  /-- Written in full it is found, unless a name with fewer `$` is known as well. -/
  nested : ∀ id ∈ c.typeIds, ∀ p, c.InPackage p id → (∀ n ∈ c.nesting id, isDotted n = false) →
    ∃ t, c.knownDotted? (c.javaSpelling p id) = some t ∧
      ((∀ j < (c.nesting id).length - 1, ∀ m, TurnsDots j (c.javaSpelling p id) m →
        c.known? m = none) → t = c.sourceType id)

/-- **Dotted lookup finds exactly the nested spellings**, in every assembled code base in which no two
types have one name. -/
theorem looksUpDotted_assemble {withAccessors : Bool} {catalog : Catalog} {files : List SourceTree}
    (hunique : (assemble withAccessors catalog (files.map SourceTree.lower)).UniqueNames) :
    (assemble withAccessors catalog (files.map SourceTree.lower)).LooksUpDotted where
  ends _ _ := searches_iff
  found _ _ := knownDotted?_eq_some_iff
  missing _ := knownDotted?_eq_none_iff
  packaged id hid := by
    have h := WellFormed.assemble_lower withAccessors catalog files
    have hmem := mem_typeIds.mp (h.outermost_mem_typeIds hid)
    obtain ⟨p, hp⟩ := exists_namedIn_assemble withAccessors catalog files _ (List.getElem_mem hmem)
    rw [← decl_eq_getElem hmem] at hp
    exact ⟨p, h.inPackage_of_namedIn hp⟩
  nested _ hid _ hp hnesting :=
    (WellFormed.assemble_lower withAccessors catalog files).exists_knownDotted?_javaSpelling hunique
      hid hp hnesting

/-- If every file begins with its package, then that is the package of its types. -/
theorem inPackage_packageOf {withAccessors : Bool} {catalog : Catalog} {files : List SourceTree}
    (hfiles : ∀ s ∈ files, Syntax.PackageFirst s.tree.items) {id : TypeId}
    (hid : id ∈ (assemble withAccessors catalog (files.map SourceTree.lower)).typeIds) :
    (assemble withAccessors catalog (files.map SourceTree.lower)).InPackage
      ((assemble withAccessors catalog (files.map SourceTree.lower)).packageOf id) id := by
  have h := WellFormed.assemble_lower withAccessors catalog files
  have hmem := mem_typeIds.mp (h.outermost_mem_typeIds hid)
  have hp := namedIn_package_assemble withAccessors catalog hfiles _ (List.getElem_mem hmem)
  rw [← decl_eq_getElem hmem] at hp
  rw [← h.packageOf_outermost]
  exact h.inPackage_of_namedIn hp

end Codebase

/-! ## A package and a class of one name

The class `C` stands in `B`, and that in `A`, all in the package `p`.  There is a package `p.A`, too, with
a class `B`. -/

namespace Sample

/-- A class with the classes inside it. -/
def classTree (name : String) (inner : List Syntax.TypeTree) : Syntax.TypeTree :=
  .mk ⟨⟨[], []⟩, .plainClass, name, [], [], [], [], 1⟩ (inner.map .type)

/-- Two files. -/
def nestedFiles : List SourceTree :=
  [⟨"A.java", none, ⟨[.package "p", .type (classTree "A" [classTree "B" [classTree "C" []]])]⟩⟩,
   ⟨"B.java", none, ⟨[.package "p.A", .type (classTree "B" [])]⟩⟩]

/-- The two files put together. -/
def nestedCode : Codebase := .assemble true .empty (nestedFiles.map SourceTree.lower)

end Sample

namespace Codebase

/-- `p.A.B.C` is the class inside both others.  `p.A.B` is the class in the package `p.A`, whose name has
fewer `$` than that of the class inside `A`. -/
theorem looksUpDotted_sample :
    Sample.nestedCode.UniqueNames ∧
      Sample.nestedCode.knownDotted? "p.A.B.C" = some (.source ⟨2⟩ "p.A$B$C") ∧
      Sample.nestedCode.Searches "p.A.B" (some (.source ⟨3⟩ "p.A.B")) ∧
      Sample.nestedCode.known? "p.A$B" = some (.source ⟨1⟩ "p.A$B") := by
  have hunique : Sample.nestedCode.UniqueNames := by decide +kernel
  have hlookup : Sample.nestedCode.LooksUpDotted := looksUpDotted_assemble hunique
  have hpackage : Sample.nestedCode.InPackage (some "p") ⟨2⟩ :=
    inPackage_packageOf (by simp [Sample.nestedFiles, Syntax.PackageFirst]) (by decide)
  obtain ⟨t, ht, hthis⟩ := hlookup.nested ⟨2⟩ (by decide) (some "p") hpackage (by decide +kernel)
  have hspelling : Sample.nestedCode.javaSpelling (some "p") ⟨2⟩ = "p.A.B.C" := by decide +kernel
  have hdepth : (Sample.nestedCode.nesting ⟨2⟩).length = 3 := by decide +kernel
  rw [hspelling, hdepth] at hthis
  rw [hspelling] at ht
  -- neither `p.A.B.C` nor `p.A.B$C` is known
  have hless : ∀ j < 2, ∀ m, TurnsDots j "p.A.B.C" m → Sample.nestedCode.known? m = none := by
    intro j hj m hm
    have hdots : "p.A.B.C".toList.count '.' = 3 := by decide
    have hnone : ∀ j < 2, Sample.nestedCode.known?
        (nestedSpelling (Text.pieces (· == '.') "p.A.B.C") j) = none := by decide +kernel
    rw [hm.unique (turnsDots_nestedSpelling (by omega))]
    exact hnone j hj
  rw [hthis hless] at ht
  refine ⟨hunique, ht.trans (by with_unfolding_all rfl), (hlookup.ends _ _).mpr ?_,
    by with_unfolding_all rfl⟩
  refine ((hlookup.found _ _).mpr ⟨0, .refl _, by with_unfolding_all rfl, ?_⟩).symm
  exact fun j hj => absurd hj (Nat.not_lt_zero j)

end Codebase

end JavaCallGraph

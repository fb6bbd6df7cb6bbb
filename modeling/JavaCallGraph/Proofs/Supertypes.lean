import JavaCallGraph.Proofs.Assembly
import Mathlib.Data.List.TakeDrop
import Mathlib.Data.List.TakeWhile

/-!
# Types of one name have the same supertypes

A walk up the hierarchy compares types by their names.  That is right as long as a name says what it
means: `Codebase.ClassNames` asks that a declared or described type shares its name with no other type, be
it declared, primitive or an array.  Two types of one name that are met on a walk then have the same
supertypes, with one exception.  A name that is made up for an unknown type may end with `[]`, and then it
is that of an array as well.  The unknown type has no supertypes, and the array has.

* `Codebase.ClassNames.known?_of_qualify` — a written type that stands for an unknown one has a name that
  nothing is known under.  Otherwise the lookup would have found that.
* `Codebase.mem_supertypes_cases` — a supertype is what a name or a written type stands for.
* `Codebase.ClassNames.supertypes_subset` — hence the main statement.
-/

set_option autoImplicit false

namespace JavaCallGraph

namespace Text

/-- The pieces of a text put together again. -/
theorem joinWith_cut (cs : List Char) :
    (joinWith "." ((cut (· == '.') cs).map String.ofList)).toList = cs := by
  induction cs with
  | nil => rfl
  | cons d cs ih =>
    rw [cut]
    cases hcut : cut (· == '.') cs with
    | nil => exact absurd hcut (cut_ne_nil _ cs)
    | cons w ws =>
      rw [hcut] at ih
      split
      · next hd =>
        rw [beq_iff_eq.mp hd]
        simpa [joinWith] using ih
      · cases ws with
        | nil => simpa [joinWith] using ih
        | cons v vs => simpa [joinWith] using ih

theorem joinWith_pieces (s : String) : joinWith "." (pieces (· == '.') s) = s :=
  String.toList_inj.mp (joinWith_cut s.toList)

theorem splitFirst?_eq_none_iff {s : String} : splitFirst? '.' s = none ↔ isDotted s = false := by
  have hdrop : s.toList.dropWhile (· != '.') = [] ↔ isDotted s = false := by
    rw [List.dropWhile_eq_nil_iff, isDotted, List.contains_eq_mem, decide_eq_false_iff_not]
    exact ⟨fun h hmem => by simpa using h _ hmem, fun h a ha => by
      rw [bne_iff_ne]
      rintro rfl
      exact h ha⟩
  rw [← hdrop, splitFirst?]
  split
  · next h => simp [h]
  · next h => simp [h]

end Text

/-! ## Names that say what they mean -/

/-- The names of types without a declaration: the primitive types and the missing result. -/
def keywords : List String := "void" :: Primitive.all.map Primitive.name

/-- The name is not that of an array. -/
def Undimensioned (n : String) : Prop := componentName? n = none

instance (n : String) : Decidable (Undimensioned n) := inferInstanceAs (Decidable (_ = _))

theorem Undimensioned.append_dotted {p n : String} (hn : Undimensioned n) :
    Undimensioned (p ++ "." ++ n) := by
  have hrev : (p ++ "." ++ n).toList.reverse = n.toList.reverse ++ '.' :: p.toList.reverse := by
    simp
  rw [Undimensioned, componentName?, hrev]
  rw [Undimensioned, componentName?] at hn
  cases hlist : n.toList.reverse with
  | nil => rfl
  | cons a as =>
    rw [hlist] at hn
    cases as with
    | nil => simp
    | cons b bs =>
      rw [List.cons_append, List.cons_append]
      split at hn
      · exact absurd hn (by simp)
      · next hne =>
        split
        · next heq =>
          simp only [List.cons.injEq] at heq
          exact absurd (by rw [heq.1, heq.2.1]) (hne bs)
        · rfl

theorem componentName?_eq_some_iff {n m : String} :
    componentName? n = some m ↔ n = m ++ "[]" := by
  rw [componentName?]
  constructor
  · intro h
    split at h
    · next cs hcs =>
      rw [← Option.some.inj h, ← String.toList_inj, ← List.reverse_inj, hcs]
      simp
    · exact absurd h (by simp)
  · rintro rfl
    have hrev : (m ++ "[]").toList.reverse = ']' :: '[' :: m.toList.reverse := by simp
    rw [hrev]
    simp

theorem not_undimensioned_array (t : TypeInfo) : ¬Undimensioned (TypeInfo.array t).name := by
  rw [TypeInfo.name, Undimensioned, componentName?_eq_some_iff.mpr rfl]
  exact Option.some_ne_none _

theorem undimensioned_primitive (p : Primitive) : Undimensioned p.name := by
  cases p <;> decide

/-- Induction on the dimensions of a canonical name. -/
theorem dimension_induction {motive : String → Prop}
    (element : ∀ n, Undimensioned n → motive n) (array : ∀ n, motive n → motive (n ++ "[]"))
    (n : String) : motive n := by
  induction hlen : n.length using Nat.strong_induction_on generalizing n with
  | _ k ih =>
    cases hn : componentName? n with
    | none => exact element n hn
    | some m =>
      obtain rfl := componentName?_eq_some_iff.mp hn
      have hlt : m.length < k := by
        rw [← hlen, String.length_append]
        exact Nat.lt_add_of_pos_right (by decide)
      exact array m (ih m.length hlt m rfl)

theorem NameRule.undimensioned : NameRule Undimensioned :=
  ⟨by decide, fun _ hn => hn.append_dotted⟩

namespace Codebase

/-- No two declared types have the same name. -/
def UniqueNames (c : Codebase) : Prop :=
  ∀ s ∈ c.typeIds, ∀ t ∈ c.typeIds, (c.decl s).qualifiedName = (c.decl t).qualifiedName → s = t

instance (c : Codebase) : Decidable c.UniqueNames :=
  inferInstanceAs (Decidable (∀ s ∈ c.typeIds, ∀ t ∈ c.typeIds, _ → s = t))

/-- All types of which more than the name is known: the declared and the described ones. -/
def allTypes (c : Codebase) : List TypeInfo :=
  c.typeIds.map c.sourceType ++ c.catalog.types.map TypeInfo.compiled

/-- **The name of a class or interface means one type.**  Nothing is asked of other names. -/
structure ClassNames (c : Codebase) : Prop where
  /-- No two declared types have the same name. -/
  unique : c.UniqueNames
  /-- No class or interface has the name of a primitive type. -/
  keywords : ∀ n ∈ keywords, c.known? n = none
  /-- None has the name of an array. -/
  dimensions : ∀ t ∈ c.allTypes, Undimensioned t.name

/-- **A type that the code base hands out**; it is none of the type variables.  What names stand for is
proper, and so is what is written in a declared type (`Obeys.typeInfo`, `Obeys.qualify`). -/
structure HandsOut (c : Codebase) (t : TypeInfo) : Prop where
  proper : t.Proper c fun _ => True
  notVariable : t.isVariable = false

variable {c : Codebase}

theorem handsOut_sourceType {id : TypeId} (hid : id.index < c.types.length) :
    c.HandsOut (c.sourceType id) :=
  ⟨(Obeys.trivial c).sourceType hid, rfl⟩

theorem mem_allTypes_of_known? {n : String} {t : TypeInfo} (h : c.known? n = some t) :
    t ∈ c.allTypes := by
  obtain ⟨id, hid, rfl⟩ | ⟨u, hu, rfl⟩ := known?_cases h
  · refine List.mem_append_left _ (List.mem_map_of_mem ?_)
    exact mem_typeIds.mpr (resolveType?_eq_some hid).1
  · exact List.mem_append_right _ (List.mem_map_of_mem (List.mem_of_find?_eq_some hu))

/-! ## Nothing is known under the name of an unknown type -/

/-- The name is one of those that a dotted name may mean. -/
theorem known?_of_knownDotted? {n : String} (h : c.knownDotted? n = none) : c.known? n = none := by
  refine List.findSome?_eq_none_iff.mp h n (List.mem_map.mpr ⟨0, ?_, ?_⟩)
  · rw [List.mem_range, Text.pieces, List.length_map]
    exact List.length_pos_iff.mpr (Text.cut_ne_nil _ _)
  · -- with none of the dots turned the pieces are put together as they were
    have hne : Text.pieces (· == '.') n ≠ [] := by
      rw [Text.pieces, ne_eq, List.map_eq_nil_iff]
      exact Text.cut_ne_nil _ _
    have hlast := List.dropLast_concat_getLast hne
    rw [nestedSpelling, Nat.zero_add, ← List.dropLast_eq_take, List.drop_length_sub_one hne]
    show Text.joinWith "." (_ ++ [(Text.pieces (· == '.') n).getLast hne]) = n
    rw [hlast, Text.joinWith_pieces]

theorem known?_ne_unresolved {n m : String} : c.known? n ≠ some (.unresolved m) := by
  intro h
  obtain ⟨id, -, ht⟩ | ⟨u, -, ht⟩ := known?_cases h <;> exact absurd ht TypeInfo.noConfusion

theorem known?_of_typeInfo {n m : String} (h : c.typeInfo n = .unresolved m) :
    c.known? m = none := by
  have hname : m = n := by simpa [h, TypeInfo.name] using c.name_typeInfo n
  have hspec := countDimensions_spec n.toList.reverse
  rw [typeInfo] at h
  generalize countDimensions n.toList.reverse = d at h hspec
  obtain ⟨k, rest⟩ := d
  cases k with
  | succ k => exact absurd h TypeInfo.noConfusion
  | zero =>
    have hrest : String.ofList rest.reverse = n := by
      have hspec : n.toList.reverse = rest := hspec
      rw [← hspec, List.reverse_reverse, String.ofList_toList]
    have h : c.elementInfo n = .unresolved m := hrest ▸ h
    rw [elementInfo] at h
    rw [hname]
    split at h
    · exact absurd h TypeInfo.noConfusion
    · cases hk : c.known? n with
      | none => rfl
      | some t =>
        rw [hk, Option.getD_some] at h
        exact absurd (h ▸ hk) known?_ne_unresolved

/-- Only an import leads to a type that is not known. -/
theorem known?_of_lookup? {n m : String} {context : TypeId}
    (h : c.lookup? n context = some (.unresolved m)) : c.known? m = none := by
  obtain ⟨k, hk⟩ | ⟨o, -, -, ho⟩ | ⟨i, -, hi, heq⟩ := lookup?_cases h
  · exact absurd hk known?_ne_unresolved
  · exact absurd ho TypeInfo.noConfusion
  · rw [TypeInfo.unresolved.inj heq]
    exact known?_of_knownDotted? hi

theorem known?_of_qualifyName {scope : TypeScope} {n m : String}
    (h : c.qualifyName scope n = .unresolved m) : c.known? m = none := by
  rw [qualifyName] at h
  split at h
  · next t ht => exact known?_of_lookup? (h ▸ ht)
  · next hlookup =>
    rw [lookup?] at hlookup
    split at h
    · next hdotted =>
      rw [← TypeInfo.unresolved.inj h]
      split at hlookup
      · next hsplit =>
        rw [Text.splitFirst?_eq_none_iff.mp hsplit] at hdotted
        exact absurd hdotted (by simp)
      · exact known?_of_knownDotted? (Option.or_eq_none_iff.mp hlookup).1
    · next hdotted =>
      rw [← TypeInfo.unresolved.inj h]
      rw [Text.splitFirst?_eq_none_iff.mpr (by simpa using hdotted)] at hlookup
      -- the package is asked before the name is made up
      obtain ⟨-, hrest⟩ := Option.or_eq_none_iff.mp hlookup
      obtain ⟨-, hrest⟩ := Option.or_eq_none_iff.mp hrest
      exact (Option.or_eq_none_iff.mp hrest).1

theorem known?_of_qualifyNameAt {scope : TypeScope} {depth : Nat} {n m : String}
    (h : c.qualifyNameAt scope depth n = .unresolved m) : c.known? m = none := by
  cases hp : c.typeParam? scope n with
  | none =>
    simp only [qualifyNameAt.eq_def, hp] at h
    exact known?_of_qualifyName h
  | some p =>
    simp only [qualifyNameAt.eq_def, hp] at h
    cases depth <;> exact absurd h TypeInfo.noConfusion

/-- **A written type stands for an unknown one only when nothing is known under that name.** -/
theorem ClassNames.known?_of_qualify (h : c.ClassNames) {scope : TypeScope} {r : TypeRef} {m : String}
    (hr : c.qualify scope r = .unresolved m) : c.known? m = none := by
  refine qualifyWith_induction (motive := fun t => ∀ m, t = .unresolved m → c.known? m = none) r
    (fun m hm => ?_) (fun _ => known?_of_typeInfo) (fun _ _ hm => absurd hm TypeInfo.noConfusion)
    (fun _ _ _ hm => absurd hm TypeInfo.noConfusion) (fun _ _ _ => known?_of_qualifyNameAt) m hr
  rw [← TypeInfo.unresolved.inj hm]
  exact h.keywords _ List.mem_cons_self

/-! ## One step up -/

/-- **A supertype is what a name stands for**, or what a type written in the declaration does. -/
theorem mem_supertypes_cases {t s : TypeInfo} (hv : t.isVariable = false)
    (hs : s ∈ c.supertypes t) :
    (∃ n, s = c.typeInfo n) ∨
      ∃ id r, t.sourceId? = some id ∧ s = c.qualify (c.typeScope id) r := by
  cases t with
  | source id n =>
    rcases List.mem_append.mp hs with hs | hs
    · have hsuper := Option.mem_toList.mp hs
      rw [superclass?] at hsuper
      split at hsuper
      · exact absurd hsuper (by simp)
      · exact absurd hsuper (by simp)
      · exact Or.inl ⟨_, (Option.some.inj hsuper).symm⟩
      · exact Or.inl ⟨_, (Option.some.inj hsuper).symm⟩
      · split at hsuper
        · exact Or.inr ⟨id, _, rfl, (Option.some.inj hsuper).symm⟩
        · exact Or.inl ⟨_, (Option.some.inj hsuper).symm⟩
    · obtain ⟨r, -, rfl⟩ := List.mem_map.mp hs
      exact Or.inr ⟨id, r, rfl, rfl⟩
  | compiled t =>
    rcases List.mem_append.mp hs with hs | hs
    · obtain ⟨n, -, rfl⟩ := Option.map_eq_some_iff.mp (Option.mem_toList.mp hs)
      exact Or.inl ⟨n, rfl⟩
    · obtain ⟨n, -, rfl⟩ := List.mem_map.mp hs
      exact Or.inl ⟨n, rfl⟩
  | array t =>
    rw [supertypes_array, List.mem_singleton] at hs
    exact Or.inl ⟨_, hs⟩
  | typeVar n bounds => exact absurd hv (by simp [TypeInfo.isVariable])
  | primitive p => exact absurd hs List.not_mem_nil
  | unresolved n => exact absurd hs List.not_mem_nil

theorem isVariable_typeInfo (n : String) : (c.typeInfo n).isVariable = false := by
  rw [typeInfo]
  generalize countDimensions n.toList.reverse = d
  obtain ⟨k, rest⟩ := d
  cases k with
  | succ k => rfl
  | zero =>
    show (c.elementInfo (String.ofList rest.reverse)).isVariable = false
    rw [elementInfo]
    split
    · rfl
    · rw [known?]
      split
      · rfl
      · cases c.catalog.lookup? (String.ofList rest.reverse) <;> rfl

theorem handsOut_typeInfo (n : String) : c.HandsOut (c.typeInfo n) :=
  ⟨(Obeys.trivial c).typeInfo trivial, isVariable_typeInfo n⟩

theorem ClassNames.known?_of_mem_supertypes (h : c.ClassNames) {t : TypeInfo}
    (hv : t.isVariable = false) {n : String} (hn : .unresolved n ∈ c.supertypes t) :
    c.known? n = none := by
  obtain ⟨m, hm⟩ | ⟨id, r, -, hr⟩ := mem_supertypes_cases hv hn
  · exact known?_of_typeInfo hm.symm
  · exact h.known?_of_qualify hr.symm

/-! ## What a name stands for -/

theorem countDimensions_of_undimensioned {n : String} (h : Undimensioned n) :
    countDimensions n.toList.reverse = (0, n.toList.reverse) := by
  rw [Undimensioned, componentName?] at h
  split at h
  · exact absurd h (by simp)
  · next hne =>
    rw [countDimensions]
    exact hne

theorem typeInfo_of_undimensioned {n : String} (h : Undimensioned n) :
    c.typeInfo n = c.elementInfo n := by
  rw [typeInfo, countDimensions_of_undimensioned h]
  show c.elementInfo (String.ofList n.toList.reverse.reverse) = _
  rw [List.reverse_reverse, String.ofList_toList]

/-- The name of an array stands for an array. -/
theorem typeInfo_array (n : String) : c.typeInfo (n ++ "[]") = .array (c.typeInfo n) := by
  have hrev : (n ++ "[]").toList.reverse = ']' :: '[' :: n.toList.reverse := by simp
  rw [typeInfo, typeInfo, hrev, countDimensions]
  rfl

theorem typeInfo_primitive (p : Primitive) : c.typeInfo p.name = .primitive p := by
  rw [typeInfo_of_undimensioned (undimensioned_primitive p), elementInfo, Primitive.ofName?_name]

/-- A declared type is known under its name. -/
theorem UniqueNames.known?_qualifiedName (h : c.UniqueNames) {id : TypeId}
    (hid : id.index < c.types.length) :
    c.known? (c.decl id).qualifiedName = some (c.sourceType id) := by
  have hresolve : c.resolveType? (c.decl id).qualifiedName = some id := by
    refine resolveType?_eq_some_iff.mpr ⟨mem_typeIds.mpr hid, rfl, fun s hs hname => ?_⟩
    rw [h s hs id (mem_typeIds.mpr hid) hname]
  rw [known?, hresolve]

namespace ClassNames

theorem ofName?_of_known? (h : c.ClassNames) {n : String} {t : TypeInfo}
    (ht : c.known? n = some t) : Primitive.ofName? n = none := by
  cases hp : Primitive.ofName? n with
  | none => rfl
  | some p =>
    have hname : p.name = n := by simpa using List.find?_some hp
    have hnone := h.keywords n (List.mem_cons_of_mem _ (hname ▸ List.mem_map_of_mem ?_))
    · rw [hnone] at ht
      exact absurd ht (by simp)
    · cases p <;> decide

/-- **More than the name is known** of a type that is handed out, or else it has hardly any
supertypes. -/
theorem known?_or (h : c.ClassNames) {t : TypeInfo} (ht : c.HandsOut t) :
    c.known? t.name = some t ∨
      (∃ p, t = .primitive p) ∨ (∃ u, t = .array u) ∨ ∃ n, t = .unresolved n := by
  cases t with
  | source id n =>
    cases ht.proper with
    | source hid hn _ =>
      subst hn
      exact .inl (h.unique.known?_qualifiedName hid)
  | compiled t =>
    cases ht.proper with
    | compiled hk _ => exact .inl hk
  | primitive p => exact .inr (.inl ⟨p, rfl⟩)
  | array u => exact .inr (.inr (.inl ⟨u, rfl⟩))
  | typeVar n bounds => exact absurd ht.notVariable (by simp [TypeInfo.isVariable])
  | unresolved n => exact .inr (.inr (.inr ⟨n, rfl⟩))

/-! ## Two types of one name -/

/-- What shares its name with a class or interface is that, or nothing is known of it. -/
theorem eq_of_known? (h : c.ClassNames) {a b : TypeInfo} (ha : c.HandsOut a)
    (hb : c.known? b.name = some b) (hname : a.name = b.name)
    (hunknown : ∀ n, a = .unresolved n → c.known? n = none) : a = b := by
  obtain hka | ⟨p, rfl⟩ | ⟨u, rfl⟩ | ⟨n, rfl⟩ := h.known?_or ha
  · rw [hname, hb] at hka
    exact (Option.some.inj hka).symm
  · have hnone := h.ofName?_of_known? hb
    rw [← hname, TypeInfo.name, Primitive.ofName?_name] at hnone
    cases hnone
  · exact absurd (hname ▸ h.dimensions b (mem_allTypes_of_known? hb)) (not_undimensioned_array u)
  · rw [← hname, TypeInfo.name, hunknown n rfl] at hb
    cases hb

/-- **Types of one name have the same supertypes**, unless one is an array and the other is unknown. -/
theorem supertypes_subset (h : c.ClassNames) {a b : TypeInfo} (ha : c.HandsOut a) (hb : c.HandsOut b)
    (hname : a.name = b.name)
    (hunknown : ∀ n, a = .unresolved n → c.known? n = none ∧ b.component? = none) :
    c.supertypes b ⊆ c.supertypes a := by
  obtain hkb | ⟨p, rfl⟩ | ⟨u, rfl⟩ | ⟨n, rfl⟩ := h.known?_or hb
  · rw [h.eq_of_known? ha hkb hname fun n hn => (hunknown n hn).1]
    exact List.Subset.refl _
  · exact List.nil_subset _
  · obtain hka | ⟨p, rfl⟩ | ⟨v, rfl⟩ | ⟨n, rfl⟩ := h.known?_or ha
    · rw [h.eq_of_known? hb hka hname.symm fun n hn => nomatch hn]
      exact List.Subset.refl _
    · exact absurd (hname ▸ undimensioned_primitive p) (not_undimensioned_array u)
    · exact List.Subset.refl _
    · exact absurd (hunknown n rfl).2 (by simp [TypeInfo.component?])
  · exact List.nil_subset _

end ClassNames

end Codebase

end JavaCallGraph

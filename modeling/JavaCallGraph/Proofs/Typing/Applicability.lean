import JavaCallGraph.Proofs.Typing.Specificity

/-!
# Arguments as they are written, and as elements of an array

A method of variable arity can be called in two ways: with an array as its last argument, or with the
elements of the array.  This file says of a described method and typed arguments when either is possible
and which parameter takes which argument.

* `Codebase.takesAsWritten_iff` — the arguments fit one by one;
* `Codebase.compiledApplicable_iff` — what else a method of variable arity can be called with;
* `Codebase.exists_takesAt?` — every argument of a possible call is taken by some parameter;
* `Codebase.takesExactly_iff` — parameters of exactly the types of the arguments are spelled like these;
* `Codebase.not_accepts_of_needsExpansion` — the array of a method that needs its elements collected does
  not accept the argument at its place.
-/

set_option autoImplicit false

namespace JavaCallGraph

namespace Codebase

/-- The arguments fit the parameters one by one. -/
def takesAsWritten (c : Codebase) (m : CompiledMethod) (args : List TypeInfo) : Bool :=
  c.applicable (c.compiledParamTypes m) false (args.map some)

/-- The method can be called, but only with the last arguments as the elements of an array. -/
def needsExpansion (c : Codebase) (m : CompiledMethod) (args : List TypeInfo) : Bool :=
  c.compiledApplicable m (args.map some) && !c.takesAsWritten m args

variable {c : Codebase} {m : CompiledMethod} {args : List TypeInfo}

/-! ## Parameters and arguments one by one -/

theorem getElem?_compiledParamTypes (m : CompiledMethod) (i : Nat) :
    (c.compiledParamTypes m)[i]? = m.params[i]?.map c.typeInfo := by
  rw [compiledParamTypes, List.getElem?_map]

theorem length_compiledParamTypes (m : CompiledMethod) :
    (c.compiledParamTypes m).length = m.params.length := by
  rw [compiledParamTypes, List.length_map]

theorem takesAsWritten_iff :
    c.takesAsWritten m args = true ↔ args.length = m.params.length ∧
      ∀ (i : Nat) (p t : TypeInfo), (c.compiledParamTypes m)[i]? = some p → args[i]? = some t →
        c.accepts p t = true := by
  rw [takesAsWritten, applicable, if_neg Bool.false_ne_true, Bool.and_eq_true, beq_iff_eq,
    List.length_map, length_compiledParamTypes, List.all_eq_true]
  refine and_congr_right fun _ => ⟨fun h i p t hp ht => ?_, fun h => ?_⟩
  · refine h (p, some t) (List.mem_iff_getElem?.mpr ⟨i, ?_⟩)
    rw [List.getElem?_zip_eq_some]
    exact ⟨hp, by rw [List.getElem?_map, ht, Option.map_some]⟩
  · rintro ⟨p, a⟩ hmem
    obtain ⟨i, hi⟩ := List.mem_iff_getElem?.mp hmem
    obtain ⟨hp, ha⟩ := List.getElem?_zip_eq_some.mp hi
    rw [List.getElem?_map, Option.map_eq_some_iff] at ha
    obtain ⟨t, ht, rfl⟩ := ha
    exact h i p t hp ht

/-- When a method of variable arity can be called: the fixed parameters accept the first arguments, and
the last parameter takes the others. -/
theorem compiledApplicable_iff (hv : m.varargs = true) :
    c.compiledApplicable m (args.map some) = true ↔ m.params.length - 1 ≤ args.length ∧
      (∀ (i : Nat) (p t : TypeInfo), i < m.params.length - 1 → (c.compiledParamTypes m)[i]? = some p →
        args[i]? = some t → c.accepts p t = true) ∧
      ∀ (i : Nat) (t : TypeInfo), m.params.length - 1 ≤ i → args[i]? = some t →
        c.fitsRest (args.length == m.params.length) (c.compiledParamTypes m).getLast? (some t) =
          true := by
  rw [compiledApplicable, applicable, if_pos hv]
  simp only [Bool.and_eq_true, decide_eq_true_eq, List.length_map, length_compiledParamTypes,
    and_assoc, List.all_eq_true]
  refine and_congr_right fun _ => and_congr ⟨fun h i p t hi hp ht => ?_, fun h => ?_⟩
    ⟨fun h i t hi ht => ?_, fun h => ?_⟩
  · refine h (p, some t) (List.mem_iff_getElem?.mpr ⟨i, ?_⟩)
    rw [List.getElem?_zip_eq_some]
    exact ⟨by rw [List.getElem?_take_of_lt hi, hp], by rw [List.getElem?_map, ht, Option.map_some]⟩
  · rintro ⟨p, a⟩ hmem
    obtain ⟨i, hi⟩ := List.mem_iff_getElem?.mp hmem
    obtain ⟨hp, ha⟩ := List.getElem?_zip_eq_some.mp hi
    rw [List.getElem?_map, Option.map_eq_some_iff] at ha
    obtain ⟨t, ht, rfl⟩ := ha
    rw [List.getElem?_take] at hp
    split at hp
    · next hlt => exact h i p t hlt hp ht
    · exact absurd hp (by simp)
  · refine h (some t) (List.mem_iff_getElem?.mpr ⟨i - (m.params.length - 1), ?_⟩)
    rw [List.getElem?_drop, Nat.add_sub_cancel' hi, List.getElem?_map, ht, Option.map_some]
  · intro a hmem
    obtain ⟨i, hi⟩ := List.mem_iff_getElem?.mp hmem
    rw [List.getElem?_drop, List.getElem?_map, Option.map_eq_some_iff] at hi
    obtain ⟨t, ht, rfl⟩ := hi
    exact h _ t (Nat.le_add_right _ _) ht

theorem getLast?_compiledParamTypes (m : CompiledMethod) :
    (c.compiledParamTypes m).getLast? = (c.compiledParamTypes m)[m.params.length - 1]? := by
  rw [List.getLast?_eq_getElem?, length_compiledParamTypes]

/-- **What fits as written is applicable**, also to a method of variable arity. -/
theorem compiledApplicable_of_takesAsWritten (h : c.takesAsWritten m args = true) :
    c.compiledApplicable m (args.map some) = true := by
  cases hv : m.varargs with
  | false => rwa [compiledApplicable, hv]
  | true =>
    obtain ⟨hlen, hfit⟩ := takesAsWritten_iff.mp h
    refine (compiledApplicable_iff hv).mpr ⟨by omega, fun i p t _ => hfit i p t, fun i t hi ht => ?_⟩
    obtain ⟨hlt, -⟩ := List.getElem?_eq_some_iff.mp ht
    have hlast : i = m.params.length - 1 := by omega
    have hparam : i < (c.compiledParamTypes m).length := by
      rw [length_compiledParamTypes]
      omega
    rw [getLast?_compiledParamTypes, ← hlast, List.getElem?_eq_getElem hparam, fitsRest,
      hfit i _ t (List.getElem?_eq_getElem hparam) ht, beq_iff_eq.mpr hlen]
    rfl

/-- A parameter takes the argument at its own place, except for an array that is expanded. -/
theorem takesAt?_eq_getElem? {n i : Nat} (hi : i < m.params.length)
    (h : n = m.params.length ∨ i < m.params.length - 1) :
    c.takesAt? m n i = (c.compiledParamTypes m)[i]? := by
  have hparam : (c.compiledParamTypes m).length - 1 < (c.compiledParamTypes m).length := by
    rw [length_compiledParamTypes]
    omega
  rw [takesAt?, paramAt?, List.getLast?_eq_getElem?, List.getElem?_eq_getElem hparam]
  simp only [length_compiledParamTypes]
  rw [if_neg]
  simp only [Bool.and_eq_true, decide_eq_true_eq, Bool.not_eq_true', Bool.and_eq_false_iff,
    beq_eq_false_iff_ne]
  omega

theorem takesAt?_of_length_eq (hlen : args.length = m.params.length) {i : Nat} (hi : i < args.length) :
    c.takesAt? m args.length i = (c.compiledParamTypes m)[i]? :=
  takesAt?_eq_getElem? (by omega) (Or.inl hlen)

/-- Arguments are collected in an array only. -/
theorem exists_component_of_fitsRest {last : Option TypeInfo} {t : TypeInfo}
    (h : c.fitsRest false last (some t) = true) :
    ∃ array component, last = some array ∧ array.component? = some component := by
  cases last with
  | none => exact absurd h (by simp [fitsRest])
  | some array =>
    cases hcomponent : array.component? with
    | none => exact absurd h (by simp [fitsRest, hcomponent])
    | some component => exact ⟨array, component, rfl, hcomponent⟩

/-- An argument that is collected is taken by the elements of the array. -/
theorem takesAt?_of_collected {n i : Nat} {array : TypeInfo} (hv : m.varargs = true)
    (hlast : (c.compiledParamTypes m).getLast? = some array) (hi : m.params.length - 1 ≤ i)
    (hn : n ≠ m.params.length) : c.takesAt? m n i = array.component? := by
  rw [takesAt?, paramAt?, hlast]
  simp [length_compiledParamTypes, hv, hi, hn]

/-- **Every argument is taken by some parameter** of an applicable method. -/
theorem exists_takesAt? (h : c.compiledApplicable m (args.map some) = true) {i : Nat}
    (hi : i < args.length) : ∃ p, c.takesAt? m args.length i = some p := by
  have hparam : i < m.params.length → ∃ p, (c.compiledParamTypes m)[i]? = some p := fun hlt =>
    ⟨_, List.getElem?_eq_getElem (by rwa [length_compiledParamTypes])⟩
  by_cases hlen : args.length = m.params.length
  · rw [takesAt?_of_length_eq hlen hi]
    exact hparam (by omega)
  · cases hv : m.varargs with
    | false =>
      rw [compiledApplicable, hv] at h
      exact absurd (takesAsWritten_iff.mp h).1 hlen
    | true =>
      obtain ⟨-, -, hrest⟩ := (compiledApplicable_iff hv).mp h
      rcases Nat.lt_or_ge i (m.params.length - 1) with hlt | hle
      · rw [takesAt?_eq_getElem? (by omega) (Or.inr hlt)]
        exact hparam (by omega)
      · have hfit := hrest i args[i] hle (List.getElem?_eq_getElem hi)
        rw [beq_eq_false_iff_ne.mpr hlen] at hfit
        obtain ⟨array, component, hlast, hcomponent⟩ := exists_component_of_fitsRest hfit
        exact ⟨component, (takesAt?_of_collected hv hlast hle hlen).trans hcomponent⟩

/-- **Exact parameters are spelled like the arguments**, if these fit as written. -/
theorem takesExactly_iff (h : c.takesAsWritten m args = true) :
    c.TakesExactly m args ↔ m.params = args.map TypeInfo.name := by
  have hlen := (takesAsWritten_iff.mp h).1
  constructor
  · intro hexact
    refine List.ext_getElem (by rw [List.length_map, hlen]) fun i hi hi' => ?_
    rw [List.length_map] at hi'
    obtain ⟨p, hp, hname⟩ := hexact i args[i] (List.getElem?_eq_getElem hi')
    rw [takesAt?_of_length_eq hlen hi', getElem?_compiledParamTypes, List.getElem?_eq_getElem hi,
      Option.map_some, Option.some.injEq] at hp
    rw [← hp, name_typeInfo] at hname
    rw [hname, List.getElem_map]
  · intro hparams i t ht
    obtain ⟨hi, -⟩ := List.getElem?_eq_some_iff.mp ht
    refine ⟨c.typeInfo t.name, ?_, c.name_typeInfo _⟩
    rw [takesAt?_of_length_eq hlen hi, getElem?_compiledParamTypes, hparams, List.getElem?_map, ht]
    rfl

/-- The array of an overload that needs expansion does not accept the argument at its place. -/
theorem not_accepts_of_needsExpansion (h : c.needsExpansion m args = true)
    (hlen : args.length = m.params.length) :
    m.varargs = true ∧ ∃ p t, (c.compiledParamTypes m)[m.params.length - 1]? = some p ∧
      args[m.params.length - 1]? = some t ∧ c.accepts p t = false := by
  rw [needsExpansion, Bool.and_eq_true, Bool.not_eq_true', ← Bool.not_eq_true, takesAsWritten_iff]
    at h
  obtain ⟨happ, hnot⟩ := h
  cases hv : m.varargs with
  | false =>
    rw [compiledApplicable, hv] at happ
    exact absurd (takesAsWritten_iff.mp happ) hnot
  | true =>
    refine ⟨rfl, ?_⟩
    obtain ⟨-, hfixed, -⟩ := (compiledApplicable_iff hv).mp happ
    by_contra hall
    -- then all arguments fit, the last one as the array itself
    refine hnot ⟨hlen, fun i p t hp ht => ?_⟩
    rcases Nat.lt_or_ge i (m.params.length - 1) with hi | hi
    · exact hfixed i p t hi hp ht
    · obtain ⟨hlt, -⟩ := List.getElem?_eq_some_iff.mp ht
      have hlast : i = m.params.length - 1 := by omega
      by_contra hacc
      exact hall ⟨p, t, hlast ▸ hp, hlast ▸ ht, by simpa using hacc⟩

end Codebase

end JavaCallGraph

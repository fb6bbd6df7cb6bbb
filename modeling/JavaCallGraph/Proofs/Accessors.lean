import JavaCallGraph.Accessor
import JavaCallGraph.Proofs.Layers

/-!
# Generated accessors only complete a type

`TypeDecl.withAccessors` walks over the accessors that the fields of a type ask for and appends each
of them unless a method of its name is there, written or appended before.

* `Accessor.Asks` — which accessors a field asks for, and what they are, said of the type and the field
  alone.
* `Accessor.foldl_append` — the walk appends the accessors whose names are fresh, the first one of
  every name.  All that follows is read off this equation.
* `Accessor.Completes` — the main statement: nothing that was written is touched, nothing is appended
  that no field asks for, no name that a field asks for is missing, and doing it again adds nothing.

Different fields may ask for one name (`name` and `Name` both for `getName`), and so may two accessors
of one type and a written method.  So none of this can be said of one field at a time.
-/

set_option autoImplicit false

namespace JavaCallGraph

namespace Accessor

variable {t : TypeDecl} {f : FieldDecl} {m : MethodDecl}

/-! ## What a field asks for -/

/-- **A generated public method** with the given name, parameters and result, on the given line and
without anything else. -/
structure IsAccessor (line : Nat) (name : String) (params : List Param) (result : TypeRef)
    (m : MethodDecl) : Prop where
  name : m.name = name
  params : m.params = params
  result : m.returnType = result
  modifiers : m.modifiers = ["public"]
  plain : m.typeParams = [] ∧ m.annotations = []
  bodiless : m.body = none
  lines : m.lineStart = line ∧ m.lineEnd = line
  synthetic : m.synthetic = true

theorem isAccessor_iff {line : Nat} {name : String} {params : List Param} {result : TypeRef} :
    IsAccessor line name params result m ↔ m = generated name params result line := by
  constructor
  · rintro ⟨rfl, rfl, rfl, hmodifiers, ⟨htypeParams, hannotations⟩, hbody, ⟨rfl, hend⟩, hsynthetic⟩
    cases m
    simp_all [generated]
  · rintro rfl
    exact ⟨rfl, rfl, rfl, rfl, ⟨rfl, rfl⟩, rfl, ⟨rfl, rfl⟩, rfl⟩

/-- **The field `f` of the type `t` asks for the accessor `m`.**  A component of a record asks for
the accessor of its own name and nothing else.  In other types an annotation on the type or on the
field asks, and no setter is asked for on behalf of a final field.  Getters have no parameters and the
field as result, and a setter takes the field. -/
inductive Asks (t : TypeDecl) (f : FieldDecl) (m : MethodDecl) : Prop where
  | component (hkind : t.kind = .record) (hm : IsAccessor t.line f.name [] f.type m)
  /-- The getter of a truth value. -/
  | question (hkind : t.kind ≠ .record) (htype : f.type = .primitive .boolean)
      (hasked : "Data" ∈ t.annotations ∨ "Getter" ∈ t.annotations ∨ "Getter" ∈ f.annotations)
      (hm : IsAccessor t.line ("is" ++ Text.capitalize f.name) [] f.type m)
  | getter (hkind : t.kind ≠ .record) (htype : f.type ≠ .primitive .boolean)
      (hasked : "Data" ∈ t.annotations ∨ "Getter" ∈ t.annotations ∨ "Getter" ∈ f.annotations)
      (hm : IsAccessor t.line ("get" ++ Text.capitalize f.name) [] f.type m)
  | setter (hkind : t.kind ≠ .record) (hopen : f.isFinal = false)
      (hasked : "Data" ∈ t.annotations ∨ "Setter" ∈ t.annotations ∨ "Setter" ∈ f.annotations)
      (hm : IsAccessor t.line ("set" ++ Text.capitalize f.name) [⟨f.name, f.type, false⟩] .void m)

/-- The accessor that a field asks for, whichever it is. -/
theorem Asks.isAccessor (h : Asks t f m) :
    ∃ name params result, IsAccessor t.line name params result m := by
  cases h with
  | component _ hm => exact ⟨_, _, _, hm⟩
  | question _ _ _ hm => exact ⟨_, _, _, hm⟩
  | getter _ _ _ hm => exact ⟨_, _, _, hm⟩
  | setter _ _ _ hm => exact ⟨_, _, _, hm⟩

theorem getterName_of_boolean (h : f.type = .primitive .boolean) :
    getterName f = "is" ++ Text.capitalize f.name := by
  rw [getterName, h]

theorem getterName_of_ne (h : f.type ≠ .primitive .boolean) :
    getterName f = "get" ++ Text.capitalize f.name := by
  rw [getterName]
  split
  · next hboolean => exact absurd hboolean h
  · rfl

theorem requested_iff {onField : String} :
    requested t f onField = true ↔
      "Data" ∈ t.annotations ∨ onField ∈ t.annotations ∨ onField ∈ f.annotations := by
  simp only [requested, Bool.or_eq_true, List.contains_iff_mem, or_assoc]

theorem mem_ofField_iff : m ∈ ofField t f ↔ Asks t f m := by
  rw [ofField]
  by_cases hkind : t.kind = .record
  · rw [if_pos (beq_iff_eq.mpr hkind), List.mem_singleton]
    constructor
    · intro hm
      exact .component hkind (isAccessor_iff.mpr hm)
    · rintro (⟨-, hm⟩ | ⟨hne, -, -, -⟩ | ⟨hne, -, -, -⟩ | ⟨hne, -, -, -⟩)
      · exact isAccessor_iff.mp hm
      · exact absurd hkind hne
      · exact absurd hkind hne
      · exact absurd hkind hne
  · rw [if_neg fun h => hkind (beq_iff_eq.mp h), List.mem_append]
    constructor
    · rintro (hm | hm)
      · split at hm
        · next hasked =>
          have hm := List.mem_singleton.mp hm
          rw [getter] at hm
          by_cases htype : f.type = .primitive .boolean
          · rw [getterName_of_boolean htype] at hm
            exact .question hkind htype (requested_iff.mp hasked) (isAccessor_iff.mpr hm)
          · rw [getterName_of_ne htype] at hm
            exact .getter hkind htype (requested_iff.mp hasked) (isAccessor_iff.mpr hm)
        · exact absurd hm List.not_mem_nil
      · split at hm
        · next hasked =>
          rw [Bool.and_eq_true, Bool.not_eq_true'] at hasked
          have hm := List.mem_singleton.mp hm
          exact .setter hkind hasked.1 (requested_iff.mp hasked.2) (isAccessor_iff.mpr hm)
        · exact absurd hm List.not_mem_nil
    · rintro (⟨he, -⟩ | ⟨-, htype, hasked, hm⟩ | ⟨-, htype, hasked, hm⟩ | ⟨-, hopen, hasked, hm⟩)
      · exact absurd he hkind
      · rw [if_pos (requested_iff.mpr hasked), getter, getterName_of_boolean htype]
        exact Or.inl (List.mem_singleton.mpr (isAccessor_iff.mp hm))
      · rw [if_pos (requested_iff.mpr hasked), getter, getterName_of_ne htype]
        exact Or.inl (List.mem_singleton.mpr (isAccessor_iff.mp hm))
      · rw [hopen, requested_iff.mpr hasked]
        exact Or.inr (List.mem_singleton.mpr (isAccessor_iff.mp hm))

/-- The accessors of a type are those that its fields ask for, the static ones left out. -/
theorem mem_ofType_iff :
    m ∈ ofType t ↔ ∃ f ∈ t.fields, f.isStatic = false ∧ Asks t f m := by
  simp only [ofType, List.mem_flatMap, List.mem_filter, Bool.not_eq_true', mem_ofField_iff,
    and_assoc]

/-- Every accessor is marked as generated. -/
theorem Asks.synthetic (h : Asks t f m) : m.synthetic = true := by
  obtain ⟨_, _, _, hm⟩ := h.isAccessor
  exact hm.synthetic

/-- No accessor has a body. -/
theorem Asks.body_eq_none (h : Asks t f m) : m.body = none := by
  obtain ⟨_, _, _, hm⟩ := h.isAccessor
  exact hm.bodiless

/-! ## What is appended -/

theorem append_of_mem {ms : List MethodDecl} (h : m.name ∈ ms.map MethodDecl.name) :
    append ms m = ms := by
  obtain ⟨n, hn, hname⟩ := List.mem_map.mp h
  have hany : (ms.any fun n => n.name == m.name) = true :=
    List.any_eq_true.mpr ⟨n, hn, beq_iff_eq.mpr hname⟩
  rw [append, if_pos hany]

theorem append_of_notMem {ms : List MethodDecl} (h : m.name ∉ ms.map MethodDecl.name) :
    append ms m = ms ++ [m] := by
  rw [append, if_neg]
  intro hany
  obtain ⟨n, hn, hname⟩ := List.any_eq_true.mp hany
  exact h (List.mem_map.mpr ⟨n, hn, beq_iff_eq.mp hname⟩)

/-- **What is appended are the methods of fresh names**, the first one of every name. -/
theorem foldl_append (ms as : List MethodDecl) :
    as.foldl append ms = ms ++ Layers.fresh MethodDecl.name (ms.map MethodDecl.name) as := by
  induction as generalizing ms with
  | nil => exact (List.append_nil ms).symm
  | cons a as ih =>
    rw [List.foldl_cons, ih, Layers.fresh]
    by_cases ha : a.name ∈ ms.map MethodDecl.name
    · rw [append_of_mem ha, if_pos (List.contains_iff_mem.mpr ha)]
    · have hseen : ∀ k, k ∈ (ms ++ [a]).map MethodDecl.name ↔
          k ∈ a.name :: ms.map MethodDecl.name := fun k => by
        rw [List.map_append, List.mem_append, List.mem_cons, List.map_singleton,
          List.mem_singleton, or_comm]
      rw [append_of_notMem ha, if_neg fun h => ha (List.contains_iff_mem.mp h),
        Layers.fresh_congr hseen, List.append_assoc, List.singleton_append]

theorem methods_withAccessors (t : TypeDecl) :
    t.withAccessors.methods =
      t.methods ++ Layers.fresh MethodDecl.name (t.methods.map MethodDecl.name) (ofType t) :=
  foldl_append t.methods (ofType t)

/-- No name that is asked for is missing. -/
theorem name_mem_methods (hm : m ∈ ofType t) :
    m.name ∈ t.withAccessors.methods.map MethodDecl.name := by
  rw [methods_withAccessors, List.map_append, List.mem_append]
  exact Layers.key_mem_of_mem hm

/-- Methods ask for nothing. -/
theorem ofType_withAccessors (t : TypeDecl) : ofType t.withAccessors = ofType t := rfl

/-! ## Completing a type -/

/-- **`t'` is `t`, completed by the accessors that its fields ask for.** -/
structure Completes (t t' : TypeDecl) : Prop where
  /-- Only the list of methods is another one. -/
  frame : t' = { t with methods := t'.methods }
  /-- The written methods stay in front.  Behind them stand generated ones, each with a name of its
  own and asked for by a field that is not static. -/
  appended : ∃ added : List MethodDecl, t'.methods = t.methods ++ added ∧
    (added.map MethodDecl.name).Nodup ∧
    ∀ m ∈ added, m.synthetic = true ∧ m.name ∉ t.methods.map MethodDecl.name ∧
      ∃ f ∈ t.fields, f.isStatic = false ∧ Asks t f m
  /-- There is a method of every name that is asked for. -/
  complete : ∀ f ∈ t.fields, f.isStatic = false → ∀ m, Asks t f m →
    m.name ∈ t'.methods.map MethodDecl.name
  /-- There is nothing to add to it. -/
  stable : t'.withAccessors = t'

/-- **Generating accessors completes a type**, and a second time changes nothing. -/
theorem completes_withAccessors (t : TypeDecl) : Completes t t.withAccessors where
  frame := rfl
  appended := by
    refine ⟨_, methods_withAccessors t, Layers.nodup_map_key_fresh _ _, fun m hm => ?_⟩
    obtain ⟨f, hf, hstatic, hasks⟩ := mem_ofType_iff.mp (Layers.mem_of_mem_fresh hm)
    exact ⟨hasks.synthetic, Layers.key_notMem_of_mem_fresh hm, f, hf, hstatic, hasks⟩
  complete f hf hstatic m hasks := name_mem_methods (mem_ofType_iff.mpr ⟨f, hf, hstatic, hasks⟩)
  stable := by
    have hnone : Layers.fresh MethodDecl.name (t.withAccessors.methods.map MethodDecl.name)
        (ofType t) = [] :=
      Layers.fresh_eq_nil_of_forall fun _ hm => name_mem_methods hm
    have hmethods : t.withAccessors.withAccessors.methods = t.withAccessors.methods := by
      rw [methods_withAccessors t.withAccessors, ofType_withAccessors, hnone, List.append_nil]
    calc t.withAccessors.withAccessors
        = { t.withAccessors with methods := t.withAccessors.withAccessors.methods } := rfl
      _ = t.withAccessors := by rw [hmethods]

/-- A type with two fields that ask for one getter, and a written setter. -/
def twins : TypeDecl :=
  { (default : TypeDecl) with
    annotations := ["Data"]
    fields := [⟨"name", .simple "String", false, false, []⟩, ⟨"Name", .simple "String", false, true, []⟩,
      ⟨"open", .primitive .boolean, false, false, []⟩, ⟨"count", .primitive .int, true, false, []⟩]
    methods := [{ (default : MethodDecl) with name := "setOpen" }] }

example : twins.withAccessors.methods.map MethodDecl.name =
    ["setOpen", "getName", "setName", "isOpen"] := by decide +kernel

end Accessor

end JavaCallGraph

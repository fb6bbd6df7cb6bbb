import JavaCallGraph.Codebase.Source
import JavaCallGraph.Proofs.Hierarchy

/-!
# Assembly gives a well-formed index

The types of a file are lowered into a flat list, in which a nested type refers to the one around it
by its position; the lists of all files are then put one behind the other, and the positions count on.
Nothing checks afterwards that a position leads anywhere, so it has to be right by construction.

* `WellNested` — in a list of declarations every type comes after the one it stands in, belongs to the
  same file and is named after it.  Lowering gives such a list (`Syntax.UnitTree.wellNested_lower`),
  and putting two of them behind each other gives one again (`WellNested.append_place`).
* `Codebase.outward` — the walk from a type to the types around it that trusts the links.
  `Codebase.enclosing`, which checks every link, lists just this walk.
* `Syntax.UnitTree.qualifiedNames` — the types of a file by their names, read off its tree.  Lowering
  declares these and no others, in this order (`Syntax.UnitTree.map_qualifiedName_lower`).
* `Index.WellFormed` — all that an index promises of its files, positions, names and subtypes;
  `Index.wellFormed_ofTrees` says that every assembled one keeps it.
-/

set_option autoImplicit false

namespace JavaCallGraph

/-! ## Types inside each other -/

/-- The declaration belongs to the file of another one and is named after it. -/
structure TypeDecl.Inside (inner outer : TypeDecl) : Prop where
  unit_eq : inner.unit = outer.unit
  qualifiedName_eq : inner.qualifiedName = outer.qualifiedName ++ "$" ++ inner.name

/-- **Every type comes after the one it stands in.** -/
def WellNested (ts : List TypeDecl) : Prop :=
  ∀ (i : Nat) (d : TypeDecl) (o : TypeId), ts[i]? = some d → d.outer = some o →
    o.index < i ∧ ∃ p, ts[o.index]? = some p ∧ d.Inside p

namespace WellNested

theorem nil : WellNested [] := by
  intro i d o hd
  simp at hd

/-- A position before the end means the same in a longer list. -/
theorem of_lt_length {ts us : List TypeDecl} (h : WellNested ts) {i : Nat} (hi : i < ts.length)
    {d : TypeDecl} {o : TypeId} (hd : (ts ++ us)[i]? = some d) (ho : d.outer = some o) :
    o.index < i ∧ ∃ p, (ts ++ us)[o.index]? = some p ∧ d.Inside p := by
  rw [List.getElem?_append_left hi] at hd
  obtain ⟨hlt, p, hp, hin⟩ := h i d o hd ho
  exact ⟨hlt, p, by rw [List.getElem?_append_left (by omega), hp], hin⟩

/-- A type may be added behind the one it stands in. -/
theorem concat {ts : List TypeDecl} (h : WellNested ts) {d : TypeDecl}
    (hd : ∀ o, d.outer = some o → ∃ p, ts[o.index]? = some p ∧ d.Inside p) :
    WellNested (ts ++ [d]) := by
  intro i e o he ho
  by_cases hi : i < ts.length
  · exact h.of_lt_length hi he ho
  · -- the only position left is that of the new type
    obtain ⟨hlt, -⟩ := List.getElem?_eq_some_iff.mp he
    have hi : i = ts.length := by
      simp at hlt
      omega
    subst hi
    rw [List.getElem?_concat_length] at he
    obtain rfl := Option.some.inj he
    obtain ⟨p, hp, hin⟩ := hd o ho
    obtain ⟨hlt, -⟩ := List.getElem?_eq_some_iff.mp hp
    exact ⟨hlt, p, by rw [List.getElem?_append_left hlt, hp], hin⟩

end WellNested

namespace Syntax

/-! ## The types of a file -/

/-- The type around a nested one is where it is said to be, in a list that is not yet placed. -/
def Enclosing.StandsIn (o : Enclosing) (ts : List TypeDecl) : Prop :=
  ∃ p, ts[o.position]? = some p ∧ p.qualifiedName = o.qualifiedName ∧ p.unit = ⟨0⟩

theorem Enclosing.StandsIn.append {o : Enclosing} {ts : List TypeDecl} (h : o.StandsIn ts)
    (us : List TypeDecl) : o.StandsIn (ts ++ us) := by
  obtain ⟨p, hp, hname⟩ := h
  obtain ⟨hlt, -⟩ := List.getElem?_eq_some_iff.mp hp
  exact ⟨p, by rw [List.getElem?_append_left hlt, hp], hname⟩

/-- The head of a type that stands where it should. -/
theorem wellNested_concat_lower (package : Option String) {outer : Option Enclosing}
    {ts : List TypeDecl} (h : WellNested ts) (ho : ∀ o ∈ outer, o.StandsIn ts)
    (header : TypeHeader) (members : List Member) :
    WellNested (ts ++ [header.lower members outer (qualifiedName package outer header.name)]) := by
  refine h.concat fun o hout => ?_
  obtain ⟨e, rfl, rfl⟩ := Option.map_eq_some_iff.mp hout
  obtain ⟨p, hp, hname, hunit⟩ := ho e rfl
  refine ⟨p, hp, hunit.symm, ?_⟩
  rw [hname]
  rfl

mutual

/-- The types of a type tree stand behind the types before them.  The induction follows the tree, with
the list in front growing. -/
theorem wellNested_append_lowerType (package : Option String) (outer : Option Enclosing)
    {ts : List TypeDecl} (h : WellNested ts) (ho : ∀ o ∈ outer, o.StandsIn ts) (t : TypeTree) :
    WellNested (ts ++ lowerType package outer ts.length t) := by
  cases t with
  | mk header members =>
    have hhead := wellNested_concat_lower package h ho header members
    have howner : Enclosing.StandsIn ⟨ts.length, qualifiedName package outer header.name⟩
        (ts ++ [header.lower members outer (qualifiedName package outer header.name)]) :=
      ⟨_, List.getElem?_concat_length, rfl, rfl⟩
    have hall := wellNested_append_lowerNested package hhead howner members
    rw [List.append_assoc, List.length_append] at hall
    exact hall

/-- The types among the members of a type stand behind it. -/
theorem wellNested_append_lowerNested (package : Option String) {owner : Enclosing}
    {ts : List TypeDecl} (h : WellNested ts) (ho : owner.StandsIn ts) (ms : List Member) :
    WellNested (ts ++ lowerNested package owner ts.length ms) := by
  cases ms with
  | nil => simpa [lowerNested] using h
  | cons m ms =>
    cases m with
    | type t =>
      have hfirst := wellNested_append_lowerType package (some owner) h (by simpa) t
      have hall := wellNested_append_lowerNested package hfirst (ho.append _) ms
      rw [List.append_assoc, List.length_append] at hall
      rwa [lowerNested]
    | field mods vars => exact wellNested_append_lowerNested package h ho ms
    | method header body => exact wellNested_append_lowerNested package h ho ms
    | abstractMethod header value => exact wellNested_append_lowerNested package h ho ms
    | initializer body => exact wellNested_append_lowerNested package h ho ms
    | constructor => exact wellNested_append_lowerNested package h ho ms
    | enumConstant name => exact wellNested_append_lowerNested package h ho ms

end

theorem ParsedFile.wellNested_add {f : ParsedFile} (h : WellNested f.types) (item : TopLevel) :
    WellNested (f.add item).types := by
  cases item with
  | type t => exact wellNested_append_lowerType f.package none h (by simp) t
  | _ => exact h

/-- **The types of a file are well nested.** -/
theorem UnitTree.wellNested_lower (u : UnitTree) : WellNested u.lower.types := by
  have hall : ∀ (items : List TopLevel) (f : ParsedFile), WellNested f.types →
      WellNested (items.foldl ParsedFile.add f).types := by
    intro items
    induction items with
    | nil => exact fun f hf => hf
    | cons item items ih => exact fun f hf => ih _ (ParsedFile.wellNested_add hf item)
  exact hall u.items _ WellNested.nil

/-! ## The names of the types of a file -/

mutual

/-- The names of a type and of all types inside it, in source order; its own one follows `pre`. -/
def TypeTree.qualifiedNames (pre : String) : TypeTree → List String
  | .mk header members =>
    (pre ++ header.name) :: nestedNames (pre ++ header.name ++ "$") members

/-- The names of the types among the members of a type. -/
def nestedNames (pre : String) : List Member → List String
  | [] => []
  | .type t :: ms => t.qualifiedNames pre ++ nestedNames pre ms
  | .field _ _ :: ms => nestedNames pre ms
  | .method _ _ :: ms => nestedNames pre ms
  | .abstractMethod _ _ :: ms => nestedNames pre ms
  | .initializer _ :: ms => nestedNames pre ms
  | .constructor :: ms => nestedNames pre ms
  | .enumConstant _ :: ms => nestedNames pre ms

end

/-- The names of the types that the items of a file declare, each after the package declared last. -/
def topLevelNames (pre : String) : List TopLevel → List String
  | [] => []
  | .package name :: items => topLevelNames (name ++ ".") items
  | .type t :: items => t.qualifiedNames pre ++ topLevelNames pre items
  | .imported _ :: items => topLevelNames pre items
  | .other :: items => topLevelNames pre items

/-- **The names of the types of a file**, in source order. -/
def UnitTree.qualifiedNames (u : UnitTree) : List String := topLevelNames "" u.items

mutual

/-- Lowering keeps the order of the types, and names them by what they stand in. -/
theorem map_qualifiedName_lowerType {package : Option String} {outer : Option Enclosing}
    {pre : String} (hpre : ∀ name, qualifiedName package outer name = pre ++ name) (start : Nat)
    (t : TypeTree) :
    (lowerType package outer start t).map TypeDecl.qualifiedName = t.qualifiedNames pre := by
  cases t with
  | mk header members =>
    rw [lowerType, TypeTree.qualifiedNames, List.map_cons, map_qualifiedName_lowerNested, hpre]
    rfl

theorem map_qualifiedName_lowerNested (package : Option String) (owner : Enclosing) (start : Nat)
    (ms : List Member) : (lowerNested package owner start ms).map TypeDecl.qualifiedName =
      nestedNames (owner.qualifiedName ++ "$") ms := by
  cases ms with
  | nil => rfl
  | cons m ms =>
    cases m with
    | type t =>
      rw [lowerNested, nestedNames, List.map_append, map_qualifiedName_lowerNested,
        map_qualifiedName_lowerType fun _ => rfl]
    | field mods vars => exact map_qualifiedName_lowerNested package owner start ms
    | method header body => exact map_qualifiedName_lowerNested package owner start ms
    | abstractMethod header value => exact map_qualifiedName_lowerNested package owner start ms
    | initializer body => exact map_qualifiedName_lowerNested package owner start ms
    | constructor => exact map_qualifiedName_lowerNested package owner start ms
    | enumConstant name => exact map_qualifiedName_lowerNested package owner start ms

end

/-- The items of a file, read behind others: a package clause renames only what follows it. -/
theorem map_qualifiedName_foldl_add (items : List TopLevel) {f : ParsedFile} {pre : String}
    (hpre : ∀ name, qualifiedName f.package none name = pre ++ name) :
    (items.foldl ParsedFile.add f).types.map TypeDecl.qualifiedName =
      f.types.map TypeDecl.qualifiedName ++ topLevelNames pre items := by
  induction items generalizing f pre with
  | nil => simp [topLevelNames]
  | cons item items ih =>
    cases item with
    | package name => exact ih (f := f.add (.package name)) fun _ => rfl
    | imported i => exact ih (f := f.add (.imported i)) hpre
    | type t =>
      rw [List.foldl_cons, ih (f := f.add (.type t)) hpre, ParsedFile.add, List.map_append,
        map_qualifiedName_lowerType hpre, topLevelNames, List.append_assoc]
    | other => exact ih (f := f.add .other) hpre

/-- **The types of a file are those written in it**, in source order. -/
theorem UnitTree.map_qualifiedName_lower (u : UnitTree) :
    u.lower.types.map TypeDecl.qualifiedName = u.qualifiedNames :=
  map_qualifiedName_foldl_add u.items (f := ⟨none, [], []⟩) fun name => by
    rw [String.empty_append]
    rfl

end Syntax

/-! ## The types of all files -/

namespace Codebase

variable (withAccessors : Bool) (unit base : Nat) (t : TypeDecl)

@[simp]
theorem name_place : (place withAccessors unit base t).name = t.name := by
  cases withAccessors <;> rfl

@[simp]
theorem qualifiedName_place : (place withAccessors unit base t).qualifiedName = t.qualifiedName := by
  cases withAccessors <;> rfl

@[simp]
theorem unit_place : (place withAccessors unit base t).unit = ⟨unit⟩ := by
  cases withAccessors <;> rfl

@[simp]
theorem outer_place :
    (place withAccessors unit base t).outer = t.outer.map fun o => ⟨base + o.index⟩ := by
  cases withAccessors <;> rfl

end Codebase

/-- **A file may be put behind others**, when its positions count on from theirs. -/
theorem WellNested.append_place {ts us : List TypeDecl} (ht : WellNested ts) (hu : WellNested us)
    (withAccessors : Bool) (unit : Nat) :
    WellNested (ts ++ us.map (Codebase.place withAccessors unit ts.length)) := by
  intro i e o he ho
  by_cases hi : i < ts.length
  · exact ht.of_lt_length hi he ho
  · rw [List.getElem?_append_right (by omega), List.getElem?_map] at he
    obtain ⟨d, hd, rfl⟩ := Option.map_eq_some_iff.mp he
    rw [Codebase.outer_place] at ho
    obtain ⟨o', ho', rfl⟩ := Option.map_eq_some_iff.mp ho
    obtain ⟨hlt, p, hp, hin⟩ := hu _ d o' hd ho'
    refine ⟨by simp only; omega, Codebase.place withAccessors unit ts.length p, ?_, ?_⟩
    · rw [List.getElem?_append_right (by simp), List.getElem?_map]
      simp [hp]
    · exact ⟨by simp, by simpa using hin.qualifiedName_eq⟩

namespace Codebase

/-- What holds without any files and is kept by every file holds of all files together. -/
theorem assemble_induction {withAccessors : Bool} {catalog : Catalog} {files : List SourceFile}
    {P : Codebase → Prop} (hstart : P ⟨[], [], catalog⟩)
    (hadd : ∀ c, P c → ∀ f ∈ files, P (c.addFile withAccessors f)) :
    P (assemble withAccessors catalog files) := List.foldlRecOn files _ hstart hadd

/-- The positions in a code base are in range, and its types are well nested. -/
structure WellFormed (c : Codebase) : Prop where
  units : ∀ d ∈ c.types, d.unit.index < c.units.length
  nested : WellNested c.types

namespace WellFormed

variable {c : Codebase}

theorem addFile (h : c.WellFormed) (withAccessors : Bool) {f : SourceFile}
    (hf : WellNested f.parsed.types) : (c.addFile withAccessors f).WellFormed where
  units d hd := by
    have hlen : (c.addFile withAccessors f).units.length = c.units.length + 1 :=
      List.length_append
    rw [hlen]
    rcases List.mem_append.mp hd with hd | hd
    · exact Nat.lt_succ_of_lt (h.units d hd)
    · obtain ⟨t, -, rfl⟩ := List.mem_map.mp hd
      simp
  nested := h.nested.append_place hf withAccessors c.units.length

theorem assemble (withAccessors : Bool) (catalog : Catalog) {files : List SourceFile}
    (hfiles : ∀ f ∈ files, WellNested f.parsed.types) :
    (Codebase.assemble withAccessors catalog files).WellFormed := by
  refine assemble_induction ⟨fun d hd => ?_, WellNested.nil⟩ fun c hc f hf => ?_
  · simp at hd
  · exact hc.addFile withAccessors (hfiles f hf)

/-! ## What follows of a well-formed code base -/

/-- What is around a type, comes before it. -/
theorem outer (h : c.WellFormed) {id o : TypeId} (ho : (c.decl id).outer = some o) :
    o.index < id.index ∧ o.index < c.types.length ∧ (c.decl id).Inside (c.decl o) := by
  have hid : id.index < c.types.length := by
    by_contra hlt
    rw [decl_eq_default hlt] at ho
    exact absurd ho (by simp [show (default : TypeDecl).outer = none from rfl])
  have hd : c.types[id.index]? = some (c.decl id) := by
    rw [decl_eq_getElem hid, List.getElem?_eq_getElem hid]
  obtain ⟨hlt, p, hp, hin⟩ := h.nested _ _ _ hd ho
  have hdecl : c.decl o = p := by rw [decl, hp, Option.getD_some]
  exact ⟨hlt, by omega, hdecl ▸ hin⟩

/-- The check that a link leads to a smaller position always succeeds. -/
theorem enclosing_eq (h : c.WellFormed) (id : TypeId) :
    c.enclosing id = id :: (c.decl id).outer.elim [] c.enclosing := by
  rw [enclosing]
  cases ho : (c.decl id).outer with
  | none => rfl
  | some o => simp [(h.outer ho).1]

/-- Types around each other are handled from the outermost one to the inside. -/
theorem induction_outer (h : c.WellFormed) {P : TypeId → Prop}
    (htop : ∀ id, (c.decl id).outer = none → P id)
    (hinner : ∀ id o, (c.decl id).outer = some o → P o → P id) (id : TypeId) : P id := by
  induction hindex : id.index using Nat.strongRecOn generalizing id with
  | _ k ih =>
    cases ho : (c.decl id).outer with
    | none => exact htop id ho
    | some o => exact hinner id o ho (ih o.index (hindex ▸ (h.outer ho).1) o rfl)

/-- The types around a type stand in the same file. -/
theorem unitOf_eq_of_mem_enclosing (h : c.WellFormed) {id t : TypeId} (ht : t ∈ c.enclosing id) :
    c.unitOf t = c.unitOf id := by
  induction id using h.induction_outer with
  | htop id ho =>
    rw [h.enclosing_eq, ho] at ht
    rw [List.mem_singleton.mp ht]
  | hinner id o ho ih =>
    rw [h.enclosing_eq, ho] at ht
    rcases List.mem_cons.mp ht with rfl | ht
    · rfl
    · rw [ih ht, unitOf, unitOf, (h.outer ho).2.2.unit_eq]

end WellFormed

/-- The type that `n` links lead to, from a type to the one around it. -/
def outward (c : Codebase) : Nat → TypeId → Option TypeId
  | 0, id => some id
  | n + 1, id => (c.decl id).outer.bind (c.outward n)

/-- **The types around a type are those that the links lead to.** -/
theorem WellFormed.getElem?_enclosing {c : Codebase} (h : c.WellFormed) (n : Nat) (id : TypeId) :
    (c.enclosing id)[n]? = c.outward n id := by
  induction n generalizing id with
  | zero => simp [h.enclosing_eq id, outward]
  | succ n ih =>
    rw [h.enclosing_eq id, outward, List.getElem?_cons_succ]
    cases (c.decl id).outer with
    | none => simp
    | some o => exact ih o

/-- The walk outwards ends. -/
theorem WellFormed.exists_outward_eq_none {c : Codebase} (h : c.WellFormed) (id : TypeId) :
    ∃ n, c.outward n id = none := by
  refine ⟨(c.enclosing id).length, ?_⟩
  rw [← h.getElem?_enclosing]
  exact List.getElem?_eq_none (Nat.le_refl _)

/-- The first type of a name is the one that is found by it. -/
theorem resolveType?_eq_some_iff {c : Codebase} {name : String} {id : TypeId} :
    c.resolveType? name = some id ↔ id ∈ c.typeIds ∧ (c.decl id).qualifiedName = name ∧
      ∀ s ∈ c.typeIds, (c.decl s).qualifiedName = name → id.index ≤ s.index := by
  constructor
  · intro h
    obtain ⟨hid, hname⟩ := resolveType?_eq_some h
    refine ⟨mem_typeIds.mpr hid, hname, fun s hs hsname => ?_⟩
    obtain ⟨i, hi, rfl⟩ := Option.map_eq_some_iff.mp h
    obtain ⟨_, _, hfirst⟩ := List.findIdx?_eq_some_iff_getElem.mp hi
    by_contra hlt
    have hne := hfirst s.index (by simpa using hlt)
    rw [← decl_eq_getElem (mem_typeIds.mp hs), hsname] at hne
    simp at hne
  · rintro ⟨hid, hname, hleast⟩
    have hlt := mem_typeIds.mp hid
    refine Option.map_eq_some_iff.mpr ⟨id.index, ?_, rfl⟩
    refine List.findIdx?_eq_some_iff_getElem.mpr ⟨hlt, ?_, fun j hj => ?_⟩
    · rw [← decl_eq_getElem hlt, hname]
      simp
    · intro hfound
      have hj' : j < c.types.length := by omega
      have hsame : (c.decl ⟨j⟩).qualifiedName = name := by
        rw [(decl_eq_getElem hj' : c.decl ⟨j⟩ = c.types[j])]
        simpa using hfound
      have hle := hleast ⟨j⟩ (mem_typeIds.mpr hj') hsame
      simp only at hle
      omega

/-- Only the names of types are resolved, and all of them. -/
theorem isSome_resolveType?_iff {c : Codebase} {name : String} :
    (c.resolveType? name).isSome ↔ ∃ t ∈ c.typeIds, (c.decl t).qualifiedName = name := by
  constructor
  · intro h
    obtain ⟨t, ht⟩ := Option.isSome_iff_exists.mp h
    obtain ⟨hlt, hname⟩ := resolveType?_eq_some ht
    exact ⟨t, mem_typeIds.mpr hlt, hname⟩
  · rintro ⟨t, ht, hname⟩
    have hlt := mem_typeIds.mp ht
    rw [decl_eq_getElem hlt] at hname
    rw [resolveType?, Option.isSome_map, List.findIdx?_isSome, List.any_eq_true]
    exact ⟨_, List.getElem_mem hlt, by simpa using hname⟩

end Codebase

/-! ## The files of a code base -/

/-- A source file as its syntax tree. -/
structure SourceTree where
  path : String
  /-- The build module that the file belongs to. -/
  module : Option String
  tree : Syntax.UnitTree

/-- The declarations of a source file. -/
def SourceTree.lower (s : SourceTree) : SourceFile := ⟨s.path, s.module, s.tree.lower⟩

/-- The types of files by their names, each with the position of its file; that of the first file is
`start`. -/
def SourceTree.declarations (start : Nat) (files : List SourceTree) : List (UnitId × String) :=
  (files.zipIdx start).flatMap fun f => f.1.tree.qualifiedNames.map (⟨f.2⟩, ·)

namespace Codebase

/-- A code base that is assembled from syntax trees is well-formed. -/
theorem WellFormed.assemble_lower (withAccessors : Bool) (catalog : Catalog)
    (files : List SourceTree) :
    (Codebase.assemble withAccessors catalog (files.map SourceTree.lower)).WellFormed := by
  refine .assemble withAccessors catalog fun f hf => ?_
  obtain ⟨s, -, rfl⟩ := List.mem_map.mp hf
  exact s.tree.wellNested_lower

/-- The file of a declaration and its name. -/
def declaration (d : TypeDecl) : UnitId × String := (d.unit, d.qualifiedName)

/-- A file adds the types written in it, and they belong to it. -/
theorem declarations_addFile (c : Codebase) (withAccessors : Bool) (s : SourceTree) :
    (c.addFile withAccessors s.lower).types.map declaration = c.types.map declaration ++
      s.tree.qualifiedNames.map (⟨c.units.length⟩, ·) := by
  rw [addFile, List.map_append, ← s.tree.map_qualifiedName_lower]
  simp [declaration, SourceTree.lower, Function.comp_def]

/-- Files put behind a code base, by induction on the files. -/
theorem declarations_foldl_addFile (withAccessors : Bool) (files : List SourceTree) (c : Codebase) :
    ((files.map SourceTree.lower).foldl (fun c f => c.addFile withAccessors f) c).types.map
        declaration = c.types.map declaration ++ SourceTree.declarations c.units.length files := by
  induction files generalizing c with
  | nil => simp [SourceTree.declarations]
  | cons s files ih =>
    rw [List.map_cons, List.foldl_cons, ih, declarations_addFile, List.append_assoc]
    simp [SourceTree.declarations, addFile]

theorem sources_foldl_addFile (withAccessors : Bool) (files : List SourceTree) (c : Codebase) :
    ((files.map SourceTree.lower).foldl (fun c f => c.addFile withAccessors f) c).units.map
        (fun u => (u.path, u.module)) =
      c.units.map (fun u => (u.path, u.module)) ++ files.map fun f => (f.path, f.module) := by
  induction files generalizing c with
  | nil => simp
  | cons s files ih =>
    rw [List.map_cons, List.foldl_cons, ih]
    simp [addFile, SourceTree.lower]

end Codebase

/-! ## The table of subtypes -/

namespace Codebase

variable {c : Codebase}

/-- A declared direct supertype is the superclass or one of the interfaces. -/
theorem mem_sourceParents_iff {s p : TypeId} :
    p ∈ c.sourceParents s ↔
      (∃ t, c.superclass? (c.sourceType s) = some t ∧ t.sourceId? = some p) ∨
        ∃ t ∈ c.interfaces (c.sourceType s), t.sourceId? = some p := by
  simp only [sourceParents, supertypes, List.mem_filterMap, List.mem_append, Option.mem_toList,
    or_and_right, exists_or]

theorem pairwise_typeIds : c.typeIds.Pairwise fun a b => a.index < b.index := by
  rw [typeIds, List.pairwise_map]
  exact List.pairwise_lt_range

/-- A type is listed next to itself, when it is a subtype more than once, and before all later
ones. -/
theorem pairwise_subtypesOf (p : TypeId) :
    (c.subtypesOf p).Pairwise fun a b => a.index ≤ b.index := by
  rw [subtypesOf, List.pairwise_flatMap]
  constructor
  · intro s hs
    rw [List.pairwise_map]
    exact List.pairwise_of_forall fun _ _ => Nat.le_refl _
  · refine pairwise_typeIds.imp fun hlt x hx y hy => ?_
    obtain ⟨-, -, rfl⟩ := List.mem_map.mp hx
    obtain ⟨-, -, rfl⟩ := List.mem_map.mp hy
    exact Nat.le_of_lt hlt

end Codebase

/-! ## The index -/

/-- **What the index of some files promises**: of its files and types, its positions, its names and its
subtypes. -/
structure Index.WellFormed (files : List SourceTree) (i : Index) : Prop where
  /-- The units are the files, in their order. -/
  units : i.code.units.map (fun u => (u.path, u.module)) = files.map fun f => (f.path, f.module)
  /-- The types are those written in the files, in the order of the files and of the source. -/
  types : i.code.types.map Codebase.declaration = SourceTree.declarations 0 files
  /-- Every type belongs to a file. -/
  unit_lt : ∀ t ∈ i.code.typeIds, (i.code.decl t).unit.index < i.code.units.length
  /-- The type around another one has a place, and that comes before. -/
  outer_lt : ∀ t ∈ i.code.typeIds, ∀ o, (i.code.decl t).outer = some o →
    o ∈ i.code.typeIds ∧ o.index < t.index
  /-- A nested type belongs to the file of the type around it, and is named after that. -/
  inside : ∀ t ∈ i.code.typeIds, ∀ o, (i.code.decl t).outer = some o →
    (i.code.decl t).Inside (i.code.decl o)
  /-- The types around a type are those that its links lead to. -/
  enclosing : ∀ t ∈ i.code.typeIds, ∀ n, (i.code.enclosing t)[n]? = i.code.outward n t
  /-- The links come to an end. -/
  enclosing_ends : ∀ t ∈ i.code.typeIds, ∃ n, i.code.outward n t = none
  /-- The names that are resolved are those of the types. -/
  resolves : ∀ name, (i.code.resolveType? name).isSome ↔
    ∃ t ∈ i.code.typeIds, (i.code.decl t).qualifiedName = name
  /-- A name means the first type that has it. -/
  resolves_first : ∀ name t, i.code.resolveType? name = some t ↔
    t ∈ i.code.typeIds ∧ (i.code.decl t).qualifiedName = name ∧
      ∀ s ∈ i.code.typeIds, (i.code.decl s).qualifiedName = name → t.index ≤ s.index
  /-- The direct subtypes of a type are those that have it as superclass or interface. -/
  subtypes : ∀ p s, s ∈ i.directSubtypes p ↔ s ∈ i.code.typeIds ∧
    ((∃ t, i.code.superclass? (i.code.sourceType s) = some t ∧ t.sourceId? = some p) ∨
      ∃ t ∈ i.code.interfaces (i.code.sourceType s), t.sourceId? = some p)
  /-- They are listed in the order of declaration. -/
  subtypes_sorted : ∀ p, (i.directSubtypes p).Pairwise fun a b => a.index ≤ b.index

namespace Index

theorem pairwise_directSubtypes {c : Codebase} (p : TypeId) :
    ((ofCodebase c).directSubtypes p).Pairwise fun a b => a.index ≤ b.index := by
  by_cases hp : p.index < c.types.length
  · rw [directSubtypes_ofCodebase c hp]
    exact Codebase.pairwise_subtypesOf p
  · rw [directSubtypes_eq_nil hp]
    exact List.Pairwise.nil

/-- **Every assembled index is well-formed**, whatever the files declare: types may be nested to any
depth, and names may be declared more than once. -/
theorem wellFormed_ofTrees (withAccessors : Bool) (catalog : Catalog) (files : List SourceTree) :
    (ofCodebase (Codebase.assemble withAccessors catalog
      (files.map SourceTree.lower))).WellFormed files := by
  have h := Codebase.WellFormed.assemble_lower withAccessors catalog files
  exact
    { units := Codebase.sources_foldl_addFile withAccessors files _
      types := Codebase.declarations_foldl_addFile withAccessors files _
      unit_lt := fun t ht => by
        have hlt := Codebase.mem_typeIds.mp ht
        rw [Codebase.decl_eq_getElem hlt]
        exact h.units _ (List.getElem_mem hlt)
      outer_lt := fun t _ o ho => ⟨Codebase.mem_typeIds.mpr (h.outer ho).2.1, (h.outer ho).1⟩
      inside := fun t _ o ho => (h.outer ho).2.2
      enclosing := fun t _ n => h.getElem?_enclosing n t
      enclosing_ends := fun t _ => h.exists_outward_eq_none t
      resolves := fun name => Codebase.isSome_resolveType?_iff
      resolves_first := fun name t => Codebase.resolveType?_eq_some_iff
      subtypes := fun p s => by
        rw [mem_directSubtypes, Codebase.mem_sourceParents_iff]
        exact and_congr_left fun _ => Codebase.mem_typeIds.symm
      subtypes_sorted := pairwise_directSubtypes }

end Index

end JavaCallGraph

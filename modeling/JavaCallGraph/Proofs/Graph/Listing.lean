import JavaCallGraph.Codebase.Listing
import JavaCallGraph.Proofs.Graph.Termination
import JavaCallGraph.Proofs.Graph.Unambiguous

/-!
# Listed identities

The listing of a code base prints every method by its identity, and a request names a method by such a
text.  In between the text is parsed, and then the method is searched: on its type several methods may
answer to the identity, because a type variable takes any type and because a method answers to the
identities of the declarations above it too.

* `Codebase.mem_methodIds` — what is listed.
* `Codebase.Unambiguous.parsed_identity_found` — a text that is the identity of a method is read back as
  this identity and leads to this method.
* `Codebase.Unambiguous.listed_identity_finds_method` — so every listed text leads to the only method
  that it is the identity of.
-/

set_option autoImplicit false

namespace JavaCallGraph

namespace Codebase

variable {c : Codebase}

/-- **The listing has the identities of the methods that are asked for.** -/
theorem mem_methodIds {synthetic : Bool} {select : String → Bool} {text : String} :
    text ∈ c.methodIds synthetic select ↔
      ∃ m, c.Declared m ∧ select (c.decl m.owner).qualifiedName = true ∧
        (synthetic = true ∨ (c.method m).synthetic = false) ∧ (c.methodId m).canonical = text := by
  simp only [methodIds, List.mem_mergeSort, List.mem_map, List.mem_filter, List.mem_flatMap,
    Bool.or_eq_true, Bool.not_eq_true']
  constructor
  · rintro ⟨m, ⟨⟨t, ⟨-, hselect⟩, hm⟩, hsynthetic⟩, rfl⟩
    have howner : m.owner = t := (mem_methodsOf.mp hm).1
    rw [← howner] at hselect
    exact ⟨m, declared_of_mem_methodsOf hm, hselect, hsynthetic, rfl⟩
  · rintro ⟨m, hm, hselect, hsynthetic, rfl⟩
    exact ⟨m, ⟨⟨m.owner, ⟨Unambiguous.mem_typeIds hm, hselect⟩, hm⟩, hsynthetic⟩, rfl⟩

namespace Unambiguous

/-- A written identity is read back, and it means the method. -/
theorem parsed_identity_found (h : c.Unambiguous) {m : MethodRef} (hm : c.Declared m) :
    (MethodId.parse? (c.methodId m).canonical).bind c.findDeclaration? = some m := by
  rw [MethodId.parse?_canonical (h.isNamed hm), Option.bind_some]
  exact h.findDeclaration?_methodId hm

/-- **Every listed identity finds its own method.**  In an unambiguous code base every method is listed,
and parsing its identity and looking for the declaration gives this method.  Conversely, whatever part of
the methods is listed, each text in the listing finds the only method that has this identity. -/
theorem listed_identity_finds_method (h : c.Unambiguous) :
    (∀ m, c.Declared m →
      (c.methodId m).canonical ∈ c.methodIds true (fun _ => true) ∧
        (MethodId.parse? (c.methodId m).canonical).bind c.findDeclaration? = some m) ∧
      ∀ synthetic select, ∀ text ∈ c.methodIds synthetic select,
        ∃ m, c.Declared m ∧ (c.methodId m).canonical = text ∧
          (MethodId.parse? text).bind c.findDeclaration? = some m ∧
          ∀ k, c.Declared k → (c.methodId k).canonical = text → k = m := by
  refine ⟨fun m hm => ⟨?_, h.parsed_identity_found hm⟩, fun synthetic select text htext => ?_⟩
  · exact mem_methodIds.mpr ⟨m, hm, rfl, Or.inl rfl, rfl⟩
  · obtain ⟨m, hm, -, -, rfl⟩ := mem_methodIds.mp htext
    refine ⟨m, hm, rfl, h.parsed_identity_found hm, fun k hk he => ?_⟩
    exact h.eq_of_canonical_eq hk hm he

end Unambiguous

end Codebase

/-! ## Overloads that answer to each other's identities

The methods of `Low` override `Top.put(T)`, so all of them answer to every type of the parameter. -/

namespace Sample

/-- A generic class with overloads, and a subclass with other ones. -/
def crowded : Codebase where
  units := [⟨"Crowded.java", none, [], none⟩]
  types :=
    [{ classDecl "Top" []
        [unary "put" (.simple "T") [], unary "put" (.primitive .int) []] with
        typeParams := [⟨"T", []⟩] },
     classDecl "Low" [.simple "Top"]
      [unary "put" (.simple "Low") [], unary "put" (.simple "Top") [],
       unary "put" (.primitive .long) []]]
  catalog := .empty

end Sample

namespace Codebase.Unambiguous

/-- Three methods answer to `Low#put(Top)`, the right one is found. -/
theorem listed_identity_finds_method_sample :
    Sample.crowded.Unambiguous ∧
      Sample.crowded.candidatesIn ⟨1⟩ ⟨"Low", "put", ["Top"]⟩ =
        [⟨⟨1⟩, 0⟩, ⟨⟨1⟩, 1⟩, ⟨⟨1⟩, 2⟩] ∧
      "Low#put(Top)" ∈ Sample.crowded.methodIds true (fun _ => true) ∧
      (MethodId.parse? "Low#put(Top)").bind Sample.crowded.findDeclaration? = some ⟨⟨1⟩, 1⟩ := by
  have hu : Sample.crowded.Unambiguous := by decide +kernel
  have hm : Sample.crowded.Declared ⟨⟨1⟩, 1⟩ :=
    declared_of_mem_methodsOf (by decide +kernel : ⟨⟨1⟩, 1⟩ ∈ Sample.crowded.methodsOf ⟨1⟩)
  have htext : (Sample.crowded.methodId ⟨⟨1⟩, 1⟩).canonical = "Low#put(Top)" := by decide +kernel
  obtain ⟨hlisted, hfound⟩ := (listed_identity_finds_method hu).1 ⟨⟨1⟩, 1⟩ hm
  rw [htext] at hlisted hfound
  exact ⟨hu, by decide +kernel, hlisted, hfound⟩

end Codebase.Unambiguous

end JavaCallGraph

import JavaCallGraph.Catalog.Basic

/-!
# Short forms for the records of the built-in catalog
-/

set_option autoImplicit false

namespace JavaCallGraph.Catalog.Jdk

/-- An instance method. -/
def method (name : String) (params : List String) (returns : String) : CompiledMethod :=
  ⟨name, params, returns, false, false⟩

/-- A static method. -/
def static (name : String) (params : List String) (returns : String) : CompiledMethod :=
  ⟨name, params, returns, false, true⟩

/-- An instance method with a variable number of arguments. -/
def varargs (name : String) (params : List String) (returns : String) : CompiledMethod :=
  ⟨name, params, returns, true, false⟩

/-- A static method with a variable number of arguments. -/
def staticVarargs (name : String) (params : List String) (returns : String) : CompiledMethod :=
  ⟨name, params, returns, true, true⟩

/-- A static field. -/
def constant (name type : String) : CompiledField := ⟨name, type, true⟩

end JavaCallGraph.Catalog.Jdk

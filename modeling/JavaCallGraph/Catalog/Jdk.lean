import JavaCallGraph.Catalog.Jdk.Lang
import JavaCallGraph.Catalog.Jdk.Util
import JavaCallGraph.Catalog.Jdk.Support

/-!
# The built-in catalog

A slice of the standard library that is there without any metadata file.
-/

set_option autoImplicit false

namespace JavaCallGraph

/-- The described part of the standard library. -/
def Catalog.jdk : Catalog := ⟨Catalog.Jdk.lang ++ Catalog.Jdk.util ++ Catalog.Jdk.support⟩

end JavaCallGraph

import JavaCallGraph.Graph.View
import JavaCallGraph.Json.Printer

/-!
# Graphs as documents

The two JSON forms of a resolved method: the tree, in which a shared node is written wherever it
occurs, and the flat view, in which every method is written once.
-/

set_option autoImplicit false

namespace JavaCallGraph

open Json (object text texts)

mutual

/-- **A graph as a tree.** -/
def MethodInfo.document : MethodInfo → Json
  | .mk id _ dependencies overrides =>
    object
      [("id", text id.canonical),
       ("dependencies", .arr (Calling.documents dependencies)),
       ("overrides", .arr (MethodInfo.documents overrides))]

/-- Several graphs. -/
def MethodInfo.documents : List MethodInfo → List Json
  | [] => []
  | m :: ms => m.document :: MethodInfo.documents ms

/-- An edge with the graph of its callee. -/
def Calling.document : Calling → Json
  | .method callee r => object [("method", callee.document), ("callingType", text r.label)]
  | .recursiveAt id r => object [("recursiveAt", text id.canonical), ("callingType", text r.label)]

/-- Several edges. -/
def Calling.documents : List Calling → List Json
  | [] => []
  | d :: ds => d.document :: Calling.documents ds

end

/-- A parameter. -/
def ArgumentView.document (a : ArgumentView) : Json :=
  object [("name", text a.name), ("type", text a.type)]

/-- A node. -/
def MethodView.document (m : MethodView) : Json :=
  object
    [("id", text m.id), ("name", text m.name), ("declaringClass", text m.declaringClass),
     ("arguments", .arr (m.arguments.map ArgumentView.document))]

/-- An edge. -/
def EdgeView.document (e : EdgeView) : Json :=
  object [("from", text e.source), ("to", text e.target), ("type", text e.relation.label)]

/-- **A flat view**; nodes and overriding methods are filed under their identities. -/
def GraphView.document (v : GraphView) : Json :=
  object
    [("rootMethodId", text v.root),
     ("methods", object (v.methods.map fun m => (m.id, m.document))),
     ("callings", .arr (v.callings.map EdgeView.document)),
     ("recursions", .arr (v.recursions.map EdgeView.document)),
     ("overrides", object (v.overrides.map fun o => (o.1, texts o.2)))]

end JavaCallGraph

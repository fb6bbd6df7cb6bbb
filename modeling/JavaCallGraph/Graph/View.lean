import JavaCallGraph.Codebase.Lookup
import JavaCallGraph.Graph.MethodInfo

/-!
# The flat view of a graph

A graph is a tree with shared parts; its flat view lists every method once and every edge once.
`expanded` walks the tree breadth-first from the root and keeps, of all nodes with one identity, the
one met first.  Everything in the view is read off the nodes that it keeps, in their order.
-/

set_option autoImplicit false

namespace JavaCallGraph

/-- The nodes met by a breadth-first walk over `queue`, where `visited` are the identities that are
listed or waiting. -/
def MethodInfo.expandFrom (visited : List String) : List MethodInfo → List MethodInfo
  | [] => []
  | m :: queue =>
    let new := Layers.fresh MethodInfo.key visited m.children
    m :: expandFrom (new.map MethodInfo.key ++ visited) (queue ++ new)
termination_by queue => totalSize queue
decreasing_by
  simp only [totalSize_append, totalSize_cons]
  have h1 := totalSize_fresh_le visited m.children
  have h2 := totalSize_children_lt m
  omega

/-- **The nodes of a graph, each identity once**, in breadth-first order. -/
def MethodInfo.expanded (root : MethodInfo) : List MethodInfo := expandFrom [root.key] [root]

/-- A parameter by name and type. -/
structure ArgumentView where
  name : String
  type : String
  deriving DecidableEq, Repr

/-- A method by identity and signature. -/
structure MethodView where
  id : String
  name : String
  declaringClass : String
  arguments : List ArgumentView
  deriving DecidableEq, Repr

/-- An edge between two identities. -/
structure EdgeView where
  source : String
  target : String
  relation : Relation
  deriving DecidableEq, Repr

/-- A graph as lists of nodes and edges. -/
structure GraphView where
  root : String
  methods : List MethodView
  callings : List EdgeView
  /-- The edges that only name their callee. -/
  recursions : List EdgeView
  /-- For every method that has some, the methods that override it. -/
  overrides : List (String × List String)
  deriving Repr

namespace GraphView

/-- The parameters of a node: those of its declaration, else numbered ones. -/
def argumentsOf (c : Codebase) (m : MethodInfo) : List ArgumentView :=
  match m.declaration with
  | some d => (c.method d).params.zipWith (fun p t => ⟨p.name, t.name⟩) (c.paramTypes d)
  | none => m.id.params.zipIdx.map fun (t, i) => ⟨"arg" ++ toString i, t⟩

/-- A node without its edges. -/
def methodView (c : Codebase) (m : MethodInfo) : MethodView :=
  ⟨m.key, m.id.name, m.id.declaringType, argumentsOf c m⟩

/-- An edge of a node. -/
def edgeView (m : MethodInfo) (d : Calling) : EdgeView :=
  ⟨m.key, d.calleeId.canonical, d.relation⟩

/-- The edges of a node to methods that are part of the graph. -/
def callingsOf (m : MethodInfo) : List EdgeView :=
  (m.dependencies.filter fun d => !d.isRecursive).map (edgeView m)

/-- The edges of a node that only name their callee. -/
def recursionsOf (m : MethodInfo) : List EdgeView :=
  (m.dependencies.filter Calling.isRecursive).map (edgeView m)

/-- The overriding methods of a node, if it has any. -/
def overridesOf (m : MethodInfo) : Option (String × List String) :=
  if m.overrides.isEmpty then none else some (m.key, m.overrides.map MethodInfo.key)

/-- **The flat view of a graph.** -/
def ofRoot (c : Codebase) (root : MethodInfo) : GraphView :=
  let nodes := root.expanded
  { root := root.key
    methods := nodes.map (methodView c)
    callings := nodes.flatMap callingsOf
    recursions := nodes.flatMap recursionsOf
    overrides := nodes.filterMap overridesOf }

end GraphView

end JavaCallGraph

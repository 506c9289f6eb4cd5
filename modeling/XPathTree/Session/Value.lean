import XPathTree.ResultNode

/-! # Values a session holds

A handle on a node of the tree, on a namespace node, or on a result node. Each
keeps at most one node of the tree in being, with all that is below it.
-/

namespace XPathTree

universe u

variable {N : Type u}

inductive Value (N : Type u)
  | treeNode (node : N)
  | namespaceNode (node : NamespaceNode N)
  | result (node : ResultNode N)
deriving DecidableEq, Repr

namespace Value

/-- The value as a result node. -/
def toResult : Value N → ResultNode N
  | .treeNode node => .host node
  | .namespaceNode node => .namespaceNode node
  | .result node => node

/-- The value inside a result node. -/
def ofResult : ResultNode N → Value N
  | .host node => .treeNode node
  | .namespaceNode node => .namespaceNode node

/-- The node of the tree that the value keeps in being. -/
def owned? (value : Value N) : Option N :=
  match value.toResult with
  | .host node => some node
  | .namespaceNode node => node.parent

def treeNode? : Value N → Option N
  | .treeNode node => some node
  | _ => none

def namespaceNode? : Value N → Option (NamespaceNode N)
  | .namespaceNode node => some node
  | _ => none

end Value

end XPathTree

import XPathTree.NamespaceNode.Basic

/-! # Nodes of a result

What an XPath evaluation returns: nodes of the host tree and namespace nodes
side by side. A namespace node is never equal to a node of the tree.
-/

namespace XPathTree

universe u

variable {N : Type u}

open Text

inductive ResultNode (N : Type u)
  | host (node : N)
  | namespaceNode (node : NamespaceNode N)
deriving DecidableEq, Repr

namespace ResultNode

variable (tree : Host N)

def kind : ResultNode N → NodeKind
  | .host node => tree.kind node
  | .namespaceNode _ => .namespaceNode

def nodeName : ResultNode N → String
  | .host node => tree.nodeName node
  | .namespaceNode node => node.pfx

def localName : ResultNode N → Option String
  | .host node => tree.localName node
  | .namespaceNode node => some node.pfx

def nodeValue : ResultNode N → Option String
  | .host node => tree.nodeValue node
  | .namespaceNode node => some node.uri

def stringValue : ResultNode N → String
  | .host node => tree.stringValue node
  | .namespaceNode node => node.uri

def parent : ResultNode N → Option N
  | .host node => tree.parent node
  | .namespaceNode node => node.parent

def ownerDocument : ResultNode N → Option N
  | .host node => tree.ownerDocument node
  | .namespaceNode node => node.ownerDocument tree

def asHost? : ResultNode N → Option N
  | .host node => some node
  | .namespaceNode _ => none

def asNamespaceNode? : ResultNode N → Option (NamespaceNode N)
  | .host _ => none
  | .namespaceNode node => some node

def same : ResultNode N → ResultNode N → Bool
  | .host a, .host b => tree.same a b
  | .namespaceNode a, .namespaceNode b => a.same tree b
  | _, _ => false

def equal : ResultNode N → ResultNode N → Bool
  | .host a, .host b => tree.equal a b
  | .namespaceNode a, .namespaceNode b => a.equal tree b
  | _, _ => false

/-- What a node is hashed by: a node of the tree by its key there, a namespace node
by its code. -/
def hashKey : ResultNode N → Int ⊕ HashCode
  | .host node => .inl (tree.hashKey node)
  | .namespaceNode node => .inr (node.hashCode tree)

/-- An attribute is written as in a document, an element or document by its name
alone, and any other node by its name around its value. -/
def hostText (node : N) : String :=
  match tree.kind node, tree.nodeValue node with
  | .element, _ | .document, _ | _, none => tree.nodeName node
  | .attribute, some value => tree.nodeName node ++ "=\"" ++ value ++ "\""
  | _, some value => tree.nodeName node ++ "(" ++ value ++ ")"

def text : ResultNode N → String
  | .host node => hostText tree node
  | .namespaceNode node => node.text

def outline : ResultNode N → Outline
  | .host node => .wrap "Host" (tree.outline node)
  | .namespaceNode node => .wrap "Namespace" (node.outline tree)

end ResultNode

end XPathTree

import XPathTree.NoChildren
import XPathTree.NamespaceNode.Basic

/-! # Reading a namespace node

What a namespace node answers to the questions any node of a document can be
asked. It hangs below no node and beside none: only parent, name and value are
there to be read.
-/

namespace XPathTree

universe u

/-- The answers of a node to the questions that never fail. -/
structure NodeReading (N : Type u) where
  kind : NodeKind
  nodeName : String
  localName : Option String
  pfx : Option String
  namespaceUri : Option String
  nodeValue : Option String
  textContent : Option String
  parent : Option N
  ownerDocument : Option N
  children : NoChildren N
  firstChild : Option N
  lastChild : Option N
  previousSibling : Option N
  nextSibling : Option N
  attributes : Option (List N)

namespace NodeReading

variable {N : Type u}

def nodeType (reading : NodeReading N) : Nat := reading.kind.code

def hasChildren (reading : NodeReading N) : Bool := !reading.children.isEmpty

def hasAttributes (reading : NodeReading N) : Bool := !(reading.attributes.getD []).isEmpty

end NodeReading

/-- A namespace node goes by its prefix and stands for its namespace. It belongs
to no namespace itself and has no prefix that would place it in one. -/
def NamespaceNode.reading {N : Type u} (host : Host N) (node : NamespaceNode N) :
    NodeReading N where
  kind := .namespaceNode
  nodeName := node.pfx
  localName := some node.pfx
  pfx := none
  namespaceUri := none
  nodeValue := some node.uri
  textContent := some node.uri
  parent := node.parent
  ownerDocument := node.ownerDocument host
  children := {}
  firstChild := none
  lastChild := none
  previousSibling := none
  nextSibling := none
  attributes := none

end XPathTree

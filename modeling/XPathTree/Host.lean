import XPathTree.NodeKind
import XPathTree.ParentChain
import XPathTree.QName

/-! # Host trees

What a document tree answers about its nodes: the reading the namespace axis
needs and nothing else. A host may hold its nodes in any way, and its notion of
equality may be coarser than identity.
-/

namespace XPathTree

universe u

variable {N : Type u}

open Text

/-- Elements and attributes are called by the last part of their written name. -/
def localNameOfWritten (kind : NodeKind) (written : String) : Option String :=
  match kind with
  | .element | .attribute => some (afterLastColon written)
  | _ => none

/-- The reading interface of a document tree with nodes of type `N`. -/
structure Host (N : Type u) where
  kind : N → NodeKind
  /-- The name as the document writes it, such as `p:item` or `xmlns:p`. -/
  nodeName : N → String
  nodeValue : N → Option String
  localName : N → Option String := fun node => localNameOfWritten (kind node) (nodeName node)
  /-- The text a node stands for; for hosts without text below elements, its value. -/
  stringValue : N → String := fun node => (nodeValue node).getD ""
  namespaceUri : N → Option String := fun _ => none
  parent : N → Option N
  ownerDocument : N → Option N
  attributes : N → List N
  /-- Whether two handles lead to one node. -/
  same : N → N → Bool
  /-- The equality the host gives its nodes. -/
  equal : N → N → Bool
  /-- What a node is hashed by. -/
  hashKey : N → Int
  outline : N → Outline
  /-- How many nodes a finite parent chain can have at most. A longer walk is in a cycle. -/
  reach : N → Nat
  length_le_reach : ∀ node chain, ParentChain parent node chain → chain.length ≤ reach node

namespace Host

/-- The node and its ancestors, outward. -/
def ancestorsOrSelf (host : Host N) (node : N) : List N :=
  climb host.parent (host.reach node) node

theorem ancestorsOrSelf_eq (host : Host N) {node : N} {chain : List N}
    (hchain : ParentChain host.parent node chain) : host.ancestorsOrSelf node = chain :=
  hchain.climb_eq (host.length_le_reach node chain hchain)

end Host

end XPathTree

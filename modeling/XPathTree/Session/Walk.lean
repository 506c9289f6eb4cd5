import XPathTree.Session.Basic

/-! # Walks

Following the links of a tree, one after another, from a node or from a held
value.
-/

namespace XPathTree

inductive Hop
  | parent
  | ownerDocument
  | attribute (index : Nat)
  | child (index : Nat)
deriving DecidableEq, Repr

variable {σ : Type} [Source σ]

namespace Source

/-- Where a link leads, if it leads anywhere. -/
def hop? (source : σ) (node : NodeId) : Hop → Option NodeId
  | .parent => (host source).parent node
  | .ownerDocument => (host source).ownerDocument node
  | .attribute index => ((host source).attributes node)[index]?
  | .child index => ((children? source node).getD [])[index]?

def walk? (source : σ) (node : NodeId) : List Hop → Option NodeId
  | [] => some node
  | hop :: path => (hop? source node hop).bind fun next => walk? source next path

end Source

namespace Session

/-- The first hop from a value. A namespace node and a result node have a parent
and an owner document but offer no other way. -/
def leave? (session : Session σ) (value : Value NodeId) (hop : Hop) : Option NodeId :=
  match value, hop with
  | .treeNode node, hop => Source.hop? session.source node hop
  | value, .parent => value.toResult.parent session.host
  | value, .ownerDocument => value.toResult.ownerDocument session.host
  | _, _ => none

/-- The value at the end of a walk; the very value where there is no way to go. -/
def walk? (session : Session σ) (value : Value NodeId) : List Hop → Option (Value NodeId)
  | [] => some value
  | hop :: path =>
      ((session.leave? value hop).bind fun node => Source.walk? session.source node path).map
        .treeNode

end Session

end XPathTree

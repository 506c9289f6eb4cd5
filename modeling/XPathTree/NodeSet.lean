import XPathTree.ResultNode

/-! # Node sets

Result nodes without repetition, in the order in which they first came.
-/

namespace XPathTree

universe u

variable {N : Type u}

structure NodeSet (N : Type u) where
  members : List (ResultNode N)

namespace NodeSet

def empty : NodeSet N := ⟨[]⟩

def size (set : NodeSet N) : Nat := set.members.length

def contains (tree : Host N) (set : NodeSet N) (node : ResultNode N) : Bool :=
  set.members.any (·.equal tree node)

/-- Whether the node is new to the set, and the set with it. -/
def insert (tree : Host N) (set : NodeSet N) (node : ResultNode N) : Bool × NodeSet N :=
  if set.contains tree node then (false, set) else (true, ⟨set.members ++ [node]⟩)

/-- Inserts nodes one after another and tells of each whether it was new. -/
def insertAll (tree : Host N) (set : NodeSet N) : List (ResultNode N) → List Bool × NodeSet N
  | [] => ([], set)
  | node :: nodes =>
      let (fresh, set) := set.insert tree node
      let (freshness, set) := set.insertAll tree nodes
      (fresh :: freshness, set)

end NodeSet

end XPathTree

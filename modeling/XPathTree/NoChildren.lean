/-! # Lists of no children

The child list of a node that can have no children. It holds nothing at any
index, and any two of them are the same list.
-/

namespace XPathTree

universe u

structure NoChildren (N : Type u) where
deriving DecidableEq, Repr

namespace NoChildren

variable {N : Type u}

def length (_ : NoChildren N) : Nat := 0

def isEmpty (_ : NoChildren N) : Bool := true

/-- Absent at every index, negative ones included. -/
def item? (_ : NoChildren N) (_index : Int) : Option N := none

/-- The next node and what is left to read. -/
def next (nodes : NoChildren N) : Option N × NoChildren N := (none, nodes)

/-- The least and the greatest number of nodes left to read. -/
def sizeBounds (nodes : NoChildren N) : Nat × Option Nat := (nodes.length, some nodes.length)

def toList (_ : NoChildren N) : List N := []

/-- The word the list prints as. -/
def name : String := "EmptyNodeList"

theorem eq_of_any (a b : NoChildren N) : a = b := rfl

end NoChildren

end XPathTree

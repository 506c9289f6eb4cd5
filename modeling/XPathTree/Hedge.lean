/-! # Hedges

A hedge is a row of trees whose nodes carry labels. Below a node stand two
hedges: its attributes and its children. The searches here go through
`Hedge.subtrees`, which lists every node with what is below it, outermost first.
-/

namespace XPathTree

universe u v

inductive Hedge (α : Type u)
  | nil
  | cons (root : α) (attributes children rest : Hedge α)
deriving DecidableEq, Repr

/-- One tree, opened at its root. -/
structure Tree (α : Type u) where
  root : α
  attributes : Hedge α
  children : Hedge α
deriving DecidableEq, Repr

variable {α : Type u} {β : Type v}

namespace Hedge

def append : Hedge α → Hedge α → Hedge α
  | nil, other => other
  | cons root attributes children rest, other => cons root attributes children (rest.append other)

instance : Append (Hedge α) := ⟨append⟩

def map (f : α → β) : Hedge α → Hedge β
  | nil => nil
  | cons root attributes children rest =>
      cons (f root) (attributes.map f) (children.map f) (rest.map f)

/-- The number of nodes. -/
def size : Hedge α → Nat
  | nil => 0
  | cons _ attributes children rest => 1 + attributes.size + children.size + rest.size

/-- The trees of the row, left to right. -/
def trees : Hedge α → List (Tree α)
  | nil => []
  | cons root attributes children rest => ⟨root, attributes, children⟩ :: rest.trees

/-- Every tree in the hedge, at any depth. -/
def subtrees : Hedge α → List (Tree α)
  | nil => []
  | cons root attributes children rest =>
      ⟨root, attributes, children⟩ :: (attributes.subtrees ++ children.subtrees ++ rest.subtrees)

def roots (hedge : Hedge α) : List α := hedge.trees.map (·.root)

/-- Every label: a node first, then its attributes, then its children. -/
def labels (hedge : Hedge α) : List α := hedge.subtrees.map (·.root)

def find? (p : α → Bool) (hedge : Hedge α) : Option (Tree α) :=
  hedge.subtrees.find? fun tree => p tree.root

/-- The trees of the row whose root is sought. -/
def filterRoots (p : α → Bool) : Hedge α → Hedge α
  | nil => nil
  | cons root attributes children rest =>
      if p root then cons root attributes children (rest.filterRoots p) else rest.filterRoots p

/-- The outermost trees whose root is sought, at any depth. What stands above
them is left out, what stands below them stays. -/
def outermost (p : α → Bool) : Hedge α → Hedge α
  | nil => nil
  | cons root attributes children rest =>
      if p root then cons root attributes children (rest.outermost p)
      else attributes.outermost p ++ children.outermost p ++ rest.outermost p

end Hedge

/-- How a node stands in the tree it is listed from. -/
inductive Role
  | self
  | attribute
  | child
deriving DecidableEq, Repr

/-- A line of a listing: a label, how deep it stands, and what it stands under. -/
structure Entry (α : Type u) where
  depth : Nat
  role : Role
  above : Option α
  label : α
deriving Repr

/-- The lines of a hedge below a node. -/
def Hedge.listing (depth : Nat) (role : Role) (above : α) : Hedge α → List (Entry α)
  | nil => []
  | cons root attributes children rest =>
      ⟨depth, role, some above, root⟩ ::
        (attributes.listing (depth + 1) .attribute root ++
          children.listing (depth + 1) .child root ++ rest.listing depth role above)

namespace Tree

def toHedge (tree : Tree α) : Hedge α := .cons tree.root tree.attributes tree.children .nil

def map (f : α → β) (tree : Tree α) : Tree β where
  root := f tree.root
  attributes := tree.attributes.map f
  children := tree.children.map f

/-- Every node of the tree: a node first, then its attributes, then its children. -/
def listing (tree : Tree α) : List (Entry α) :=
  ⟨0, .self, none, tree.root⟩ ::
    (tree.attributes.listing 1 .attribute tree.root ++ tree.children.listing 1 .child tree.root)

end Tree

end XPathTree

import XPathTree.Content
import XPathTree.Hedge
import XPathTree.ParentChain

/-! # Forests of documents

The document trees that are there at one time. Every node has an identity, which
no other node ever had. A node holds those below it in being but not the one above
it: to that one leads a link, made once when the node is first put under another.
The link stays when the node above goes, and leads nowhere from then on.
-/

namespace XPathTree

abbrev NodeId := Nat

/-- A node of a forest, apart from what is below it. -/
structure Node where
  id : NodeId
  content : Content
  /-- The node it was put under, if it was ever put under one. -/
  link : Option NodeId
deriving DecidableEq, Repr

/-- The node with its link made. -/
def Node.linkTo (above : NodeId) (node : Node) : Node := { node with link := some above }

def Hedge.ids (hedge : Hedge Node) : List NodeId := hedge.labels.map (·.id)

def Hedge.rootIds (hedge : Hedge Node) : List NodeId := hedge.roots.map (·.id)

/-- A tree without the identities of its nodes. -/
def Tree.contents (tree : Tree Node) : Tree Content := tree.map (·.content)

structure Forest where
  /-- The trees whose root stands under no node. -/
  trees : Hedge Node
  /-- The identity of the next node. -/
  next : NodeId
deriving Repr

namespace Forest

def empty : Forest := ⟨.nil, 0⟩

variable (forest : Forest)

def ids : List NodeId := forest.trees.ids

/-- The node with all that is below it. -/
def tree? (id : NodeId) : Option (Tree Node) := forest.trees.find? (·.id == id)

def content? (id : NodeId) : Option Content := (forest.tree? id).map (·.root.content)

def link? (id : NodeId) : Option NodeId := (forest.tree? id).bind (·.root.link)

def attributes (id : NodeId) : List NodeId :=
  ((forest.tree? id).map (·.attributes.rootIds)).getD []

def children (id : NodeId) : List NodeId :=
  ((forest.tree? id).map (·.children.rootIds)).getD []

/-- Where the link leads, as long as that node is there. -/
def parent? (id : NodeId) : Option NodeId := (forest.link? id).filter (· ∈ forest.ids)

/-- The last node on the way up. -/
def top? (id : NodeId) : Option NodeId :=
  (climb forest.parent? (forest.ids.length + 1) id).getLast?

def IsDocument (id : NodeId) : Prop := (forest.content? id).map (·.kind) = some .document

instance (id : NodeId) : Decidable (forest.IsDocument id) :=
  inferInstanceAs (Decidable (_ = _))

/-- The document at the top of a node's tree. A document has none over itself. -/
def ownerDocument? (id : NodeId) : Option NodeId :=
  if forest.IsDocument id then none else (forest.top? id).filter (forest.IsDocument ·)

def stringValue (id : NodeId) : String :=
  ((forest.tree? id).map (·.contents.stringValue)).getD ""

/-- Adds a node that nothing is below. -/
def sow (content : Content) : NodeId × Forest :=
  (forest.next,
    { trees := forest.trees ++ .cons ⟨forest.next, content, none⟩ .nil .nil .nil
      next := forest.next + 1 })

/-- What is left when only the given nodes and all below them is kept. -/
def retain (held : List NodeId) : Forest :=
  { forest with trees := forest.trees.outermost (·.id ∈ held) }

end Forest

end XPathTree

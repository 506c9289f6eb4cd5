import XPathTree.Declaration
import XPathTree.HashCode

/-! # Namespace nodes

A namespace in scope on an element, as a node of its own: the element asked, a
prefix and a namespace. Two of them are equal when their parents are equal by the
host's own notion; they are the same node only when the parent is the same one.
-/

namespace XPathTree

universe u

variable {N : Type u}

open Text

/-- The parent is the element that was asked, which need not hold the declaration. -/
structure NamespaceNode (N : Type u) where
  parent : Option N
  pfx : String
  uri : String
deriving DecidableEq, Repr

/-- Whether two optional nodes are both absent or both present and related. -/
def bothOrNeither (related : N → N → Bool) : Option N → Option N → Bool
  | none, none => true
  | some a, some b => related a b
  | _, _ => false

namespace NamespaceNode

def ofBinding (parent : Option N) (binding : Binding) : NamespaceNode N :=
  ⟨parent, binding.pfx, binding.uri⟩

/-- The node that a declaration attribute stands for. -/
def ofDeclaration (host : Host N) (parent : Option N) (declaration : N) : NamespaceNode N :=
  ofBinding parent (host.binding declaration)

def binding (node : NamespaceNode N) : Binding := ⟨node.pfx, node.uri⟩

/-- Whether the node stands for the default namespace. -/
def isDefault (node : NamespaceNode N) : Bool := node.pfx == ""

/-- The node written as the attribute that would declare it. -/
def text (node : NamespaceNode N) : String :=
  if node.pfx = "" then "xmlns=\"" ++ node.uri ++ "\""
  else "xmlns:" ++ node.pfx ++ "=\"" ++ node.uri ++ "\""

def outline (host : Host N) (node : NamespaceNode N) : Outline :=
  .record "NamespaceNode"
    [("prefix", .quoted node.pfx),
      ("uri", .quoted node.uri),
      ("parent", .option (node.parent.map host.outline))]

/-- Whether prefix and namespace agree, whatever the parents. -/
def agrees (a b : NamespaceNode N) : Bool := a.pfx == b.pfx && a.uri == b.uri

def equal (host : Host N) (a b : NamespaceNode N) : Bool :=
  bothOrNeither host.equal a.parent b.parent && a.agrees b

def same (host : Host N) (a b : NamespaceNode N) : Bool :=
  bothOrNeither host.same a.parent b.parent && a.agrees b

/-- The sum of the hashes of parent, prefix and namespace; an absent parent adds
nothing. -/
def hashCode (host : Host N) (node : NamespaceNode N) : HashCode :=
  let parent := node.parent.elim HashCode.zero fun parent =>
    HashCode.zero.add (.node (host.hashKey parent))
  (parent.add (.text node.pfx)).add (.text node.uri)

/-- Prefix and namespace may change places. -/
theorem hashCode_swap (host : Host N) (parent : Option N) (a b : String) :
    hashCode host ⟨parent, a, b⟩ = hashCode host ⟨parent, b, a⟩ :=
  HashCode.add_right_comm _ _ _

def ownerDocument (host : Host N) (node : NamespaceNode N) : Option N :=
  node.parent.bind host.ownerDocument

/-- A copy. There is nothing below the node that a deep one could add. -/
def clone (node : NamespaceNode N) (_deep : Bool) : NamespaceNode N := node

end NamespaceNode

end XPathTree

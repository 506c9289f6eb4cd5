import XPathTree.Host
import XPathTree.Reserved

/-! # Namespace declarations

A document declares a namespace by an attribute called `xmlns` or `xmlns:p`, or
by any attribute that its host places in the namespace of declarations. In the
latter case the written name is itself the declared prefix.
-/

namespace XPathTree

universe u

variable {N : Type u}

/-- A prefix and the namespace it is declared to stand for. An empty prefix is
the default namespace; an empty URI takes the prefix out of use. -/
structure Binding where
  pfx : String
  uri : String
deriving DecidableEq, Repr

/-- The namespace in force for the prefix, if the declaration leaves it one. -/
def Binding.target? (binding : Binding) : Option String :=
  if binding.uri = "" then none else some binding.uri

/-- The prefix that a declaration declares, by its written name. A name of another form is
itself the prefix. -/
def declaredPrefix (written : String) : String :=
  if written = xmlnsPrefix then ""
  else match written.dropPrefix? "xmlns:" with
    | some pfx => pfx.copy
    | none => written

namespace Host

def isDeclaration (host : Host N) (node : N) : Bool :=
  host.kind node == .attribute &&
    (host.nodeName node == xmlnsPrefix || (host.nodeName node).startsWith "xmlns:" ||
      host.namespaceUri node == some xmlnsUri)

/-- What an attribute declares, taken as a declaration. -/
def binding (host : Host N) (node : N) : Binding where
  pfx := declaredPrefix (host.nodeName node)
  uri := (host.nodeValue node).getD ""

/-- What a node declares for itself and all below it, in attribute order. Only
elements declare anything. -/
def declarations (host : Host N) (node : N) : List Binding :=
  if host.kind node = .element then
    ((host.attributes node).filter host.isDeclaration).map host.binding
  else []

end Host

end XPathTree

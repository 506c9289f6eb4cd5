import XPathTree.Declaration

/-! # Namespaces in scope

A prefix means what the nearest declaration of it says; on one element the first
declaration counts. `Host.scope` goes outward and collects the deciding
declarations, among them those that take a prefix out of use, and the two lookups
read what it collected.
-/

namespace XPathTree

universe u

variable {N : Type u}

/-- Adds a declaration to those that decide, unless one of them has its prefix. -/
def addDeciding (deciding : List Binding) (declared : Binding) : List Binding :=
  if deciding.any (·.pfx == declared.pfx) then deciding else deciding ++ [declared]

namespace Host

/-- The deciding declaration of each prefix: those of the node in attribute order,
then those of each ancestor outward. -/
def scope (host : Host N) (node : N) : List Binding :=
  (host.ancestorsOrSelf node).foldl
    (fun deciding above => (host.declarations above).foldl addDeciding deciding) []

/-- The namespace a prefix stands for at a node. No prefix, or an empty one,
asks for the default namespace; `xml` is the same everywhere. -/
def lookupNamespaceUri (host : Host N) (node : N) (pfx : Option String) : Option String :=
  if pfx.getD "" = xmlPrefix then some xmlUri
  else ((host.scope node).find? (·.pfx == pfx.getD "")).bind Binding.target?

/-- A prefix that stands for a namespace at a node, the nearest declaration
first. The default namespace has none to offer. -/
def lookupPrefix (host : Host N) (node : N) (uri : String) : Option String :=
  if uri = "" then none
  else if uri = xmlUri then some xmlPrefix
  else ((host.scope node).find? fun binding => binding.pfx != "" && binding.uri == uri).map
    Binding.pfx

end Host

end XPathTree

import XPathTree.NamespaceNode.Basic
import XPathTree.Scope

/-! # The namespace axis

The namespace nodes of an element: one for every prefix in use on it, in the
order in which the deciding declarations are met outward. The prefix `xml` is
always among them; where no declaration gives it a namespace it comes last, with
the reserved one. `axisEvents` tells how an expansion went, prefix by prefix, and
`axisLog` is the record of that.
-/

namespace XPathTree

universe u

variable {N : Type u}

inductive Level
  | trace
  | debug
deriving DecidableEq, Repr

/-- The word for a level in an event log. -/
def Level.name : Level → String
  | .trace => "TRACE"
  | .debug => "DEBUG"

/-- What a field of a log record holds. -/
inductive FieldValue
  | text (value : String)
  | number (value : Nat)
deriving DecidableEq, Repr

/-- An entry of an event log. -/
structure LogRecord where
  level : Level
  message : String
  fields : List (String × FieldValue)
deriving DecidableEq, Repr

/-- A step in the expansion of an axis. -/
inductive AxisEvent
  | undeclared (pfx : String)
  | inScope (pfx uri : String)
  | expanded (element : String) (count : Nat)
deriving DecidableEq, Repr

namespace AxisEvent

def level : AxisEvent → Level
  | .undeclared _ | .inScope .. => .trace
  | .expanded .. => .debug

def message : AxisEvent → String
  | .undeclared _ => "namespace undeclared"
  | .inScope .. => "namespace in scope"
  | .expanded .. => "namespace axis expanded"

def fields : AxisEvent → List (String × FieldValue)
  | .undeclared pfx => [("prefix", .text pfx)]
  | .inScope pfx uri => [("prefix", .text pfx), ("uri", .text uri)]
  | .expanded element count => [("element", .text element), ("count", .number count)]

def record (event : AxisEvent) : LogRecord := ⟨event.level, event.message, event.fields⟩

/-- What a deciding declaration tells. -/
def ofBinding (binding : Binding) : AxisEvent :=
  if binding.uri = "" then .undeclared binding.pfx else .inScope binding.pfx binding.uri

end AxisEvent

namespace Host

/-- The deciding declarations that leave their prefix in use. -/
def bindingsInUse (host : Host N) (element : N) : List Binding :=
  (host.scope element).filter (·.uri ≠ "")

/-- The bindings in use, with the reserved one of `xml` where none is among them. -/
def axisBindings (host : Host N) (element : N) : List Binding :=
  let bindings := host.bindingsInUse element
  if bindings.any (·.pfx == xmlPrefix) then bindings else bindings ++ [⟨xmlPrefix, xmlUri⟩]

/-- The namespace nodes of an element; other nodes have none. -/
def namespaceAxis (host : Host N) (node : N) : List (NamespaceNode N) :=
  if host.kind node = .element then
    (host.axisBindings node).map (.ofBinding (some node))
  else []

def axisEvents (host : Host N) (node : N) : List AxisEvent :=
  if host.kind node = .element then
    (host.scope node).map .ofBinding ++
      [.expanded (host.nodeName node) (host.namespaceAxis node).length]
  else []

/-- What an expansion writes to an event log that leaves nothing out. -/
def axisLog (host : Host N) (node : N) : List LogRecord := (host.axisEvents node).map (·.record)

end Host

end XPathTree

import XPathTree.NamespaceNode.Basic
import XPathTree.Refusal

/-! # Requests to a namespace node

Everything else a node of a document can be asked to do. A namespace node cannot
be edited, has no place in the document to be compared or looked up from, and
knows no features.
-/

namespace XPathTree

universe u

variable {N : Type u}

inductive Request (N : Type u)
  | setNodeValue (text : String)
  | setPrefix (text : String)
  | setTextContent (text : String)
  | insertBefore (new : N) (next : Option N)
  | replaceChild (new old : N)
  | removeChild (old : N)
  | appendChild (new : N)
  | baseUri
  | compareDocumentPosition (other : N)
  | lookupPrefix (uri : String)
  | isDefaultNamespace (uri : String)
  | lookupNamespaceUri (pfx : Option String)
  | userData (key : String)
  | setUserData (key : String) (data : Option String)
  | isSupported (feature version : String)
  | hasFeature (feature version : String)

/-- The answer of a namespace node to a request, where it has one. -/
def NamespaceNode.respond (_ : NamespaceNode N) : Request N → Except Refusal Bool
  | .setNodeValue _ | .setPrefix _ | .setTextContent _ | .insertBefore .. | .replaceChild ..
  | .removeChild _ | .appendChild _ => .error .noModificationAllowed
  | .baseUri => .error (.unsupported "base_uri")
  | .compareDocumentPosition _ => .error (.unsupported "compare_document_position")
  | .lookupPrefix _ => .error (.unsupported "lookup_prefix")
  | .isDefaultNamespace _ => .error (.unsupported "is_default_namespace")
  | .lookupNamespaceUri _ => .error (.unsupported "lookup_namespace_uri")
  | .userData _ => .error (.unsupported "user_data")
  | .setUserData .. => .error (.unsupported "set_user_data")
  | .isSupported .. | .hasFeature .. => .ok false

end XPathTree

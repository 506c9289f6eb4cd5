/-! # Reserved prefixes

The two prefixes that no document may take for its own use, and the namespaces
they stand for.
-/

namespace XPathTree

/-- The namespace of the prefix `xml`, in scope on every element. -/
def xmlUri : String := "http://www.w3.org/XML/1998/namespace"

/-- The namespace of declaration attributes. -/
def xmlnsUri : String := "http://www.w3.org/2000/xmlns/"

def xmlPrefix : String := "xml"

def xmlnsPrefix : String := "xmlns"

end XPathTree

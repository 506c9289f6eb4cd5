import XPathTree.Declaration
import XPathTree.Hedge

/-! # Contents of nodes

What a node of a document holds apart from its place in it: a kind, a name and a value.
The three are independent of each other. That every kind comes with the name and the
value that suit it is owed to the calls by which nodes are made.
-/

namespace XPathTree

structure Content where
  kind : NodeKind
  name? : Option QName
  value? : Option String
deriving DecidableEq, Repr

namespace Content

/-- The name as a document writes it. Some kinds have a fixed word for it, and without a
name there is nothing to write. -/
def nodeName (content : Content) : String :=
  match content.kind with
  | .document => "#document"
  | .text => "#text"
  | .comment => "#comment"
  | _ => (content.name?.map (·.toString)).getD ""

def namespaceUri? (content : Content) : Option String := content.name?.bind (·.uri)

/-- An attribute by its written name. Declarations belong to their own namespace. -/
def ofAttribute (written value : String) : Content where
  kind := .attribute
  name? := some (.parse written
    (if written = xmlnsPrefix ∨ written.startsWith "xmlns:" then some xmlnsUri else none))
  value? := some value

/-- An attribute whose name is taken whole and placed in a namespace. -/
def ofPlacedAttribute (localPart uri value : String) : Content :=
  ⟨.attribute, some ⟨none, localPart, some uri⟩, some value⟩

/-- The attribute that declares a prefix. -/
def ofDeclaration (pfx uri : String) : Content :=
  if pfx = "" then ofAttribute xmlnsPrefix uri else ofAttribute ("xmlns:" ++ pfx) uri

def text (value : String) : Content := ⟨.text, none, some value⟩

def comment (value : String) : Content := ⟨.comment, none, some value⟩

def ofInstruction (target data : String) : Content :=
  ⟨.instruction, some (.parse target none), some data⟩

/-- The text a node contributes to those above it. -/
def ownText (content : Content) : String :=
  if content.kind = .text then content.value?.getD "" else ""

end Content

/-- Writes the text of a hedge of contents after what is written already: that of a node,
then that of its children, then that of what follows it. Attributes are no part of it. -/
def Hedge.writeText (written : String) : Hedge Content → String
  | .nil => written
  | .cons content _ children rest =>
      rest.writeText (children.writeText (written ++ content.ownText))

/-- A document or element stands for the text in its tree, any other node for its value. -/
def Tree.stringValue (tree : Tree Content) : String :=
  match tree.root.kind with
  | .element | .document => tree.toHedge.writeText ""
  | _ => tree.root.value?.getD ""

/-- What a node is made of under which others can be put: it has no value. -/
structure Container where
  kind : NodeKind
  name? : Option QName
deriving DecidableEq, Repr

namespace Container

def content (container : Container) : Content := ⟨container.kind, container.name?, none⟩

def document : Container := ⟨.document, none⟩

def ofElement (written : String) : Container := ⟨.element, some (.parse written none)⟩

end Container

end XPathTree

/-! # Node kinds

The seven kinds of node an XPath evaluator sees, and the numeric node types by
which DOM interfaces name them. Every kind has a node type of its own; a node
type stands for at most one kind, and only character data sections share theirs.
-/

namespace XPathTree

/-- The thirteen node types: those of the DOM, then the namespace node. -/
inductive NodeType
  | element
  | attribute
  | text
  | cdataSection
  | entityReference
  | entity
  | instruction
  | comment
  | document
  | documentType
  | fragment
  | notationDecl
  | namespaceNode
deriving DecidableEq, Repr

/-- The node kinds of the XPath data model. -/
inductive NodeKind
  | document
  | element
  | attribute
  | text
  | comment
  | instruction
  | namespaceNode
deriving DecidableEq, Repr

namespace NodeType

def code : NodeType → Nat
  | .element => 1
  | .attribute => 2
  | .text => 3
  | .cdataSection => 4
  | .entityReference => 5
  | .entity => 6
  | .instruction => 7
  | .comment => 8
  | .document => 9
  | .documentType => 10
  | .fragment => 11
  | .notationDecl => 12
  | .namespaceNode => 13

/-- Every node type, by increasing code. -/
def all : List NodeType :=
  [.element, .attribute, .text, .cdataSection, .entityReference, .entity, .instruction,
    .comment, .document, .documentType, .fragment, .notationDecl, .namespaceNode]

def ofCode? (code : Nat) : Option NodeType :=
  all.find? (·.code == code)

/-- The kind of node a type stands for. A character data section is text to
XPath; entities, document types, fragments and notations have no counterpart. -/
def kind? : NodeType → Option NodeKind
  | .element => some .element
  | .attribute => some .attribute
  | .text | .cdataSection => some .text
  | .instruction => some .instruction
  | .comment => some .comment
  | .document => some .document
  | .namespaceNode => some .namespaceNode
  | .entityReference | .entity | .documentType | .fragment | .notationDecl => none

theorem mem_all (type : NodeType) : type ∈ all := by
  cases type <;> decide

theorem ofCode?_code (type : NodeType) : ofCode? type.code = some type := by
  cases type <;> decide

end NodeType

namespace NodeKind

def nodeType : NodeKind → NodeType
  | .document => .document
  | .element => .element
  | .attribute => .attribute
  | .text => .text
  | .comment => .comment
  | .instruction => .instruction
  | .namespaceNode => .namespaceNode

def code (kind : NodeKind) : Nat := kind.nodeType.code

def ofCode? (code : Nat) : Option NodeKind :=
  (NodeType.ofCode? code).bind NodeType.kind?

/-- Every kind, documents first. -/
def all : List NodeKind :=
  [.document, .element, .attribute, .text, .comment, .instruction, .namespaceNode]

/-- The word for a kind in printed nodes. -/
def name : NodeKind → String
  | .document => "Document"
  | .element => "Element"
  | .attribute => "Attribute"
  | .text => "Text"
  | .comment => "Comment"
  | .instruction => "ProcessingInstruction"
  | .namespaceNode => "Namespace"

def ofName? (name : String) : Option NodeKind :=
  all.find? (·.name == name)

theorem kind?_nodeType (kind : NodeKind) : kind.nodeType.kind? = some kind := by
  cases kind <;> rfl

theorem ofCode?_code (kind : NodeKind) : ofCode? kind.code = some kind := by
  rw [ofCode?, code, NodeType.ofCode?_code, Option.bind_some, kind?_nodeType]

end NodeKind

end XPathTree

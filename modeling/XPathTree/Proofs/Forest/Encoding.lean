import XPathTree.Proofs.Declaration
import XPathTree.Proofs.Forest.Reachable
import XPathTree.Proofs.Forest.Shape
import XPathTree.ResultNode

/-! # Declarations as attributes

An attribute is made for a prefix and a URI by writing the prefix into its name. The namespace
node that is made of it takes the prefix out again, whatever colons are in it, and is written as
the attribute is. A written name is placed in the namespace of declarations just if it is that
of a declaration.
-/

namespace XPathTree

/-- A written name is placed where declarations belong if it is the name of one, and else
nowhere. -/
theorem Content.namespaceUri?_ofAttribute (written value : String) :
    (ofAttribute written value).namespaceUri? =
      if NamesDeclaration written then some xmlnsUri else none :=
  (QName.uri_parse _ _).trans (if_congr (placed_iff written) rfl rfl)

namespace Forest

variable {forest : Forest} {id : NodeId}

/-- A node stands for a prefix and a URI: it is recognised, it is placed where declarations
belong, and the namespace node made of it has both and is written as it is itself. -/
structure Encodes (forest : Forest) (id : NodeId) (pfx uri : String) : Prop where
  isDeclaration : forest.host.isDeclaration id = true
  namespaceUri_eq : forest.host.namespaceUri id = some xmlnsUri
  decoded : ∀ parent, NamespaceNode.ofDeclaration forest.host parent id = ⟨parent, pfx, uri⟩
  text_eq : ∀ parent, (NamespaceNode.ofDeclaration forest.host parent id).text =
    (ResultNode.host id).text forest.host

/-- The three ways to tell a declaration agree on a node with a written name: as a declaration,
by its place and by the name. -/
structure Recognises (forest : Forest) (id : NodeId) (written : String) : Prop where
  placed_iff : forest.host.isDeclaration id = true ↔ forest.host.namespaceUri id = some xmlnsUri
  written_iff : forest.host.isDeclaration id = true ↔
    written = xmlnsPrefix ∨ ∃ rest, written = xmlnsPrefix ++ ":" ++ rest

/-- What a forest makes of prefixes, URIs and written names, in the node that is made for them
and wherever a node holds the same. -/
structure EncodesDeclarations (forest : Forest) : Prop where
  made : ∀ pfx uri, (forest.sow (.ofDeclaration pfx uri)).2.Encodes
    (forest.sow (.ofDeclaration pfx uri)).1 pfx uri
  held : ∀ id pfx uri, forest.content? id = some (.ofDeclaration pfx uri) →
    forest.Encodes id pfx uri
  made_written : ∀ written value, (forest.sow (.ofAttribute written value)).2.Recognises
    (forest.sow (.ofAttribute written value)).1 written
  held_written : ∀ id written value, forest.content? id = some (.ofAttribute written value) →
    forest.Recognises id written

/-! ## Nodes that hold an attribute -/

theorem written_of_content? {written value : String}
    (hcontent : forest.content? id = some (.ofAttribute written value)) :
    forest.host.kind id = .attribute ∧ forest.host.nodeName id = written ∧
      forest.host.nodeValue id = some value := by
  simp only [host, hcontent, Option.map_some, Option.getD_some, Option.bind_some]
  exact ⟨rfl, Content.nodeName_ofAttribute written value, rfl⟩

theorem namespaceUri_of_content? {written value : String}
    (hcontent : forest.content? id = some (.ofAttribute written value)) :
    forest.host.namespaceUri id = some xmlnsUri ↔ NamesDeclaration written := by
  simp only [host, hcontent, Option.bind_some, Content.namespaceUri?_ofAttribute]
  split <;> simp_all

/-- The place is where the name puts it, so asking for both is asking for the name. -/
theorem isDeclaration_of_content? {written value : String}
    (hcontent : forest.content? id = some (.ofAttribute written value)) :
    forest.host.isDeclaration id = true ↔ NamesDeclaration written := by
  obtain ⟨hkind, hname, _⟩ := written_of_content? hcontent
  rw [Host.isDeclaration_iff, hkind, hname, namespaceUri_of_content? hcontent, or_self,
    and_iff_right rfl]

theorem recognises_of_content? {written value : String}
    (hcontent : forest.content? id = some (.ofAttribute written value)) :
    forest.Recognises id written where
  placed_iff :=
    (isDeclaration_of_content? hcontent).trans (namespaceUri_of_content? hcontent).symm
  written_iff := isDeclaration_of_content? hcontent

theorem encodes_of_content? {pfx uri : String}
    (hcontent : forest.content? id = some (.ofDeclaration pfx uri)) :
    forest.Encodes id pfx uri := by
  rw [Content.ofDeclaration_eq] at hcontent
  obtain ⟨hkind, hname, hvalue⟩ := written_of_content? hcontent
  have hnames := namesDeclaration_declarationName pfx
  have hdecoded : ∀ parent,
      NamespaceNode.ofDeclaration forest.host parent id = ⟨parent, pfx, uri⟩ := by
    intro parent
    rw [NamespaceNode.ofDeclaration, Host.binding, hname, hvalue, declaredPrefix_declarationName]
    rfl
  refine ⟨(isDeclaration_of_content? hcontent).mpr hnames,
    (namespaceUri_of_content? hcontent).mpr hnames, hdecoded, fun parent => ?_⟩
  -- The attribute is written by its own name, a namespace node by the name of a declaration.
  rw [hdecoded, NamespaceNode.text_eq, ResultNode.text, ResultNode.hostText, hkind, hvalue, hname]

/-- Nothing is lost between a declaration and the attribute that is made for it, and by no name
is an attribute placed among declarations without being one. -/
theorem Reachable.encodesDeclarations (hforest : forest.Reachable) :
    forest.EncodesDeclarations where
  made _ _ := encodes_of_content? (content?_of_contents? (contents?_sow hforest.wellFormed _))
  held _ _ _ := encodes_of_content?
  made_written _ _ :=
    recognises_of_content? (content?_of_contents? (contents?_sow hforest.wellFormed _))
  held_written _ _ _ := recognises_of_content?

/-- An element over a declaration of a prefix with colons and an attribute whose name only
starts like one, both of which come once more in the element around it. -/
def oddlyDeclaringForest : Forest :=
  let sown := (Forest.empty.sow (.ofDeclaration ":a:b" "urn:x")).2
  let sown := (sown.sow (.ofAttribute "xmlnsx:a" "urn:y")).2
  let built := ((Builder.mk (.ofElement "e") [0, 1] []).build sown).2
  ((Builder.mk (.ofElement "f") [0, 1] [2]).build built).2

theorem encodesDeclarations_oddly :
    oddlyDeclaringForest.Reachable ∧ oddlyDeclaringForest.EncodesDeclarations ∧
      oddlyDeclaringForest.content? 4 = some (.ofDeclaration ":a:b" "urn:x") ∧
      (oddlyDeclaringForest.attributes 3).map oddlyDeclaringForest.host.isDeclaration =
        [true, false] := by
  have hreachable : oddlyDeclaringForest.Reachable :=
    ((((Reachable.empty.sow _).sow _).build _).build _)
  refine ⟨hreachable, hreachable.encodesDeclarations, ?_⟩
  decide +kernel

end Forest

end XPathTree

import Mathlib.Data.List.Basic
import XPathTree.Content
import XPathTree.NamespaceNode.Basic

/-! # Names and declarations as they are written

A qualified name is written back as it was read, wherever its colons are. So the attribute
made for a prefix is written with the name that declares this prefix, and what it declares
can be read off it again. Five places know how declarations are named, each in its own words:
those that make an attribute for a prefix, place an attribute, recognise a declaration, read
the prefix off it and write a namespace node. They are told here to mean the same names.
-/

namespace XPathTree

universe u

namespace QName

/-- A name that was split is written as it was before. -/
theorem toString_parse (written : String) (uri : Option String) :
    (parse written uri).toString = written := by
  have hsplit := List.takeWhile_append_dropWhile (p := (· != ':')) (l := written.toList)
  unfold parse
  split
  next => rfl
  next colon rest hrest =>
    have hhead := List.head?_dropWhile_not (· != ':') written.toList
    rw [hrest] at hsplit hhead
    have hcolon : colon = ':' := by simpa using hhead
    apply String.toList_injective
    simpa [toString, hcolon] using hsplit

theorem uri_parse (written : String) (uri : Option String) : (parse written uri).uri = uri := by
  unfold parse
  split <;> rfl

end QName

/-! ## Names of declarations -/

/-- Whether a written name is that of a declaration: `xmlns`, or what starts with it and a
colon. -/
def NamesDeclaration (written : String) : Prop :=
  written = xmlnsPrefix ∨ ∃ rest, written = xmlnsPrefix ++ ":" ++ rest

/-- The written name of the attribute that declares a prefix. -/
def declarationName (pfx : String) : String :=
  if pfx = "" then xmlnsPrefix else xmlnsPrefix ++ ":" ++ pfx

theorem startsWith_iff (written : String) :
    written.startsWith "xmlns:" = true ↔ ∃ rest, written = xmlnsPrefix ++ ":" ++ rest := by
  rw [String.startsWith_string_iff]
  constructor
  · rintro ⟨rest, hrest⟩
    refine ⟨.ofList rest, String.toList_injective ?_⟩
    rw [← hrest, String.toList_append (s := xmlnsPrefix ++ ":"), String.toList_ofList (l := rest)]
    rfl
  · rintro ⟨rest, rfl⟩
    exact ⟨rest.toList, (String.toList_append (s := "xmlns:")).symm⟩

/-- A prefix is read off a name with a colon after `xmlns`, whatever colons it has itself. -/
theorem declaredPrefix_append (pfx : String) :
    declaredPrefix (xmlnsPrefix ++ ":" ++ pfx) = pfx := by
  -- With the colon the name is longer than the one for the default namespace.
  have hlonger : xmlnsPrefix ++ ":" ++ pfx ≠ xmlnsPrefix := by
    intro hsame
    have hlength := congrArg String.length hsame
    have hcolon : ":".length = 1 := rfl
    rw [String.length_append, String.length_append] at hlength
    omega
  rw [declaredPrefix, if_neg hlonger]
  split
  next rest hrest =>
    have happend : "xmlns:" ++ pfx = "xmlns:" ++ rest.copy :=
      String.eq_append_of_dropPrefix?_string_eq_some hrest
    exact (String.append_right_inj "xmlns:").mp happend.symm
  next hnone =>
    have hnot : (xmlnsPrefix ++ ":" ++ pfx).startsWith "xmlns:" = false :=
      String.Slice.dropPrefix?_eq_none_iff.mp hnone
    rw [(startsWith_iff _).mpr ⟨pfx, rfl⟩] at hnot
    cases hnot

/-- The name that declares a prefix is read as declaring it. -/
theorem declaredPrefix_declarationName (pfx : String) :
    declaredPrefix (declarationName pfx) = pfx := by
  unfold declarationName
  split
  next hempty =>
    rw [hempty]
    rfl
  next => exact declaredPrefix_append pfx

theorem namesDeclaration_declarationName (pfx : String) :
    NamesDeclaration (declarationName pfx) := by
  unfold declarationName
  split
  next => exact Or.inl rfl
  next => exact Or.inr ⟨pfx, rfl⟩

/-- By its name an attribute is placed among declarations if it is the name of one. -/
theorem placed_iff (written : String) :
    written = xmlnsPrefix ∨ written.startsWith "xmlns:" = true ↔ NamesDeclaration written :=
  or_congr_right (startsWith_iff written)

instance (written : String) : Decidable (NamesDeclaration written) :=
  decidable_of_iff _ (placed_iff written)

/-- An attribute is recognised by its name or by its place. -/
theorem Host.isDeclaration_iff {N : Type u} (host : Host N) (node : N) :
    host.isDeclaration node = true ↔ host.kind node = .attribute ∧
      (NamesDeclaration (host.nodeName node) ∨ host.namespaceUri node = some xmlnsUri) := by
  rw [isDeclaration, Bool.and_eq_true, Bool.or_eq_true, Bool.or_eq_true, beq_iff_eq, beq_iff_eq,
    beq_iff_eq, placed_iff]

/-- A namespace node is written with the name that declares its prefix. -/
theorem NamespaceNode.text_eq {N : Type u} (node : NamespaceNode N) :
    node.text = declarationName node.pfx ++ "=\"" ++ node.uri ++ "\"" := by
  unfold text declarationName
  split
  next => rfl
  next => rfl

namespace Content

/-- An attribute is made for a prefix under the name that declares it. -/
theorem ofDeclaration_eq (pfx uri : String) :
    ofDeclaration pfx uri = ofAttribute (declarationName pfx) uri := by
  unfold ofDeclaration declarationName
  split
  next => rfl
  next => rfl

/-- What a node with this content declares, if it is a declaration. -/
def declared? (content : Content) : Option Binding :=
  if content.kind = .attribute ∧ (NamesDeclaration content.nodeName ∨
      content.namespaceUri? = some xmlnsUri) then
    some ⟨declaredPrefix content.nodeName, content.value?.getD ""⟩
  else none

theorem nodeName_ofAttribute (written value : String) :
    (ofAttribute written value).nodeName = written := QName.toString_parse _ _

/-- The attribute that declares a prefix declares just that. -/
theorem declared?_ofDeclaration (pfx uri : String) :
    (ofDeclaration pfx uri).declared? = some ⟨pfx, uri⟩ := by
  have hdeclares : (ofAttribute (declarationName pfx) uri).kind = .attribute ∧
      (NamesDeclaration (ofAttribute (declarationName pfx) uri).nodeName ∨
        (ofAttribute (declarationName pfx) uri).namespaceUri? = some xmlnsUri) := by
    rw [nodeName_ofAttribute]
    exact ⟨rfl, Or.inl (namesDeclaration_declarationName pfx)⟩
  rw [ofDeclaration_eq, declared?, if_pos hdeclares, nodeName_ofAttribute,
    declaredPrefix_declarationName]
  rfl

end Content

end XPathTree

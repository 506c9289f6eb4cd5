import Mathlib.Data.List.TakeWhile
import XPathTree.Proofs.Forest.Making

/-! # Local names

A name that was split at its first colon has a local part, and a written name has a part after
its last colon, which is the local name that a host tells. Splitting and writing a name leave
the last part alone, so the two differ just where the local part has a colon itself.
-/

namespace XPathTree

/-! ## The last colon -/

/-- What is written after a colon, and has none itself, is the part after the last one. -/
theorem afterLastColon_append {last : String} (before : String) (hlast : ':' ∉ last.toList) :
    afterLastColon (before ++ ":" ++ last) = last := by
  have hreverse : (before ++ ":" ++ last).toList.reverse =
      last.toList.reverse ++ ':' :: before.toList.reverse := by
    simp [String.toList_append]
  have hall : ∀ c ∈ last.toList.reverse, (c != ':') = true := by
    intro c hc
    rw [bne_iff_ne]
    rintro rfl
    exact hlast (List.mem_reverse.mp hc)
  rw [afterLastColon, hreverse, List.takeWhile_append_of_pos hall,
    List.takeWhile_cons_of_neg (by simp), List.append_nil, List.reverse_reverse,
    String.ofList_toList]

theorem afterLastColon_of_not_mem {written : String} (hnone : ':' ∉ written.toList) :
    afterLastColon written = written := by
  have hall : written.toList.reverse.takeWhile (· != ':') = written.toList.reverse := by
    rw [List.takeWhile_eq_self_iff]
    intro c hc
    rw [bne_iff_ne]
    rintro rfl
    exact hnone (List.mem_reverse.mp hc)
  rw [afterLastColon, hall, List.reverse_reverse, String.ofList_toList]

/-- Where there is a colon there is a last one. -/
theorem exists_last_colon {written : String} (hcolon : ':' ∈ written.toList) :
    ∃ before last, written = before ++ ":" ++ last ∧ ':' ∉ last.toList := by
  obtain ⟨last, before, hsplit, hlast⟩ :=
    List.eq_append_cons_of_mem (List.mem_reverse.mpr hcolon)
  refine ⟨.ofList before.reverse, .ofList last.reverse, ?_, by simpa using hlast⟩
  apply String.toList_injective
  have hwritten := congrArg List.reverse hsplit
  simpa [String.toList_append] using hwritten

/-- A name with a colon is longer than what comes after it. -/
theorem afterLastColon_eq_self_iff (written : String) :
    afterLastColon written = written ↔ ':' ∉ written.toList := by
  refine ⟨fun hself hcolon => ?_, afterLastColon_of_not_mem⟩
  obtain ⟨before, last, rfl, hlast⟩ := exists_last_colon hcolon
  rw [afterLastColon_append before hlast] at hself
  exact hlast (hself ▸ hcolon)

/-- A prefix is written before the last colon, whatever colons it has itself. -/
theorem QName.afterLastColon_toString (name : QName) :
    afterLastColon name.toString = afterLastColon name.localPart := by
  obtain ⟨pfx, localPart, uri⟩ := name
  cases pfx with
  | none => rfl
  | some pfx =>
      by_cases hcolon : ':' ∈ localPart.toList
      · obtain ⟨before, last, rfl, hlast⟩ := exists_last_colon hcolon
        have hwritten : pfx ++ ":" ++ (before ++ ":" ++ last) =
            (pfx ++ ":" ++ before) ++ ":" ++ last := by
          simp only [String.append_assoc]
        calc afterLastColon (pfx ++ ":" ++ (before ++ ":" ++ last))
            = afterLastColon ((pfx ++ ":" ++ before) ++ ":" ++ last) := by rw [hwritten]
          _ = last := afterLastColon_append _ hlast
          _ = afterLastColon (before ++ ":" ++ last) := (afterLastColon_append _ hlast).symm
      · exact (afterLastColon_append pfx hcolon).trans (afterLastColon_of_not_mem hcolon).symm

/-! ## Nodes with a local name -/

/-- An element or attribute is written by its name, if it has one. -/
theorem Content.nodeName_eq_toString {content : Content} {name : QName}
    (hname : content.name? = some name)
    (hkind : content.kind = .element ∨ content.kind = .attribute) :
    content.nodeName = name.toString := by
  rcases hkind with hkind | hkind
  · rw [nodeName, hkind, hname]
    rfl
  · rw [nodeName, hkind, hname]
    rfl

namespace Forest

variable {forest : Forest} {id : NodeId}

/-- Whether the local name that is told of a node is the local part of its name just if that has
no colon, and else what comes after the last colon there. -/
def TellsLocalName (forest : Forest) (id : NodeId) : Prop :=
  ∃ name, Source.name? forest id = some name ∧
    (forest.host.localName id = some name.localPart ↔ ':' ∉ name.localPart.toList) ∧
    (':' ∈ name.localPart.toList → ∃ before last, name.localPart = before ++ ":" ++ last ∧
      ':' ∉ last.toList ∧ forest.host.localName id = some last)

/-- The local name is what comes last in the local part of the name. -/
theorem localName_of_name? {name : QName} (hname : Source.name? forest id = some name)
    (hkind : forest.host.kind id = .element ∨ forest.host.kind id = .attribute) :
    forest.host.localName id = some (afterLastColon name.localPart) := by
  obtain ⟨content, hcontent, hname⟩ := Option.bind_eq_some_iff.mp hname
  have hsame : forest.host.kind id = content.kind := by simp [host, hcontent]
  rw [hsame] at hkind
  have hlocal : forest.host.localName id =
      localNameOfWritten content.kind content.nodeName := by
    simp [host, hcontent]
  rw [hlocal, Content.nodeName_eq_toString hname hkind]
  rcases hkind with hkind | hkind
  · rw [hkind]
    exact congrArg some name.afterLastColon_toString
  · rw [hkind]
    exact congrArg some name.afterLastColon_toString

theorem tellsLocalName_of_name? {name : QName} (hname : Source.name? forest id = some name)
    (hkind : forest.host.kind id = .element ∨ forest.host.kind id = .attribute) :
    forest.TellsLocalName id := by
  have hlocal := localName_of_name? hname hkind
  refine ⟨name, hname, ?_, fun hcolon => ?_⟩
  · rw [hlocal, Option.some.injEq, afterLastColon_eq_self_iff]
  · obtain ⟨before, last, hsplit, hlast⟩ := exists_last_colon hcolon
    refine ⟨before, last, hsplit, hlast, ?_⟩
    rw [hlocal, hsplit, afterLastColon_append before hlast]

/-- Every element and every attribute has a name, and wherever the colons of this are, it tells
what comes last in it. -/
theorem Composed.localName_agrees (hforest : forest.Composed)
    (hkind : forest.host.kind id = .element ∨ forest.host.kind id = .attribute) :
    forest.TellsLocalName id := by
  have hid : id ∈ forest.ids := by
    by_contra hnone
    have hcontent : forest.content? id = none := by
      rw [content?, tree?_eq_none_iff.mpr hnone, Option.map_none]
    simp [host, hcontent] at hkind
  obtain ⟨shape, hshape, hsuits, _⟩ := hforest.exists_suitedAt hid
  have hsome : (Source.name? forest id).isSome := by
    rw [name?_of_contents? hshape, hsuits.name?_iff, ← kind_of_contents? hshape]
    exact hkind.imp_right Or.inl
  obtain ⟨name, hname⟩ := Option.isSome_iff_exists.mp hsome
  exact tellsLocalName_of_name? hname hkind

/-- An element with two colons in its name, over an attribute that has one and is copied, and
one whose name is taken whole. -/
def colonForest : Forest :=
  let sown := (Forest.empty.sow (.ofAttribute "p:a" "1")).2
  let sown := (sown.sow (.ofPlacedAttribute "q:" "urn:q" "2")).2
  ((Builder.mk (.ofElement "p:b:c") [0, 1, 0] []).build sown).2

theorem localName_agrees_colons :
    colonForest.Composed ∧
      (colonForest.host.kind 2 = .element ∨ colonForest.host.kind 2 = .attribute) ∧
      colonForest.TellsLocalName 2 ∧
      Source.name? colonForest 2 = some ⟨some "p", "b:c", none⟩ ∧
      colonForest.host.localName 2 = some "c" ∧
      (colonForest.attributes 2).map colonForest.host.localName =
        [some "a", some "", some "a"] := by
  have hsown := (Composed.empty.leaf (.attribute "p:a" "1")).leaf
    (.placedAttribute "q:" "urn:q" "2")
  have hcomposed : colonForest.Composed :=
    hsown.opening (.element "p:b:c") [0, 1, 0] [] (by decide +kernel)
  have hkind : colonForest.host.kind 2 = .element ∨ colonForest.host.kind 2 = .attribute := by
    decide +kernel
  refine ⟨hcomposed, hkind, hcomposed.localName_agrees hkind, ?_⟩
  decide +kernel

end Forest

end XPathTree

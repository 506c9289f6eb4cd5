import XPathTree.Host.Table
import XPathTree.Proofs.Declared

/-! # Inherited namespaces

The axis of an element comes about from its own declarations and from the axis of the
nearest element above it, which need not be its parent. Nothing further out is asked: a
prefix that was taken out of use above is off that axis already. The prefix `xml` follows a
rule of its own, since an axis has it in any case.
-/

namespace XPathTree

universe u

variable {N : Type u}

namespace Host

variable (host : Host N)

/-- The nearest element on a chain above its first node. -/
def elementAbove? (chain : List N) : Option N :=
  chain.tail.find? (host.kind · = .element)

/-- The part of an axis beside `xml`. -/
def pairsBesideXml (node : N) : List Binding :=
  (host.axisPairs node).filter (·.pfx ≠ xmlPrefix)

/-- The part of an axis that is `xml`. -/
def xmlPairs (node : N) : List Binding :=
  (host.axisPairs node).filter (·.pfx = xmlPrefix)

/-- How the axis of an element comes about from what it declares and from the axis of the
nearest element above it, where there is one. -/
structure Inherits (element : N) (above? : Option N) : Prop where
  /-- What is declared on the element itself comes first, and no prefix is inherited that it
  declares, be it with an empty URI. -/
  besideXml : host.pairsBesideXml element =
    (firsts Binding.pfx (host.declarations element)).filter
        (fun own => own.pfx ≠ xmlPrefix ∧ own.uri ≠ "") ++
      (above?.elim [] host.pairsBesideXml).filter
        (·.pfx ∉ (host.declarations element).map Binding.pfx)
  xml_declared : ∀ own, (host.declarations element).find? (·.pfx == xmlPrefix) = some own →
    host.xmlPairs element = [⟨xmlPrefix, if own.uri = "" then xmlUri else own.uri⟩]
  xml_inherited : xmlPrefix ∉ (host.declarations element).map Binding.pfx →
    ∀ above ∈ above?, host.xmlPairs element = host.xmlPairs above
  xml_reserved : xmlPrefix ∉ (host.declarations element).map Binding.pfx → above? = none →
    host.xmlPairs element = [⟨xmlPrefix, xmlUri⟩]
  /-- An element without declarations has the whole axis, in the same order. -/
  undeclaring : host.declarations element = [] →
    ∀ above ∈ above?, host.axisPairs element = host.axisPairs above

/-! ## Declarations above -/

theorem declarations_of_ne {node : N} (hother : host.kind node ≠ .element) :
    host.declarations node = [] := if_neg hother

theorem declarationsAlong_of_ne {nodes : List N}
    (hothers : ∀ node ∈ nodes, host.kind node ≠ .element) : host.declarationsAlong nodes = [] := by
  rw [declarationsAlong, List.flatMap_eq_nil_iff]
  exact fun node hnode => host.declarations_of_ne (hothers node hnode)

/-- What is declared above the first node of a chain is what is declared from the nearest
element there onward. -/
theorem elementAbove?_cases {node : N} {chain : List N}
    (hchain : ParentChain host.parent node chain) :
    (host.elementAbove? chain = none ∧ host.declarationsAlong chain = host.declarations node) ∨
      ∃ above outer, host.elementAbove? chain = some above ∧ host.kind above = .element ∧
        ParentChain host.parent above outer ∧
        host.declarationsAlong chain = host.declarations node ++ host.declarationsAlong outer := by
  have hcons := hchain.eq_cons_tail
  cases habove : host.elementAbove? chain with
  | none =>
      left
      have hothers : ∀ other ∈ chain.tail, host.kind other ≠ .element := by
        simpa [elementAbove?] using habove
      rw [hcons, declarationsAlong_cons, host.declarationsAlong_of_ne hothers, List.append_nil]
      exact ⟨rfl, rfl⟩
  | some above =>
      right
      obtain ⟨helement, before, outer, hsplit, hbefore⟩ :=
        List.find?_eq_some_iff_append.mp habove
      have hothers : ∀ other ∈ before, host.kind other ≠ .element := by
        simpa using hbefore
      have hthrough : chain = (node :: before) ++ above :: outer := by
        rw [hcons, hsplit]
        rfl
      have houter := hchain.of_append hthrough
      refine ⟨above, above :: outer, rfl, of_decide_eq_true helement, houter, ?_⟩
      rw [hcons, declarationsAlong_cons, hsplit, declarationsAlong_append,
        host.declarationsAlong_of_ne hothers, List.nil_append]

/-! ## The axis above -/

variable {element : N} {chain : List N} (hchain : ParentChain host.parent element chain)
  (helement : host.kind element = .element)

include hchain helement

theorem axisPairs_eq_axis :
    host.axisPairs element = Declared.axis (host.declarationsAlong chain) := by
  rw [(host.readsOff hchain).axisPairs_eq, if_pos helement]

theorem pairsBesideXml_eq : host.pairsBesideXml element =
    (Declared.inUse (host.declarationsAlong chain)).filter (·.pfx ≠ xmlPrefix) := by
  rw [pairsBesideXml, host.axisPairs_eq_axis hchain helement, Declared.filter_ne_xml_axis]

theorem xmlPairs_eq : host.xmlPairs element = [⟨xmlPrefix,
    (Declared.target? (host.declarationsAlong chain) xmlPrefix).getD xmlUri⟩] := by
  rw [xmlPairs, host.axisPairs_eq_axis hchain helement, Declared.filter_xml_axis]

/-! ## The axis of an element over declarations further out -/

section Split

variable {further : List Binding}
  (hsplit : host.declarationsAlong chain = host.declarations element ++ further)

include hsplit

/-- Declarations further out are in use beside `xml` under the prefixes that the element does
not declare. -/
theorem pairsBesideXml_of_split : host.pairsBesideXml element =
    (firsts Binding.pfx (host.declarations element)).filter
        (fun own => own.pfx ≠ xmlPrefix ∧ own.uri ≠ "") ++
      ((Declared.inUse further).filter (·.pfx ≠ xmlPrefix)).filter
        (·.pfx ∉ (host.declarations element).map Binding.pfx) := by
  have hown : (Declared.inUse (host.declarations element)).filter (·.pfx ≠ xmlPrefix) =
      (firsts Binding.pfx (host.declarations element)).filter
        (fun own => own.pfx ≠ xmlPrefix ∧ own.uri ≠ "") := by
    rw [Declared.inUse, List.filter_filter]
    exact List.filter_congr fun own _ => by simp
  rw [host.pairsBesideXml_eq hchain helement, hsplit, Declared.inUse_append, List.filter_append,
    hown, List.filter_comm]

theorem xmlPairs_of_declared {own : Binding}
    (hown : (host.declarations element).find? (·.pfx == xmlPrefix) = some own) :
    host.xmlPairs element = [⟨xmlPrefix, if own.uri = "" then xmlUri else own.uri⟩] := by
  rw [host.xmlPairs_eq hchain helement, hsplit, Declared.target?_append_of_find? _ _ hown,
    Binding.target?]
  split <;> rfl

theorem xmlPairs_of_silent
    (hsilent : xmlPrefix ∉ (host.declarations element).map Binding.pfx) :
    host.xmlPairs element = [⟨xmlPrefix, (Declared.target? further xmlPrefix).getD xmlUri⟩] := by
  rw [host.xmlPairs_eq hchain helement, hsplit, Declared.target?_append_of_not_mem _ _ hsilent]

end Split

/-- The axis of an element is what its own declarations put to use, and then what the nearest
element above it has under prefixes that it does not declare. -/
theorem namespaceAxis_inherits : host.Inherits element (host.elementAbove? chain) := by
  rcases host.elementAbove?_cases hchain with ⟨hnone, halone⟩ |
    ⟨above, outer, habove, haboveElement, houter, hsplit⟩
  · have hsplit : host.declarationsAlong chain = host.declarations element ++ [] := by
      rw [halone, List.append_nil]
    rw [hnone]
    exact {
      besideXml := host.pairsBesideXml_of_split hchain helement hsplit
      xml_declared := fun _ => host.xmlPairs_of_declared hchain helement hsplit
      xml_inherited := by simp
      xml_reserved := fun hsilent _ => host.xmlPairs_of_silent hchain helement hsplit hsilent
      undeclaring := by simp }
  · rw [habove]
    refine {
      besideXml := ?_
      xml_declared := fun _ => host.xmlPairs_of_declared hchain helement hsplit
      xml_inherited := ?_
      xml_reserved := by simp
      undeclaring := ?_ }
    · rw [host.pairsBesideXml_of_split hchain helement hsplit, Option.elim_some,
        host.pairsBesideXml_eq houter haboveElement]
    · rintro hsilent _ ⟨⟩
      rw [host.xmlPairs_of_silent hchain helement hsplit hsilent,
        host.xmlPairs_eq houter haboveElement]
    · rintro hsilent _ ⟨⟩
      rw [host.axisPairs_eq_axis hchain helement, hsplit, hsilent, List.nil_append,
        host.axisPairs_eq_axis houter haboveElement]

end Host

/-- Three elements with a comment between the inner two. The outermost declares `a`, `b`, the
default namespace and another `xml`, and the middle one nothing; the innermost declares `c`
twice and takes `a` out of use. -/
def inheritingTable : Table where
  rows :=
    [⟨.element, "outer", none, none, none, none, [1, 2, 3, 4], 0⟩,
      ⟨.attribute, "xmlns:a", some "urn:a", none, none, none, [], 1⟩,
      ⟨.attribute, "xmlns:xml", some "urn:x", none, none, none, [], 2⟩,
      ⟨.attribute, "xmlns:b", some "urn:b", none, none, none, [], 3⟩,
      ⟨.attribute, "xmlns", some "urn:d", none, none, none, [], 4⟩,
      ⟨.element, "middle", none, none, some 0, none, [], 5⟩,
      ⟨.comment, "#comment", none, none, some 5, none, [], 6⟩,
      ⟨.element, "inner", none, none, some 6, none, [8, 9, 10], 7⟩,
      ⟨.attribute, "xmlns:c", some "urn:c", none, none, none, [], 8⟩,
      ⟨.attribute, "xmlns:a", some "", none, none, none, [], 9⟩,
      ⟨.attribute, "xmlns:c", some "urn:e", none, none, none, [], 10⟩]
  tellsNamespaces := false

theorem namespaceAxis_inherits_outer :
    ParentChain inheritingTable.host.parent 7 [7, 6, 5, 0] ∧
      inheritingTable.host.kind 7 = .element ∧
      inheritingTable.host.elementAbove? [7, 6, 5, 0] = some 5 ∧
      inheritingTable.host.Inherits 7 (some 5) ∧
      inheritingTable.host.axisPairs 5 =
        [⟨"a", "urn:a"⟩, ⟨xmlPrefix, "urn:x"⟩, ⟨"b", "urn:b"⟩, ⟨"", "urn:d"⟩] ∧
      inheritingTable.host.axisPairs 7 =
        [⟨"c", "urn:c"⟩, ⟨xmlPrefix, "urn:x"⟩, ⟨"b", "urn:b"⟩, ⟨"", "urn:d"⟩] := by
  have hchain : ParentChain inheritingTable.host.parent 7 [7, 6, 5, 0] :=
    .step rfl (.step rfl (.step rfl (.top rfl)))
  refine ⟨hchain, rfl, rfl, inheritingTable.host.namespaceAxis_inherits hchain rfl, ?_⟩
  decide +kernel

end XPathTree

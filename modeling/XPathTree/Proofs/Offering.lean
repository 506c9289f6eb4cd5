import XPathTree.Proofs.Nearest

/-! # The order in which prefixes are offered

Asked for a namespace, an element goes through its axis and offers the first prefix that
stands for it. The default namespace offers none, and neither does a prefix that a nearer
declaration gives another meaning; `xml` is offered like any other prefix where a declaration
gives it another namespace than the reserved one.
-/

namespace XPathTree

universe u

variable {N : Type u}

/-- Whether the node has a prefix to offer for a namespace. -/
def NamespaceNode.offers (node : NamespaceNode N) (uri : String) : Bool :=
  node.pfx != "" && node.uri == uri

theorem NamespaceNode.offers_iff {node : NamespaceNode N} {uri : String} :
    node.offers uri = true ↔ node.pfx ≠ "" ∧ node.uri = uri := by
  rw [offers, Bool.and_eq_true, bne_iff_ne, beq_iff_eq]

namespace Host

variable (host : Host N)

/-- What an element with a chain offers for a namespace. -/
structure OffersInOrder (element : N) (chain : List N) (uri : String) : Prop where
  eq_some_iff : ∀ pfx, host.lookupPrefix element uri = some pfx ↔
    ∃ earlier node later, host.namespaceAxis element = earlier ++ node :: later ∧
      node.pfx = pfx ∧ node.pfx ≠ "" ∧ node.uri = uri ∧
      ∀ other ∈ earlier, other.uri = uri → other.pfx = ""
  eq_none_iff : host.lookupPrefix element uri = none ↔
    ∀ node ∈ host.namespaceAxis element, node.uri = uri → node.pfx = ""
  /-- There is nothing to offer just if all that declares the namespace declares it as the
  default one or is hidden by a nearer declaration of its prefix. -/
  eq_none_iff_hidden : host.lookupPrefix element uri = none ↔
    ∀ pfx above declaration, host.Nearest chain pfx above declaration →
      host.nodeValue declaration = some uri → pfx = ""
  /-- Where the nearest declaration of `xml` gives it the namespace, there is something to
  offer, and it is `xml` if that is the only prefix on the axis for it. -/
  rebound : ∀ above declaration, host.Nearest chain xmlPrefix above declaration →
    host.nodeValue declaration = some uri →
      (host.lookupPrefix element uri).isSome ∧
        ((∀ node ∈ host.namespaceAxis element, node.uri = uri →
            node.pfx = "" ∨ node.pfx = xmlPrefix) →
          host.lookupPrefix element uri = some xmlPrefix)

/-! ## The lookup along the axis -/

variable {element : N} {uri : String}

/-- The lookup and the axis leave out different bindings, and none of these is sought. -/
theorem lookupPrefix_eq_find?_namespaceAxis (helement : host.kind element = .element)
    (hempty : uri ≠ "") (hxml : uri ≠ xmlUri) :
    host.lookupPrefix element uri =
      ((host.namespaceAxis element).find? (·.offers uri)).map (·.pfx) := by
  let sought (binding : Binding) : Bool := binding.pfx != "" && binding.uri == uri
  have hinUse : (host.bindingsInUse element).find? sought = (host.scope element).find? sought := by
    rw [bindingsInUse, List.find?_filter]
    congr 1
    funext binding
    rw [Bool.eq_iff_iff]
    by_cases huri : binding.uri = uri <;> simp [sought, huri, hempty]
  have hreserved : (host.axisBindings element).find? sought =
      (host.bindingsInUse element).find? sought := by
    rw [axisBindings_eq, List.find?_append]
    split
    next => simp
    next => simp [sought, Ne.symm hxml]
  rw [host.lookupPrefix_of_ne hempty hxml, host.namespaceAxis_eq_map helement, List.find?_map,
    Option.map_map]
  exact congrArg (Option.map Binding.pfx) (hreserved.trans hinUse).symm

/-- What is offered is the first prefix on the axis that stands for the namespace. -/
theorem lookupPrefix_eq_some_iff (helement : host.kind element = .element)
    (hempty : uri ≠ "") (hxml : uri ≠ xmlUri) (pfx : String) :
    host.lookupPrefix element uri = some pfx ↔
      ∃ earlier node later, host.namespaceAxis element = earlier ++ node :: later ∧
        node.pfx = pfx ∧ node.pfx ≠ "" ∧ node.uri = uri ∧
        ∀ other ∈ earlier, other.uri = uri → other.pfx = "" := by
  rw [host.lookupPrefix_eq_find?_namespaceAxis helement hempty hxml, Option.map_eq_some_iff]
  constructor
  · rintro ⟨node, hfound, rfl⟩
    obtain ⟨hoffers, earlier, later, haxis, hearlier⟩ := List.find?_eq_some_iff_append.mp hfound
    obtain ⟨hpfx, huri⟩ := NamespaceNode.offers_iff.mp hoffers
    refine ⟨earlier, node, later, haxis, rfl, hpfx, huri, fun other hother hsame => ?_⟩
    simpa [NamespaceNode.offers, hsame] using hearlier other hother
  · rintro ⟨earlier, node, later, haxis, rfl, hpfx, huri, hearlier⟩
    refine ⟨node, List.find?_eq_some_iff_append.mpr
      ⟨NamespaceNode.offers_iff.mpr ⟨hpfx, huri⟩, earlier, later, haxis, ?_⟩, rfl⟩
    intro other hother
    simpa [NamespaceNode.offers, imp_iff_not_or, or_comm] using hearlier other hother

theorem lookupPrefix_eq_none_iff (helement : host.kind element = .element)
    (hempty : uri ≠ "") (hxml : uri ≠ xmlUri) :
    host.lookupPrefix element uri = none ↔
      ∀ node ∈ host.namespaceAxis element, node.uri = uri → node.pfx = "" := by
  rw [host.lookupPrefix_eq_find?_namespaceAxis helement hempty hxml, Option.map_eq_none_iff,
    List.find?_eq_none]
  refine forall₂_congr fun node _ => ?_
  rw [NamespaceNode.offers_iff, not_and', not_not]

/-- A node is on the axis with a URI that is not the reserved one just if the nearest
declaration of its prefix says so. -/
theorem exists_mem_namespaceAxis_iff_nearest {chain : List N}
    (hchain : ParentChain host.parent element chain) (helement : host.kind element = .element)
    (hempty : uri ≠ "") (hxml : uri ≠ xmlUri) (pfx : String) :
    (∃ node ∈ host.namespaceAxis element, node.pfx = pfx ∧ node.uri = uri) ↔
      ∃ above declaration, host.Nearest chain pfx above declaration ∧
        host.nodeValue declaration = some uri := by
  rw [host.exists_mem_namespaceAxis_iff helement, host.mem_axisBindings_iff hchain,
    host.target?_eq_some_iff_nearest hchain]
  constructor
  · rintro (⟨above, declaration, hnearest, hvalue, _⟩ | ⟨_, hreserved, _⟩)
    · exact ⟨above, declaration, hnearest, hvalue⟩
    · exact absurd hreserved hxml
  · rintro ⟨above, declaration, hnearest, hvalue⟩
    exact Or.inl ⟨above, declaration, hnearest, hvalue, hempty⟩

/-- The prefix that is offered for a namespace is the first on the axis that stands for it. -/
theorem lookupPrefix_in_order {chain : List N} (hchain : ParentChain host.parent element chain)
    (helement : host.kind element = .element) (hempty : uri ≠ "") (hxml : uri ≠ xmlUri) :
    host.OffersInOrder element chain uri := by
  have hsome := host.lookupPrefix_eq_some_iff helement hempty hxml
  have hnone := host.lookupPrefix_eq_none_iff helement hempty hxml
  have hnearest := host.exists_mem_namespaceAxis_iff_nearest hchain helement hempty hxml
  refine { eq_some_iff := hsome, eq_none_iff := hnone, eq_none_iff_hidden := ?hidden,
           rebound := ?rebound }
  case hidden =>
    rw [hnone]
    constructor
    · intro haxis pfx above declaration hdeclares hvalue
      obtain ⟨node, hnode, rfl, huri⟩ := (hnearest pfx).mpr ⟨above, declaration, hdeclares, hvalue⟩
      exact haxis node hnode huri
    · intro hhidden node hnode huri
      obtain ⟨above, declaration, hdeclares, hvalue⟩ :=
        (hnearest node.pfx).mp ⟨node, hnode, rfl, huri⟩
      exact hhidden node.pfx above declaration hdeclares hvalue
  case rebound =>
    intro above declaration hdeclares hvalue
    obtain ⟨node, hnode, hpfx, huri⟩ :=
      (hnearest xmlPrefix).mpr ⟨above, declaration, hdeclares, hvalue⟩
    have hfound : ∃ pfx, host.lookupPrefix element uri = some pfx := by
      apply Option.ne_none_iff_exists'.mp
      intro habsent
      have hdefault := hnone.mp habsent node hnode huri
      rw [hpfx] at hdefault
      exact absurd hdefault (by decide)
    obtain ⟨pfx, hpfx⟩ := hfound
    refine ⟨Option.isSome_iff_exists.mpr ⟨pfx, hpfx⟩, fun honly => ?_⟩
    obtain ⟨earlier, first, later, haxis, rfl, hown, hsame, _⟩ := (hsome pfx).mp hpfx
    have hfirst : first ∈ host.namespaceAxis element := by
      rw [haxis]
      exact List.mem_append_right _ List.mem_cons_self
    rw [hpfx, (honly first hfirst hsame).resolve_left hown]

end Host

/-- An element in an element. The outer one declares the default namespace, `a`, `xml` and
`b` to be one namespace; the inner one gives `a` another. -/
def offeringTable : Table where
  rows :=
    [⟨.element, "outer", none, none, none, none, [1, 2, 3, 4], 0⟩,
      ⟨.attribute, "xmlns", some "urn:x", none, none, none, [], 1⟩,
      ⟨.attribute, "xmlns:a", some "urn:x", none, none, none, [], 2⟩,
      ⟨.attribute, "xmlns:xml", some "urn:x", none, none, none, [], 3⟩,
      ⟨.attribute, "xmlns:b", some "urn:x", none, none, none, [], 4⟩,
      ⟨.element, "inner", none, none, some 0, none, [6], 5⟩,
      ⟨.attribute, "xmlns:a", some "urn:y", none, none, none, [], 6⟩]
  tellsNamespaces := false

/-- The default namespace comes first on the axis and `a` is hidden, so `xml` is offered. -/
theorem lookupPrefix_in_order_rebound :
    ParentChain offeringTable.host.parent 5 [5, 0] ∧
      offeringTable.host.kind 5 = .element ∧ "urn:x" ≠ "" ∧ "urn:x" ≠ xmlUri ∧
      offeringTable.host.OffersInOrder 5 [5, 0] "urn:x" ∧
      offeringTable.host.axisPairs 5 =
        [⟨"a", "urn:y"⟩, ⟨"", "urn:x"⟩, ⟨xmlPrefix, "urn:x"⟩, ⟨"b", "urn:x"⟩] ∧
      offeringTable.host.lookupPrefix 5 "urn:x" = some xmlPrefix := by
  have hchain : ParentChain offeringTable.host.parent 5 [5, 0] := .step rfl (.top rfl)
  have hempty : "urn:x" ≠ "" := by decide
  have hxml : "urn:x" ≠ xmlUri := by decide
  refine ⟨hchain, rfl, hempty, hxml,
    offeringTable.host.lookupPrefix_in_order hchain rfl hempty hxml, ?_⟩
  decide +kernel

end XPathTree

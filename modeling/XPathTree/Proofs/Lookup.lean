import XPathTree.Proofs.Axis

/-! # The lookup of a prefix and the axis

The lookup of a prefix and the namespace nodes of an element read one scope, and
they agree on every prefix with one exception. The axis lets a declaration of `xml`
decide as any other does; the lookup never asks for one.
-/

namespace XPathTree

universe u

variable {N : Type u}

namespace Host

variable (host : Host N)

/-- Whether the nearest declaration of `xml` on a chain gives it a namespace that is
not the reserved one. -/
def RebindsXml (chain : List N) : Prop :=
  ∃ declared, (host.declarationsAlong chain).find? (·.pfx == xmlPrefix) = some declared ∧
    declared.uri ≠ "" ∧ declared.uri ≠ xmlUri

/-- The namespace that the deciding declaration of a prefix leaves it. -/
def target? (element : N) (pfx : String) : Option String :=
  ((host.scope element).find? (·.pfx == pfx)).bind Binding.target?

theorem mem_bindingsInUse_iff {element : N} {chain : List N}
    (hchain : ParentChain host.parent element chain) (pfx uri : String) :
    ⟨pfx, uri⟩ ∈ host.bindingsInUse element ↔ host.target? element pfx = some uri := by
  rw [mem_bindingsInUse, target?]
  constructor
  · rintro ⟨hscope, huri⟩
    have hfind := find?_eq_some_of_mem Binding.pfx (host.nodup_scope hchain) hscope
    rw [hfind, Option.bind_some, Binding.target?, if_neg huri]
  · intro htarget
    obtain ⟨binding, hfind, huri⟩ := Option.bind_eq_some_iff.mp htarget
    have hpfx : binding.pfx = pfx := by simpa using List.find?_some hfind
    unfold Binding.target? at huri
    split at huri
    next => simp at huri
    next hne =>
      obtain rfl := Option.some.inj huri
      exact ⟨hpfx ▸ List.mem_of_find?_eq_some hfind, hne⟩

theorem mem_axisBindings_iff {element : N} {chain : List N}
    (hchain : ParentChain host.parent element chain) (pfx uri : String) :
    ⟨pfx, uri⟩ ∈ host.axisBindings element ↔
      host.target? element pfx = some uri ∨
        pfx = xmlPrefix ∧ uri = xmlUri ∧ host.target? element xmlPrefix = none := by
  have hxml : xmlPrefix ∉ (host.bindingsInUse element).map Binding.pfx ↔
      host.target? element xmlPrefix = none := by
    rw [Option.eq_none_iff_forall_ne_some]
    constructor
    · intro hnone declared htarget
      exact hnone (List.mem_map_of_mem ((host.mem_bindingsInUse_iff hchain _ _).mpr htarget))
    · intro hnone hmem
      obtain ⟨⟨pfx, declared⟩, hbinding, rfl⟩ := List.mem_map.mp hmem
      exact hnone declared ((host.mem_bindingsInUse_iff hchain _ _).mp hbinding)
  rw [axisBindings_eq, List.mem_append, host.mem_bindingsInUse_iff hchain, ← hxml]
  refine or_congr_right ?_
  split
  next hmem => simp [hmem]
  next hmem => simp [hmem]

theorem exists_mem_namespaceAxis_iff {element : N} (helement : host.kind element = .element)
    (pfx uri : String) :
    (∃ node ∈ host.namespaceAxis element, node.pfx = pfx ∧ node.uri = uri) ↔
      ⟨pfx, uri⟩ ∈ host.axisBindings element := by
  rw [host.namespaceAxis_eq_map helement]
  constructor
  · rintro ⟨node, hnode, rfl, rfl⟩
    obtain ⟨binding, hbinding, rfl⟩ := List.mem_map.mp hnode
    exact hbinding
  · intro hbinding
    exact ⟨_, List.mem_map_of_mem hbinding, rfl, rfl⟩

theorem rebindsXml_iff {element : N} {chain : List N}
    (hchain : ParentChain host.parent element chain) :
    host.RebindsXml chain ↔
      ∃ uri, host.target? element xmlPrefix = some uri ∧ uri ≠ xmlUri := by
  unfold RebindsXml target?
  rw [host.find?_scope hchain]
  constructor
  · rintro ⟨declared, hfind, huri, hne⟩
    refine ⟨declared.uri, ?_, hne⟩
    rw [hfind, Option.bind_some, Binding.target?, if_neg huri]
  · rintro ⟨uri, htarget, hne⟩
    obtain ⟨declared, hfind, huri⟩ := Option.bind_eq_some_iff.mp htarget
    unfold Binding.target? at huri
    split at huri
    next => simp at huri
    next hempty => exact ⟨declared, hfind, hempty, Option.some.inj huri ▸ hne⟩

@[simp] theorem lookupNamespaceUri_xml (element : N) :
    host.lookupNamespaceUri element (some xmlPrefix) = some xmlUri := by
  simp [lookupNamespaceUri]

theorem lookupNamespaceUri_of_ne {element : N} {pfx : String} (hne : pfx ≠ xmlPrefix) :
    host.lookupNamespaceUri element (some pfx) = host.target? element pfx := by
  simp [lookupNamespaceUri, hne, target?]

theorem forall_namespaceAxis_pfx_ne_iff {element : N} (helement : host.kind element = .element)
    (pfx : String) :
    (∀ node ∈ host.namespaceAxis element, node.pfx ≠ pfx) ↔
      ∀ uri, ⟨pfx, uri⟩ ∉ host.axisBindings element := by
  constructor
  · intro hnone uri hbinding
    obtain ⟨node, hnode, hpfx, _⟩ :=
      (host.exists_mem_namespaceAxis_iff helement pfx uri).mpr hbinding
    exact hnone node hnode hpfx
  · intro hnone node hnode hpfx
    exact hnone node.uri
      ((host.exists_mem_namespaceAxis_iff helement pfx node.uri).mp ⟨node, hnode, hpfx, rfl⟩)

/-- The lookup of a prefix and the axis answer alike, unless the prefix is `xml` and the
nearest declaration of it gives it another namespace. A prefix that one of them lacks,
the other lacks as well. -/
theorem lookupNamespaceUri_agrees_iff {element : N} {chain : List N}
    (hchain : ParentChain host.parent element chain) (helement : host.kind element = .element)
    (pfx : String) :
    (host.lookupNamespaceUri element (some pfx) = none ↔
        ∀ node ∈ host.namespaceAxis element, node.pfx ≠ pfx) ∧
      ((∀ uri, host.lookupNamespaceUri element (some pfx) = some uri ↔
          ∃ node ∈ host.namespaceAxis element, node.pfx = pfx ∧ node.uri = uri) ↔
        ¬ (pfx = xmlPrefix ∧ host.RebindsXml chain)) ∧
      (pfx = xmlPrefix → host.lookupNamespaceUri element (some pfx) = some xmlUri) := by
  simp only [host.forall_namespaceAxis_pfx_ne_iff helement,
    host.exists_mem_namespaceAxis_iff helement, host.mem_axisBindings_iff hchain,
    host.rebindsXml_iff hchain]
  by_cases hpfx : pfx = xmlPrefix
  · subst hpfx
    rw [lookupNamespaceUri_xml]
    cases htarget : host.target? element xmlPrefix with
    | none => simp [eq_comm]
    | some declared =>
        refine ⟨?_, ?_, fun _ => rfl⟩
        · simp only [reduceCtorEq, false_iff, not_forall]
          exact ⟨declared, by simp⟩
        · -- Both name one namespace, so they agree just when it is the same.
          constructor
          · rintro hagree ⟨_, uri, htarget', hne⟩
            obtain rfl := Option.some.inj htarget'
            have hreserved := (hagree declared).mpr (Or.inl rfl)
            exact hne (Option.some.inj hreserved).symm
          · intro hsame uri
            have heq : declared = xmlUri := by
              by_contra hne
              exact hsame ⟨rfl, declared, rfl, hne⟩
            simp [heq]
  · rw [host.lookupNamespaceUri_of_ne hpfx, Option.eq_none_iff_forall_ne_some]
    simp [hpfx]

end Host

/-- An element with a declaration that gives `xml` another namespace, over one that
empties it. -/
def rebindingTable : Table where
  rows :=
    [⟨.element, "outer", none, none, none, none, [1, 2], 0⟩,
      ⟨.attribute, "xmlns:xml", some "urn:x", none, none, none, [], 1⟩,
      ⟨.attribute, "xmlns:a", some "urn:a", none, none, none, [], 2⟩,
      ⟨.element, "inner", none, none, some 0, none, [4], 3⟩,
      ⟨.attribute, "xmlns:xml", some "", none, none, none, [], 4⟩]
  tellsNamespaces := false

/-- Below the emptied `xml` the lookup and the axis agree again. -/
theorem lookupNamespaceUri_agrees_below :
    ParentChain rebindingTable.host.parent 3 [3, 0] ∧
      rebindingTable.host.kind 3 = .element ∧
      ∀ uri, rebindingTable.host.lookupNamespaceUri 3 (some xmlPrefix) = some uri ↔
        ∃ node ∈ rebindingTable.host.namespaceAxis 3, node.pfx = xmlPrefix ∧ node.uri = uri := by
  have hchain : ParentChain rebindingTable.host.parent 3 [3, 0] := .step rfl (.top rfl)
  refine ⟨hchain, rfl, ?_⟩
  refine (rebindingTable.host.lookupNamespaceUri_agrees_iff hchain rfl xmlPrefix).2.1.mpr ?_
  rintro ⟨_, declared, hfind, huri, _⟩
  have hempty : (rebindingTable.host.declarationsAlong [3, 0]).find? (·.pfx == xmlPrefix) =
      some ⟨xmlPrefix, ""⟩ := by
    decide +kernel
  obtain rfl := Option.some.inj (hempty.symm.trans hfind)
  exact huri rfl

/-- Where the declaration of `xml` stands, the axis has a namespace for it that the
lookup does not give. -/
theorem lookupNamespaceUri_differs_on_xml :
    ParentChain rebindingTable.host.parent 0 [0] ∧
      rebindingTable.host.kind 0 = .element ∧
      ¬ ∀ pfx uri, rebindingTable.host.lookupNamespaceUri 0 (some pfx) = some uri ↔
        ∃ node ∈ rebindingTable.host.namespaceAxis 0, node.pfx = pfx ∧ node.uri = uri := by
  refine ⟨.top rfl, rfl, fun hagree => ?_⟩
  have hnode : ⟨some 0, xmlPrefix, "urn:x"⟩ ∈ rebindingTable.host.namespaceAxis 0 := by
    decide +kernel
  have hlookup := (hagree xmlPrefix "urn:x").mpr ⟨_, hnode, rfl, rfl⟩
  revert hlookup
  decide +kernel

end XPathTree

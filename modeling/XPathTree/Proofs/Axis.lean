import XPathTree.Axis
import XPathTree.Host.Table
import XPathTree.Proofs.Scope

/-! # The axis and the declarations on the chain

An axis is read off the declarations on the elements from the queried one outward.
The first declaration of a prefix settles it: with a URI it gives a namespace node,
without one it keeps the prefix off the axis. The prefix `xml` is never missing.
-/

namespace XPathTree

universe u

variable {N : Type u}

namespace Host

variable (host : Host N)

/-- The declarations on the elements of a chain, each as a namespace node of one element. -/
def declaredNodes (element : N) (chain : List N) : List (NamespaceNode N) :=
  ((chain.filter (host.kind · = .element)).flatMap fun above =>
    (host.attributes above).filter host.isDeclaration).map (.ofDeclaration host (some element))

/-- Those of them that are the first with their prefix and give it a URI. -/
def nodesInUse (element : N) (chain : List N) : List (NamespaceNode N) :=
  (firsts NamespaceNode.pfx (host.declaredNodes element chain)).filter (·.uri ≠ "")

theorem declaredNodes_eq (element : N) (chain : List N) :
    host.declaredNodes element chain =
      (host.declarationsAlong chain).map (.ofBinding (some element)) := by
  induction chain with
  | nil => rfl
  | cons above rest ih =>
      rw [declarationsAlong_cons, List.map_append, ← ih, declaredNodes, declaredNodes,
        declarations]
      by_cases helement : host.kind above = .element
      · rw [List.filter_cons_of_pos (by simpa using helement), List.flatMap_cons, List.map_append,
          if_pos helement, List.map_map]
        rfl
      · rw [List.filter_cons_of_neg (by simpa using helement), if_neg helement]
        rfl

theorem nodesInUse_eq {element : N} {chain : List N}
    (hchain : ParentChain host.parent element chain) :
    host.nodesInUse element chain =
      (host.bindingsInUse element).map (.ofBinding (some element)) := by
  rw [nodesInUse, declaredNodes_eq, firsts_map, List.filter_map, bindingsInUse,
    host.scope_eq_firsts hchain]
  rfl

/-! ## The bindings of an axis -/

theorem mem_bindingsInUse {element : N} {binding : Binding} :
    binding ∈ host.bindingsInUse element ↔ binding ∈ host.scope element ∧ binding.uri ≠ "" := by
  simp [bindingsInUse]

theorem nodup_bindingsInUse {element : N} {chain : List N}
    (hchain : ParentChain host.parent element chain) :
    ((host.bindingsInUse element).map Binding.pfx).Nodup :=
  (host.nodup_scope hchain).sublist (List.filter_sublist.map _)

theorem axisBindings_eq (element : N) :
    host.axisBindings element = host.bindingsInUse element ++
      if xmlPrefix ∈ (host.bindingsInUse element).map Binding.pfx then []
      else [⟨xmlPrefix, xmlUri⟩] := by
  have hany : (host.bindingsInUse element).any (·.pfx == xmlPrefix) = true ↔
      xmlPrefix ∈ (host.bindingsInUse element).map Binding.pfx := by
    simp
  unfold axisBindings
  by_cases hmem : xmlPrefix ∈ (host.bindingsInUse element).map Binding.pfx
  · rw [if_pos hmem, if_pos (hany.mpr hmem), List.append_nil]
  · rw [if_neg hmem, if_neg (hany.not.mpr hmem)]

theorem nodup_axisBindings {element : N} {chain : List N}
    (hchain : ParentChain host.parent element chain) :
    ((host.axisBindings element).map Binding.pfx).Nodup := by
  have hnodup := host.nodup_bindingsInUse hchain
  rw [axisBindings_eq]
  split
  next => simpa using hnodup
  next hxml =>
    rw [List.map_append]
    refine List.nodup_append.mpr ⟨hnodup, List.nodup_singleton _, ?_⟩
    intro pfx hpfx other hother heq
    have hother : other = xmlPrefix := List.mem_singleton.mp hother
    exact hxml (hother ▸ heq ▸ hpfx)

theorem uri_ne_of_mem_axisBindings {element : N} {binding : Binding}
    (hbinding : binding ∈ host.axisBindings element) : binding.uri ≠ "" := by
  rw [axisBindings_eq] at hbinding
  rcases List.mem_append.mp hbinding with hinUse | hxml
  · exact ((host.mem_bindingsInUse).mp hinUse).2
  · split at hxml
    next => simp at hxml
    next =>
      obtain rfl := List.mem_singleton.mp hxml
      decide

theorem xmlPrefix_mem_axisBindings (element : N) :
    xmlPrefix ∈ (host.axisBindings element).map Binding.pfx := by
  rw [axisBindings_eq]
  split
  next hxml => simpa using hxml
  next => simp

theorem map_pfx_ofBinding (parent : Option N) (bindings : List Binding) :
    (bindings.map (NamespaceNode.ofBinding parent)).map NamespaceNode.pfx =
      bindings.map Binding.pfx := by
  rw [List.map_map]
  rfl

/-! ## The axis -/

theorem namespaceAxis_eq_map {element : N} (helement : host.kind element = .element) :
    host.namespaceAxis element = (host.axisBindings element).map (.ofBinding (some element)) :=
  if_pos helement

/-- The axis is the nodes that the declarations on the chain put to use, and one for
`xml` after them where they give it none. -/
theorem namespaceAxis_eq_nodesInUse {element : N} {chain : List N}
    (hchain : ParentChain host.parent element chain) :
    (host.kind element ≠ .element → host.namespaceAxis element = []) ∧
      (host.kind element = .element →
        host.namespaceAxis element = host.nodesInUse element chain ++
          (if xmlPrefix ∈ (host.nodesInUse element chain).map (·.pfx) then []
            else [⟨some element, xmlPrefix, xmlUri⟩]) ∧
        ((host.namespaceAxis element).map (·.pfx)).Nodup ∧
        (∀ node ∈ host.namespaceAxis element, node.uri ≠ "") ∧
        ((host.namespaceAxis element).map (·.pfx)).count xmlPrefix = 1 ∧
        ∀ node ∈ host.namespaceAxis element, node.parent = some element) := by
  refine ⟨fun hother => if_neg hother, fun helement => ?_⟩
  have hnodup : ((host.namespaceAxis element).map (·.pfx)).Nodup := by
    rw [host.namespaceAxis_eq_map helement, map_pfx_ofBinding]
    exact host.nodup_axisBindings hchain
  refine ⟨?_, hnodup, ?_, ?_, ?_⟩
  · rw [host.namespaceAxis_eq_map helement, axisBindings_eq, List.map_append,
      host.nodesInUse_eq hchain, map_pfx_ofBinding]
    split <;> rfl
  · intro node hnode
    rw [host.namespaceAxis_eq_map helement] at hnode
    obtain ⟨binding, hbinding, rfl⟩ := List.mem_map.mp hnode
    exact host.uri_ne_of_mem_axisBindings hbinding
  · refine List.count_eq_one_of_mem hnodup ?_
    rw [host.namespaceAxis_eq_map helement, map_pfx_ofBinding]
    exact host.xmlPrefix_mem_axisBindings element
  · intro node hnode
    rw [host.namespaceAxis_eq_map helement] at hnode
    obtain ⟨binding, _, rfl⟩ := List.mem_map.mp hnode
    rfl

end Host

/-- An element in a comment in an element. The inner one takes `a` out of use and
declares `b` twice; the outer one declares `a`, the default namespace and an empty `xml`. -/
def shadowingTable : Table where
  rows :=
    [⟨.element, "outer", none, none, none, none, [1, 2, 3], 0⟩,
      ⟨.attribute, "xmlns", some "urn:d", none, none, none, [], 1⟩,
      ⟨.attribute, "xmlns:a", some "urn:a", none, none, none, [], 2⟩,
      ⟨.attribute, "xmlns:xml", some "", none, none, none, [], 3⟩,
      ⟨.comment, "#comment", none, none, some 0, none, [2], 4⟩,
      ⟨.element, "inner", none, none, some 4, none, [6, 7, 8], 5⟩,
      ⟨.attribute, "xmlns:a", none, none, none, none, [], 6⟩,
      ⟨.attribute, "xmlns:b", some "urn:b", none, none, none, [], 7⟩,
      ⟨.attribute, "b", some "urn:c", some xmlnsUri, none, none, [], 8⟩]
  tellsNamespaces := true

theorem namespaceAxis_shadowing :
    ParentChain shadowingTable.host.parent 5 [5, 4, 0] ∧
      shadowingTable.host.namespaceAxis 5 =
        [⟨some 5, "b", "urn:b"⟩, ⟨some 5, "", "urn:d"⟩, ⟨some 5, xmlPrefix, xmlUri⟩] := by
  have hchain : ParentChain shadowingTable.host.parent 5 [5, 4, 0] :=
    .step rfl (.step rfl (.top rfl))
  have haxis := (shadowingTable.host.namespaceAxis_eq_nodesInUse hchain).2 rfl
  refine ⟨hchain, haxis.1.trans ?_⟩
  decide +kernel

end XPathTree

import XPathTree.Proofs.Lookup

/-! # The lookup of a namespace

Asked for a namespace, a node offers a prefix that stands for it there. What it offers
is a member of the scope, so no declaration in between has given the prefix another
meaning, and as long as some prefix of the scope would do, one is offered.
-/

namespace XPathTree

universe u

variable {N : Type u}

namespace Host

variable (host : Host N)

theorem lookupPrefix_of_ne {uri : String} (hempty : uri ≠ "") (hxml : uri ≠ xmlUri) (node : N) :
    host.lookupPrefix node uri =
      ((host.scope node).find? fun binding => binding.pfx != "" && binding.uri == uri).map
        Binding.pfx := by
  rw [lookupPrefix, if_neg hempty, if_neg hxml]

theorem lookupPrefix_cases {node : N} {pfx uri : String}
    (hlookup : host.lookupPrefix node uri = some pfx) :
    (pfx = xmlPrefix ∧ uri = xmlUri) ∨
      (⟨pfx, uri⟩ ∈ host.scope node ∧ pfx ≠ "" ∧ uri ≠ "") := by
  by_cases hempty : uri = ""
  · simp [lookupPrefix, hempty] at hlookup
  by_cases hxml : uri = xmlUri
  · rw [lookupPrefix, if_neg hempty, if_pos hxml] at hlookup
    exact Or.inl ⟨(Option.some.inj hlookup).symm, hxml⟩
  · rw [host.lookupPrefix_of_ne hempty hxml] at hlookup
    obtain ⟨binding, hfind, rfl⟩ := Option.map_eq_some_iff.mp hlookup
    have hsought := List.find?_some hfind
    rw [Bool.and_eq_true, bne_iff_ne, beq_iff_eq] at hsought
    obtain ⟨hpfx, rfl⟩ := hsought
    exact Or.inr ⟨List.mem_of_find?_eq_some hfind, hpfx, hempty⟩

/-- A prefix of the scope is enough for the lookup to come back with one. -/
theorem isSome_lookupPrefix_of_mem {node : N} {pfx uri : String}
    (hscope : ⟨pfx, uri⟩ ∈ host.scope node) (hpfx : pfx ≠ "") (huri : uri ≠ "") :
    (host.lookupPrefix node uri).isSome := by
  by_cases hxml : uri = xmlUri
  · rw [lookupPrefix, if_neg huri, if_pos hxml]
    rfl
  · rw [host.lookupPrefix_of_ne huri hxml, Option.isSome_map, List.find?_isSome]
    exact ⟨⟨pfx, uri⟩, hscope, by simp [hpfx]⟩

/-- The prefix that is offered for a namespace stands for it, `xml` apart: the nearest
declaration of it on the chain says so. For a namespace that some prefix stands for, one
is offered. -/
theorem lookupPrefix_inverse {node : N} {chain : List N}
    (hchain : ParentChain host.parent node chain) (uri : String) :
    (∀ pfx, host.lookupPrefix node uri = some pfx →
        pfx ≠ "" ∧
          (pfx ≠ xmlPrefix →
            host.lookupNamespaceUri node (some pfx) = some uri ∧
              (host.declarationsAlong chain).find? (·.pfx == pfx) = some ⟨pfx, uri⟩)) ∧
      ∀ pfx, pfx ≠ "" → host.lookupNamespaceUri node (some pfx) = some uri →
        (host.lookupPrefix node uri).isSome := by
  constructor
  · intro pfx hlookup
    rcases host.lookupPrefix_cases hlookup with ⟨rfl, rfl⟩ | ⟨hscope, hpfx, huri⟩
    · exact ⟨by decide, fun hne => absurd rfl hne⟩
    · refine ⟨hpfx, fun hne => ?_⟩
      have hinUse := host.mem_bindingsInUse.mpr ⟨hscope, huri⟩
      constructor
      · rw [host.lookupNamespaceUri_of_ne hne]
        exact (host.mem_bindingsInUse_iff hchain pfx uri).mp hinUse
      · -- No other member of the scope has the prefix, so the nearest declaration is this one.
        rw [← host.find?_scope hchain pfx]
        exact find?_eq_some_of_mem Binding.pfx (host.nodup_scope hchain) hscope
  · intro pfx hpfx hlookup
    by_cases hxml : pfx = xmlPrefix
    · subst hxml
      rw [lookupNamespaceUri_xml] at hlookup
      obtain rfl := Option.some.inj hlookup
      rfl
    · rw [host.lookupNamespaceUri_of_ne hxml] at hlookup
      have hinUse := (host.mem_bindingsInUse_iff hchain pfx uri).mpr hlookup
      obtain ⟨hscope, huri⟩ := host.mem_bindingsInUse.mp hinUse
      exact host.isSome_lookupPrefix_of_mem hscope hpfx huri

end Host

/-- A text in two elements. The outer one declares `a`, `b` and the default namespace to be
one namespace; the inner one gives `a` another and takes `c` out of use. -/
def hidingTable : Table where
  rows :=
    [⟨.element, "outer", none, none, none, none, [1, 2, 3, 4], 0⟩,
      ⟨.attribute, "xmlns", some "urn:x", none, none, none, [], 1⟩,
      ⟨.attribute, "xmlns:a", some "urn:x", none, none, none, [], 2⟩,
      ⟨.attribute, "xmlns:c", some "urn:x", none, none, none, [], 3⟩,
      ⟨.attribute, "xmlns:b", some "urn:x", none, none, none, [], 4⟩,
      ⟨.element, "inner", none, none, some 0, none, [6, 7], 5⟩,
      ⟨.attribute, "xmlns:a", some "urn:y", none, none, none, [], 6⟩,
      ⟨.attribute, "xmlns:c", some "", none, none, none, [], 7⟩,
      ⟨.text, "#text", some "t", none, some 5, none, [], 8⟩]
  tellsNamespaces := false

/-- Of four declarations that come first, only that of `b` is still in force at the text. -/
theorem lookupPrefix_inverse_hiding :
    ParentChain hidingTable.host.parent 8 [8, 5, 0] ∧
      hidingTable.host.lookupPrefix 8 "urn:x" = some "b" ∧
      "b" ≠ xmlPrefix ∧
      hidingTable.host.lookupNamespaceUri 8 (some "b") = some "urn:x" ∧
      hidingTable.host.lookupNamespaceUri 8 (some "a") = some "urn:y" ∧
      (hidingTable.host.lookupPrefix 8 "urn:y").isSome := by
  have hchain : ParentChain hidingTable.host.parent 8 [8, 5, 0] :=
    .step rfl (.step rfl (.top rfl))
  have hlookup : hidingTable.host.lookupPrefix 8 "urn:x" = some "b" := by
    decide +kernel
  have hother : hidingTable.host.lookupNamespaceUri 8 (some "a") = some "urn:y" := by
    decide +kernel
  have hne : "b" ≠ xmlPrefix := by decide
  have hstands := ((hidingTable.host.lookupPrefix_inverse hchain "urn:x").1 "b" hlookup).2 hne
  have hoffered := (hidingTable.host.lookupPrefix_inverse hchain "urn:y").2 "a" (by decide) hother
  exact ⟨hchain, hlookup, hne, hstands.1, hother, hoffered⟩

end XPathTree

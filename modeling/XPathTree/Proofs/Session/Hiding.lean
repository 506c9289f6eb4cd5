import XPathTree.Proofs.Forest.Declarations
import XPathTree.Proofs.Inheritance
import XPathTree.Proofs.Session.Release

/-! # Namespaces and letting go

When nodes further out are let go of, a node that is left meets fewer declarations, and those
it no longer meets are the last ones on its way up. So of what was in scope some is hidden,
and nothing comes to mean anything else.
-/

namespace XPathTree

open Forest

universe u v

variable {M : Type u} {N : Type v}

/-- Whether a node has part of the namespaces of another one and none besides. -/
structure Host.Hides (host : Host M) (node : M) (whole : Host N) (other : N) : Prop where
  /-- Beside `xml` the nodes that are left of an axis are the first ones, in their order. -/
  pairs_initial : host.pairsBesideXml node <+: whole.pairsBesideXml other
  lookup_same_or_absent : ∀ pfx : String,
    host.lookupNamespaceUri node (some pfx) = whole.lookupNamespaceUri other (some pfx) ∨
      host.lookupNamespaceUri node (some pfx) = none
  lookup_xml : host.lookupNamespaceUri node (some xmlPrefix) =
    whole.lookupNamespaceUri other (some xmlPrefix)

/-- A chain that ends early hides what is declared beyond its end. -/
theorem Host.hides_of_initial {host : Host M} {whole : Host N} {node : M} {other : N}
    {left : List M} {chain : List N} (hleft : ParentChain host.parent node left)
    (hchain : ParentChain whole.parent other chain) (hkind : host.kind node = whole.kind other)
    (hinitial : host.declarationsAlong left <+: whole.declarationsAlong chain) :
    host.Hides node whole other where
  pairs_initial := by
    by_cases helement : whole.kind other = .element
    · rw [host.pairsBesideXml_eq hleft (hkind.trans helement),
        whole.pairsBesideXml_eq hchain helement]
      exact (Declared.inUse_initial hinitial).filter _
    · rw [pairsBesideXml, host.axisPairs_of_ne (hkind ▸ helement)]
      exact List.nil_prefix
  lookup_same_or_absent pfx := by
    rw [(host.readsOff hleft).lookupNamespaceUri_eq, (whole.readsOff hchain).lookupNamespaceUri_eq,
      Declared.uriOf?, Declared.uriOf?]
    split
    · exact Or.inl rfl
    · exact Declared.target?_initial hinitial _
  lookup_xml := by
    rw [(host.readsOff hleft).lookupNamespaceUri_eq, (whole.readsOff hchain).lookupNamespaceUri_eq]
    rfl

/-- What is left of a forest hides of the namespaces of a node what was declared on the nodes
that are gone. -/
theorem Forest.WellFormed.hides_retain {forest : Forest} (hforest : forest.WellFormed)
    {held : List NodeId} {id : NodeId} (hid : id ∈ (forest.retain held).ids) :
    (forest.retain held).host.Hides id forest.host id := by
  have hkeeps := hforest.keeps_retain held
  obtain ⟨chain, hchain⟩ := hforest.exists_parentChain id
  obtain ⟨left, hleft, hinitial⟩ := hforest.exists_parentChain_retain hchain hid
  refine Host.hides_of_initial hleft hchain (kind_eq_of_contents? (hkeeps.contents?_eq hid).symm) ?_
  rw [← hkeeps.declarationsAlong_eq (hforest.retain held) hforest hid hleft]
  exact forest.host.declarationsAlong_initial hinitial

namespace Session

variable {before : Session Forest} {kept : Holdings NodeId} {id : NodeId}

/-- Whatever values are let go of, a node that is still reached loses namespaces at most. -/
theorem Reachable.settle_hides (hbefore : before.Reachable)
    (hkept : ∀ entry ∈ kept.entries, before.Offers entry.2)
    (hid : (before.holding kept).Reaches id) :
    (before.holding kept).settle.source.host.Hides id before.source.host id := by
  have hforest : (before.holding kept).source.WellFormed := hbefore.settled.wellFormed
  have hgrounded : (before.holding kept).Grounded := by
    intro entry hentry
    have hvalue : entry.2.Grounded before.source :=
      (hkept entry hentry).grounded hbefore.settled.wellFormed hbefore.settled.grounded
    exact hvalue
  exact hforest.hides_retain ((mem_ids_settle_iff hforest hgrounded).mpr hid)

/-- An element that declares `a` and `b`, over one that declares `c` and takes `b` out of use. -/
def scopedPlan : Plan :=
  .under (.ofElement "outer")
    (.leaf (.ofDeclaration "a" "urn:a") (.leaf (.ofDeclaration "b" "urn:b") .done))
    (.under (.ofElement "inner")
      (.leaf (.ofDeclaration "c" "urn:c") (.leaf (.ofDeclaration "b" "") .done)) .done)

def scopedSession : Session Forest :=
  (((start Forest.empty).build scopedPlan).2.hold "outer" (.treeNode 5)).settle

/-- The inner element is held as well. -/
def scopedTwice : Session Forest := (scopedSession.hold "inner" (.treeNode 4)).settle

theorem settle_hides_outer :
    scopedTwice.Reachable ∧
      (∀ entry ∈ (scopedTwice.holdings.erase "outer").entries, scopedTwice.Offers entry.2) ∧
      (scopedTwice.release "outer").Reaches 4 ∧
      (scopedTwice.release "outer").settle.source.host.Hides 4 scopedTwice.source.host 4 ∧
      scopedTwice.source.host.pairsBesideXml 4 = [⟨"c", "urn:c"⟩, ⟨"a", "urn:a"⟩] ∧
      (scopedTwice.release "outer").settle.source.host.pairsBesideXml 4 = [⟨"c", "urn:c"⟩] ∧
      scopedTwice.source.host.lookupNamespaceUri 4 (some "a") = some "urn:a" ∧
      (scopedTwice.release "outer").settle.source.host.lookupNamespaceUri 4 (some "a") = none ∧
      scopedTwice.source.host.lookupNamespaceUri 4 (some "b") = none ∧
      (scopedTwice.release "outer").settle.source.host.lookupNamespaceUri 4 (some "b") = none := by
  have hscoped : scopedSession.Reachable :=
    .step .start (.build scopedPlan "outer" (by rfl) (List.mem_singleton_self 5))
  have hinner : scopedSession.Offers (.treeNode 4) := by
    have hentry : ("outer", Value.treeNode 5) ∈ scopedSession.holdings.entries := by
      decide +kernel
    have hwalk : scopedSession.walk? (.treeNode 5) [.child 0] = some (.treeNode 4) := by
      decide +kernel
    exact .walk (.held hentry) hwalk
  have hreachable : scopedTwice.Reachable := .step hscoped (.hold "inner" hinner)
  have hkept : ∀ entry ∈ (scopedTwice.holdings.erase "outer").entries,
      scopedTwice.Offers entry.2 :=
    fun _ hentry => .held (Holdings.mem_entries_erase hentry)
  have hreaches : (scopedTwice.release "outer").Reaches 4 :=
    ⟨("inner", .treeNode 4), by decide +kernel, .refl⟩
  refine ⟨hreachable, hkept, hreaches, hreachable.settle_hides hkept hreaches, ?_⟩
  decide +kernel

end Session

end XPathTree

import Mathlib.Data.List.Forall2
import XPathTree.Host.Table
import XPathTree.Proofs.Declared

/-! # The order of attributes

Two documents that differ in the order of attributes only have the same namespaces, as long
as no element declares a prefix twice. The declarations of each element are the same ones in
another order, so every prefix has the same nearest declaration in both. An axis may list its
nodes in another order then, and another of several prefixes may be offered for a namespace.
-/

namespace XPathTree

universe u v

variable {M : Type u} {N : Type v}

/-! ## Declarations that answer alike -/

namespace Declared

variable {first second : List Binding}

theorem nodup_inUse (declared : List Binding) : (inUse declared).Nodup := by
  apply List.Nodup.of_map Binding.pfx
  exact (nodup_firsts Binding.pfx declared).sublist (List.filter_sublist.map _)

section SameTargets

variable (htargets : ∀ pfx, target? first pfx = target? second pfx)

include htargets

/-- What is in use is known by what each prefix stands for, its order apart. -/
theorem inUse_perm : (inUse first).Perm (inUse second) := by
  apply (List.perm_ext_iff_of_nodup (nodup_inUse first) (nodup_inUse second)).mpr
  intro binding
  cases binding with
  | mk pfx uri => rw [mem_inUse_iff, mem_inUse_iff, htargets]

theorem axis_perm : (axis first).Perm (axis second) := by
  have hinUse := inUse_perm htargets
  have hxml := (hinUse.map Binding.pfx).mem_iff (a := xmlPrefix)
  rw [axis, axis, if_congr hxml rfl rfl]
  exact hinUse.append_right _

theorem uriOf?_eq (pfx : String) : uriOf? first pfx = uriOf? second pfx := by
  rw [uriOf?, uriOf?, htargets]

/-- Which prefix is found may hang on the order, but not whether one is. -/
theorem isSome_prefixFor?_iff (uri : String) :
    (prefixFor? first uri).isSome ↔ (prefixFor? second uri).isSome := by
  rw [prefixFor?, prefixFor?]
  split
  next => rfl
  next =>
    rw [Option.isSome_map, Option.isSome_map, List.find?_isSome, List.find?_isSome]
    exact exists_congr fun binding => and_congr_left' (inUse_perm htargets).mem_iff

end SameTargets

end Declared

namespace Host

variable {first : Host M} {second : Host N} {related : M → N → Prop}

/-- Whether related nodes of two hosts differ at most in the order of their attributes. In
what two nodes answer the related nodes stand for each other. -/
structure Reorders (first : Host M) (second : Host N) (related : M → N → Prop) : Prop where
  kind_eq : ∀ node other, related node other → first.kind node = second.kind other
  nodeName_eq : ∀ node other, related node other → first.nodeName node = second.nodeName other
  nodeValue_eq : ∀ node other, related node other → first.nodeValue node = second.nodeValue other
  namespaceUri_eq : ∀ node other, related node other →
    first.namespaceUri node = second.namespaceUri other
  parent : ∀ node other, related node other →
    Option.Rel related (first.parent node) (second.parent other)
  attributes : ∀ node other, related node other → ∃ row, (first.attributes node).Perm row ∧
    List.Forall₂ related row (second.attributes other)

/-- Whether two nodes, each in a host of its own, have the same namespaces in some order. -/
structure ReadsAlikeUnordered (first : Host M) (node : M) (second : Host N) (other : N) :
    Prop where
  axisPairs_perm : (first.axisPairs node).Perm (second.axisPairs other)
  lookupNamespaceUri_eq : ∀ pfx,
    first.lookupNamespaceUri node pfx = second.lookupNamespaceUri other pfx
  isSome_lookupPrefix_iff : ∀ uri,
    (first.lookupPrefix node uri).isSome ↔ (second.lookupPrefix other uri).isSome

/-- Whether no prefix is declared twice on one node of a chain. -/
def DeclaresOnce (host : Host N) (chain : List N) : Prop :=
  ∀ above ∈ chain, ((host.declarations above).map Binding.pfx).Nodup

theorem ReadsOff.alike_of_targets {node : M} {other : N} {declared counterpart : List Binding}
    (hfirst : first.ReadsOff node declared) (hsecond : second.ReadsOff other counterpart)
    (hkind : first.kind node = second.kind other)
    (htargets : ∀ pfx, Declared.target? declared pfx = Declared.target? counterpart pfx) :
    first.ReadsAlikeUnordered node second other where
  axisPairs_perm := by
    rw [hfirst.axisPairs_eq, hsecond.axisPairs_eq, hkind]
    split
    next => exact Declared.axis_perm htargets
    next => exact .nil
  lookupNamespaceUri_eq pfx := by
    rw [hfirst.lookupNamespaceUri_eq, hsecond.lookupNamespaceUri_eq, Declared.uriOf?_eq htargets]
  isSome_lookupPrefix_iff uri := by
    rw [hfirst.lookupPrefix_eq, hsecond.lookupPrefix_eq]
    split
    next => rfl
    next => exact Declared.isSome_prefixFor?_iff htargets uri

namespace Reorders

variable (hreorders : first.Reorders second related)

include hreorders

theorem isDeclaration_eq {node : M} {other : N} (hnode : related node other) :
    first.isDeclaration node = second.isDeclaration other := by
  rw [isDeclaration, isDeclaration, hreorders.kind_eq node other hnode,
    hreorders.nodeName_eq node other hnode, hreorders.namespaceUri_eq node other hnode]

theorem binding_eq {node : M} {other : N} (hnode : related node other) :
    first.binding node = second.binding other := by
  rw [binding, binding, hreorders.nodeName_eq node other hnode,
    hreorders.nodeValue_eq node other hnode]

theorem bindings_eq {row : List M} {others : List N} (hrow : List.Forall₂ related row others) :
    (row.filter first.isDeclaration).map first.binding =
      (others.filter second.isDeclaration).map second.binding := by
  induction hrow with
  | nil => rfl
  | cons hnode _ ih =>
      rw [List.filter_cons, List.filter_cons, hreorders.isDeclaration_eq hnode]
      split
      next => rw [List.map_cons, List.map_cons, hreorders.binding_eq hnode, ih]
      next => exact ih

/-- One element declares the same in both, in some order. -/
theorem declarations_perm {node : M} {other : N} (hnode : related node other) :
    (first.declarations node).Perm (second.declarations other) := by
  rw [declarations, declarations, hreorders.kind_eq node other hnode]
  split
  next =>
    obtain ⟨row, hperm, hrow⟩ := hreorders.attributes node other hnode
    rw [← hreorders.bindings_eq hrow]
    exact (hperm.filter _).map _
  next => exact .nil

/-- Along chains of related nodes every prefix has the same nearest declaration: on each
element there is one at most, so that it is the first wherever it stands. -/
theorem exists_way {node : M} {chain : List M} (hchain : ParentChain first.parent node chain)
    (honce : first.DeclaresOnce chain) {other : N} (hnode : related node other) :
    ∃ way, ParentChain second.parent other way ∧
      ∀ pfx, (first.declarationsAlong chain).find? (·.pfx == pfx) =
        (second.declarationsAlong way).find? (·.pfx == pfx) := by
  induction hchain generalizing other with
  | @top node hnone =>
      have hparent := hreorders.parent node other hnode
      rw [hnone] at hparent
      cases htop : second.parent other with
      | some above =>
          rw [htop] at hparent
          cases hparent
      | none =>
          refine ⟨[other], .top htop, fun pfx => ?_⟩
          rw [declarationsAlong_singleton, declarationsAlong_singleton]
          exact find?_eq_of_perm Binding.pfx (hreorders.declarations_perm hnode)
            (honce node List.mem_cons_self) pfx
  | @step node above rest habove _ ih =>
      obtain ⟨hown, hrest⟩ := List.forall_mem_cons.mp honce
      have hparent := hreorders.parent node other hnode
      rw [habove] at hparent
      cases hnext : second.parent other with
      | none =>
          rw [hnext] at hparent
          cases hparent
      | some next =>
          rw [hnext] at hparent
          cases hparent with
          | some hrelated =>
              obtain ⟨way, hway, hsame⟩ := ih hrest hrelated
              refine ⟨other :: way, .step hnext hway, fun pfx => ?_⟩
              rw [declarationsAlong_cons, declarationsAlong_cons, List.find?_append,
                List.find?_append, hsame,
                find?_eq_of_perm Binding.pfx (hreorders.declarations_perm hnode) hown pfx]

/-- Where no element declares a prefix twice, the order of attributes changes at most the
order of an axis and which of several prefixes is offered. -/
theorem readsAlikeUnordered {node : M} {chain : List M}
    (hchain : ParentChain first.parent node chain) (honce : first.DeclaresOnce chain) {other : N}
    (hnode : related node other) : first.ReadsAlikeUnordered node second other := by
  obtain ⟨way, hway, hsame⟩ := hreorders.exists_way hchain honce hnode
  apply (first.readsOff hchain).alike_of_targets (second.readsOff hway)
  · exact hreorders.kind_eq node other hnode
  · intro pfx
    rw [Declared.target?, Declared.target?, hsame]

end Reorders

end Host

/-! ## Tables with reversed attributes -/

/-- The row with its attributes in the reverse order. -/
def Row.reversed (row : Row) : Row := { row with attributes := row.attributes.reverse }

namespace Table

def reversed (table : Table) : Table := { table with rows := table.rows.map Row.reversed }

variable (table : Table)

theorem row?_reversed (index : Nat) :
    table.reversed.row? index = (table.row? index).map Row.reversed := by
  rw [row?, reversed, List.getElem?_map, row?]

theorem link?_reversed : table.reversed.link? = table.link? := by
  funext index
  rw [link?, link?, indices, indices, reversed, List.length_map]

theorem parent?_reversed (index : Nat) : table.reversed.parent? index = table.parent? index := by
  rw [parent?, parent?, row?_reversed, link?_reversed, Option.bind_map]
  rfl

theorem reorders_reversed : table.host.Reorders table.reversed.host Eq where
  kind_eq := by
    rintro node _ rfl
    simp only [host, row?_reversed, Option.map_map]
    rfl
  nodeName_eq := by
    rintro node _ rfl
    simp only [host, row?_reversed, Option.map_map]
    rfl
  nodeValue_eq := by
    rintro node _ rfl
    simp only [host, row?_reversed, Option.bind_map]
    rfl
  namespaceUri_eq := by
    rintro node _ rfl
    simp only [host, row?_reversed, Option.bind_map]
    rfl
  parent := by
    rintro node _ rfl
    change Option.Rel Eq (table.parent? node) (table.reversed.parent? node)
    rw [parent?_reversed]
    cases table.parent? node with
    | none => exact .none
    | some above => exact .some rfl
  attributes := by
    rintro node _ rfl
    refine ⟨(table.host.attributes node).reverse, (List.reverse_perm _).symm, ?_⟩
    have hattributes : table.reversed.host.attributes node =
        (table.host.attributes node).reverse := by
      simp only [host, row?_reversed, link?_reversed, ← List.filterMap_reverse]
      cases table.row? node <;> rfl
    rw [hattributes]
    exact List.forall₂_same.mpr fun _ _ => rfl

end Table

/-- An element in an element. The outer one declares `xml` and `b`; the inner one takes `b` out
of use and declares two prefixes for one namespace. -/
def reorderedTable : Table where
  rows :=
    [⟨.element, "outer", none, none, none, none, [1, 2, 3], 0⟩,
      ⟨.attribute, "xmlns:xml", some "urn:x", none, none, none, [], 1⟩,
      ⟨.attribute, "xmlns:a", some "urn:a", none, none, none, [], 2⟩,
      ⟨.attribute, "xmlns:b", some "urn:b", none, none, none, [], 3⟩,
      ⟨.element, "inner", none, none, some 0, none, [5, 6, 7], 4⟩,
      ⟨.attribute, "xmlns:c", some "urn:c", none, none, none, [], 5⟩,
      ⟨.attribute, "xmlns:b", some "", none, none, none, [], 6⟩,
      ⟨.attribute, "xmlns:d", some "urn:c", none, none, none, [], 7⟩]
  tellsNamespaces := false

/-- With the attributes reversed, `xml` changes its place on the axis, and another of the two
prefixes is offered. -/
theorem readsAlikeUnordered_reversed :
    reorderedTable.host.Reorders reorderedTable.reversed.host Eq ∧
      ParentChain reorderedTable.host.parent 4 [4, 0] ∧
      reorderedTable.host.DeclaresOnce [4, 0] ∧
      reorderedTable.host.ReadsAlikeUnordered 4 reorderedTable.reversed.host 4 ∧
      reorderedTable.host.axisPairs 4 =
        [⟨"c", "urn:c"⟩, ⟨"d", "urn:c"⟩, ⟨xmlPrefix, "urn:x"⟩, ⟨"a", "urn:a"⟩] ∧
      reorderedTable.reversed.host.axisPairs 4 =
        [⟨"d", "urn:c"⟩, ⟨"c", "urn:c"⟩, ⟨"a", "urn:a"⟩, ⟨xmlPrefix, "urn:x"⟩] ∧
      reorderedTable.host.lookupPrefix 4 "urn:c" = some "c" ∧
      reorderedTable.reversed.host.lookupPrefix 4 "urn:c" = some "d" := by
  have hreorders := reorderedTable.reorders_reversed
  have hchain : ParentChain reorderedTable.host.parent 4 [4, 0] := .step rfl (.top rfl)
  have honce : reorderedTable.host.DeclaresOnce [4, 0] := by
    unfold Host.DeclaresOnce
    decide +kernel
  refine ⟨hreorders, hchain, honce, hreorders.readsAlikeUnordered hchain honce rfl, ?_⟩
  decide +kernel

end XPathTree

import XPathTree.Host.Table
import XPathTree.Proofs.Declared
import XPathTree.Proofs.Forest.Declarations
import XPathTree.Proofs.Session.Steps

/-! # Declaring a scope anew

An element that stands alone and declares what is on some axis, one attribute for each
namespace node, has that axis itself. The two halves meet at `Forest.Declares`: a plan
makes an element of that kind, and every element of that kind reads as the axis says.
-/

namespace XPathTree

universe u

variable {N : Type u}

/-- Whether a node is an element without a parent and its attributes are those that declare
the bindings, one after another. -/
structure Forest.Declares (forest : Forest) (id : NodeId) (bindings : List Binding) : Prop where
  element : (forest.content? id).map (·.kind) = some .element
  parentless : forest.parent? id = none
  attributes_eq : (forest.attributes id).map forest.content? =
    bindings.map fun binding => some (.ofDeclaration binding.pfx binding.uri)

namespace Plan

/-- The plan for the attributes that declare the bindings. -/
def declarations : List Binding → Plan
  | [] => done
  | binding :: rest => leaf (.ofDeclaration binding.pfx binding.uri) (declarations rest)

/-- The plan for an element with these attributes and nothing else. -/
def declaring (written : String) (bindings : List Binding) : Plan :=
  build (.addAttributes (.opened (.ofElement written)) (declarations bindings)) done

/-! ## Making the element -/

section Shapes

variable (shapeOf : String → Except LookupError (Tree Content)) (bindings : List Binding)

theorem shapes_declarations : ∃ row, (declarations bindings).shapes shapeOf = .ok row ∧
    row.roots = bindings.map fun binding => .ofDeclaration binding.pfx binding.uri := by
  induction bindings with
  | nil => exact ⟨.nil, rfl, rfl⟩
  | cons binding rest ih =>
      obtain ⟨row, hrow, hroots⟩ := ih
      refine ⟨.cons (.ofDeclaration binding.pfx binding.uri) .nil .nil row, ?_, ?_⟩
      · rw [declarations, shapes, hrow]
        rfl
      · rw [Hedge.roots_cons, hroots, List.map_cons]

/-- All that is handed over are attributes, so the calls pass. -/
theorem shape_declarations (container : Container) : ∃ row,
    (Calls.addAttributes (.opened container) (declarations bindings)).shape shapeOf =
        .ok ⟨container.content, row, .nil⟩ ∧
      row.roots = bindings.map fun binding => .ofDeclaration binding.pfx binding.uri := by
  obtain ⟨row, hrow, hroots⟩ := shapes_declarations shapeOf bindings
  have hall : ∀ content ∈ row.roots, content.kind = .attribute := by
    rw [hroots]
    intro content hcontent
    obtain ⟨binding, _, rfl⟩ := List.mem_map.mp hcontent
    rw [Content.ofDeclaration_eq]
    rfl
  refine ⟨row, ?_, hroots⟩
  rw [Calls.shape, Calls.shape, hrow]
  exact if_pos hall

end Shapes

variable {forest : Forest}

/-- A node that is built over the attributes of a plan declares the bindings of the plan. -/
theorem declares_build (hforest : forest.WellFormed) {written : String} {bindings : List Binding}
    {builder : Builder} {row : Hedge Content}
    (hbuilder : builder.Shows forest ⟨(Container.ofElement written).content, row, .nil⟩)
    (hroots : row.roots = bindings.map fun binding => .ofDeclaration binding.pfx binding.uri) :
    (builder.build forest).2.Declares forest.next bindings where
  element := by
    rw [builder.content?_build_self hforest, ← hbuilder.root_eq]
    rfl
  parentless := builder.parent?_build_self hforest
  attributes_eq := by
    obtain ⟨shape, hshape, hmade⟩ :=
      (Building.comes_make_build hforest hbuilder).exists_said forest.next rfl
    obtain rfl := Except.ok.inj hshape
    have hattributes := ((builder.wellFormed_build hforest).map_contents?_below hmade).1
    rw [Forest.Shows.content?_eq hattributes, hroots, List.map_map]
    rfl

/-- Carrying out the plan makes a new element that declares the bindings, and nothing fails. -/
theorem meets_declaring {holdings : Holdings NodeId} (hforest : forest.WellFormed)
    (hheld : ∀ id ∈ holdings.owned, id ∈ forest.ids) (written : String)
    (bindings : List Binding) :
    ((declaring written bindings).run holdings).Meets forest fun made after =>
      ∃ id, made = .ok [id] ∧ id ∉ forest.ids ∧ after.Declares id bindings := by
  obtain ⟨row, hrow, hroots⟩ :=
    shape_declarations (forest.shapeHeld holdings) bindings (.ofElement written)
  refine (Calls.comes_run hheld _ hforest (.refl forest)).bind ?made ?failed
  case failed =>
    intro reason after hcomes
    cases hrow.symm.trans (hcomes.said_error reason rfl)
  intro builder first hfirst
  obtain ⟨shape, hshape, hbuilder⟩ := hfirst.exists_said builder rfl
  obtain rfl := Except.ok.inj (hrow.symm.trans hshape)
  refine Building.meets_make_bind (Building.meets_pure ⟨first.next, rfl, fun hold => ?_, ?_⟩)
  · exact Nat.lt_irrefl _ (hfirst.wellFormed.lt_next _ (hfirst.grows.keeps.mem_ids hold))
  · exact declares_build hfirst.wellFormed hbuilder hroots

end Plan

/-! ## Reading it -/

namespace Forest.Declares

variable {forest : Forest} {id : NodeId} {bindings : List Binding}

/-- What the attributes declare is what they were made for. -/
theorem declarations_eq (hdeclares : forest.Declares id bindings) :
    forest.host.declarations id = bindings := by
  rw [forest.declarations_eq, if_pos hdeclares.element, hdeclares.attributes_eq,
    List.filterMap_map]
  exact (List.filterMap_congr fun binding _ =>
    Content.declared?_ofDeclaration binding.pfx binding.uri).trans List.filterMap_some

theorem readsOff (hdeclares : forest.Declares id bindings) :
    forest.host.ReadsOff id bindings := by
  have hreads := forest.host.readsOff (.top hdeclares.parentless)
  rwa [Host.declarationsAlong_singleton, hdeclares.declarations_eq] at hreads

end Forest.Declares

namespace Host

variable (host : Host N) {element : N} {chain : List N}

/-- Declaring what is on an axis, one declaration for each of its nodes, gives that axis
again, whatever the prefixes and URIs are. -/
theorem namespaceAxis_declaring (hchain : ParentChain host.parent element chain)
    (helement : host.kind element = .element) :
    (∀ session : Session Forest, session.Reachable → ∀ written, ∃ id,
      (session.build (.declaring written (host.axisPairs element))).1 = .ok [id] ∧
        id ∉ session.source.ids ∧
        (session.build (.declaring written (host.axisPairs element))).2.source.Declares id
          (host.axisPairs element)) ∧
      ∀ (forest : Forest) (id : NodeId), forest.Declares id (host.axisPairs element) →
        forest.host.axisPairs id = host.axisPairs element ∧
          ∀ binding ∈ host.axisPairs element, binding.pfx ≠ xmlPrefix →
            forest.host.lookupNamespaceUri id (some binding.pfx) = some binding.uri := by
  constructor
  · intro session hsession written
    have hmade := Plan.meets_declaring hsession.settled.wellFormed
      (fun id hid => hsession.settled.grounded.mem_ids hid) written (host.axisPairs element)
    exact hmade
  intro forest id hdeclares
  have hreads := hdeclares.readsOff
  have hbindings := host.axisPairs_eq_axisBindings helement
  have hinUse : Declared.inUse (host.axisPairs element) = host.axisPairs element := by
    rw [hbindings]
    exact Declared.inUse_eq_self _ (host.nodup_axisBindings hchain)
      fun binding hbinding => host.uri_ne_of_mem_axisBindings hbinding
  have hxml : xmlPrefix ∈ (host.axisPairs element).map Binding.pfx :=
    hbindings ▸ host.xmlPrefix_mem_axisBindings element
  constructor
  · rw [hreads.axisPairs_eq, if_pos ((forest.kind_host_eq_iff id).mpr hdeclares.element),
      Declared.axis, hinUse, if_pos hxml, List.append_nil]
  · intro binding hbinding hne
    rw [hreads.lookupNamespaceUri_eq, Option.getD_some, Declared.uriOf?, if_neg hne,
      ← Declared.mem_inUse_iff, hinUse]
    exact hbinding

end Host

/-- An element in an element, with prefixes as odd as a document may declare them: with
colons, `xmlns`, `xml`, none, and the whole name of an attribute that declares by its
namespace. -/
def oddlyDeclaringTable : Table where
  rows :=
    [⟨.element, "outer", none, none, none, none, [1, 2, 3], 0⟩,
      ⟨.attribute, "xmlns:xml", some "urn:x", none, none, none, [], 1⟩,
      ⟨.attribute, "xmlns:b::c", some "urn:b", none, none, none, [], 2⟩,
      ⟨.attribute, "p:q", some "xmlns:p", some xmlnsUri, none, none, [], 3⟩,
      ⟨.element, "inner", none, none, some 0, none, [5, 6, 7], 4⟩,
      ⟨.attribute, "xmlns:", some "urn:d", none, none, none, [], 5⟩,
      ⟨.attribute, "xmlns:xmlns", some "urn:n", none, none, none, [], 6⟩,
      ⟨.attribute, "xmlns:p:q", some "", none, none, none, [], 7⟩]
  tellsNamespaces := true

theorem namespaceAxis_declaring_odd :
    ParentChain oddlyDeclaringTable.host.parent 4 [4, 0] ∧
      oddlyDeclaringTable.host.kind 4 = .element ∧
      oddlyDeclaringTable.host.axisPairs 4 =
        [⟨"", "urn:d"⟩, ⟨"xmlns", "urn:n"⟩, ⟨xmlPrefix, "urn:x"⟩, ⟨"b::c", "urn:b"⟩] ∧
      ∃ (id : NodeId) (forest : Forest),
        forest.Declares id (oddlyDeclaringTable.host.axisPairs 4) ∧
        forest.host.axisPairs id = oddlyDeclaringTable.host.axisPairs 4 ∧
        forest.host.lookupNamespaceUri id (some "b::c") = some "urn:b" := by
  have hchain : ParentChain oddlyDeclaringTable.host.parent 4 [4, 0] := .step rfl (.top rfl)
  have hpairs : oddlyDeclaringTable.host.axisPairs 4 =
      [⟨"", "urn:d"⟩, ⟨"xmlns", "urn:n"⟩, ⟨xmlPrefix, "urn:x"⟩, ⟨"b::c", "urn:b"⟩] := by
    decide +kernel
  obtain ⟨hmade, hread⟩ := oddlyDeclaringTable.host.namespaceAxis_declaring hchain rfl
  obtain ⟨id, _, _, hdeclares⟩ := hmade (Session.start Forest.empty) .start "f"
  obtain ⟨haxis, hlookup⟩ := hread _ id hdeclares
  have hlisted : Binding.mk "b::c" "urn:b" ∈ oddlyDeclaringTable.host.axisPairs 4 := by
    rw [hpairs]
    decide
  exact ⟨hchain, rfl, hpairs, id, _, hdeclares, haxis, hlookup _ hlisted (by decide)⟩

end XPathTree

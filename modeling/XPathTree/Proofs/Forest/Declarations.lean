import XPathTree.Forest.Host
import XPathTree.Proofs.Declaration
import XPathTree.Proofs.Forest.Shape
import XPathTree.Proofs.Scope

/-! # Declarations in a forest

What a node of a forest declares shows in the contents of the node and of its attributes.
Two nodes of one shape therefore declare the same, be they in one forest or in two.
-/

namespace XPathTree.Forest

variable {forest before after : Forest} {id other : NodeId}

theorem kind_host_eq_iff (forest : Forest) (id : NodeId) :
    forest.host.kind id = .element ↔ (forest.content? id).map (·.kind) = some .element := by
  cases hcontent : forest.content? id <;> simp [host, hcontent]

/-- An attribute is a declaration if its content is one, and declares what that says. -/
theorem declared?_eq (forest : Forest) (id : NodeId) :
    (if forest.host.isDeclaration id then some (forest.host.binding id) else none) =
      (forest.content? id).bind Content.declared? := by
  cases hcontent : forest.content? id with
  | none => simp [Host.isDeclaration, host, hcontent]
  | some content =>
      rw [Option.bind_some, Content.declared?]
      exact if_congr (by simp [Host.isDeclaration_iff, host, hcontent])
        (by simp [Host.binding, host, hcontent]) rfl

theorem declarations_eq (forest : Forest) (id : NodeId) :
    forest.host.declarations id =
      if (forest.content? id).map (·.kind) = some .element then
        ((forest.attributes id).map forest.content?).filterMap (·.bind Content.declared?)
      else [] := by
  rw [Host.declarations, ← List.filterMap_eq_map', List.filterMap_filter, List.filterMap_map]
  refine if_congr (kind_host_eq_iff forest id) ?_ rfl
  exact List.filterMap_congr fun inner _ => declared?_eq forest inner

/-- Nodes of one shape declare the same. -/
theorem declarations_eq_of_contents? (hbefore : before.WellFormed) (hafter : after.WellFormed)
    (hshape : after.contents? other = before.contents? id) :
    after.host.declarations other = before.host.declarations id := by
  obtain ⟨hattributes, _⟩ := map_contents?_eq_of_contents? hbefore hafter hshape
  rw [declarations_eq, declarations_eq, content?_eq_map after, content?_eq_map before, hshape,
    map_content?_eq_of_map_contents? hattributes]

theorem kind_eq_of_contents? (hshape : after.contents? other = before.contents? id) :
    after.host.kind other = before.host.kind id := by
  have hcontent : after.content? other = before.content? id := by
    rw [content?_eq_map, content?_eq_map, hshape]
  exact congrArg (fun content => (content.map Content.kind).getD .text) hcontent

/-- Ways past nodes of the same shapes pass the same declarations. -/
theorem declarationsAlong_eq_of_map_contents? (hbefore : before.WellFormed)
    (hafter : after.WellFormed) {ids others : List NodeId}
    (hshapes : others.map after.contents? = ids.map before.contents?) :
    after.host.declarationsAlong others = before.host.declarationsAlong ids := by
  induction ids generalizing others with
  | nil =>
      obtain rfl := List.map_eq_nil_iff.mp hshapes
      rfl
  | cons id ids ih =>
      obtain ⟨other, others, rfl, hshape, hshapes⟩ := List.map_eq_cons_iff.mp hshapes
      rw [Host.declarationsAlong_cons, Host.declarationsAlong_cons,
        declarations_eq_of_contents? hbefore hafter hshape, ih hshapes]

theorem mem_ids_of_parentChain (hid : id ∈ forest.ids) {chain : List NodeId}
    (hchain : ParentChain forest.parent? id chain) : ∀ node ∈ chain, node ∈ forest.ids := by
  rw [hchain.eq_cons_tail]
  exact List.forall_mem_cons.mpr ⟨hid, hchain.tail_subset fun _ _ => forest.mem_ids_of_parent?⟩

/-- What is declared along a chain stays, whatever becomes of the chain. -/
theorem Keeps.declarationsAlong_eq (hkeeps : before.Keeps after) (hbefore : before.WellFormed)
    (hafter : after.WellFormed) (hid : id ∈ before.ids) {chain : List NodeId}
    (hchain : ParentChain before.parent? id chain) :
    after.host.declarationsAlong chain = before.host.declarationsAlong chain :=
  declarationsAlong_eq_of_map_contents? hbefore hafter
    (hkeeps.map_contents?_eq (mem_ids_of_parentChain hid hchain))

end XPathTree.Forest

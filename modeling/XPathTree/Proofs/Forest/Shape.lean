import XPathTree.Forest.Host
import XPathTree.Proofs.Forest.Identity
import XPathTree.Session.Source

/-! # Shapes

The shape of a node is its content over the shapes of its attributes and children. A
build gives the new node the shapes of what it was handed, in the same order: a copy has
the shape of what it was made of, and no shape changes when nodes are made.
-/

namespace XPathTree

namespace Forest

variable {forest before after : Forest} {id entry : NodeId}

theorem mem_ids_of_contents? {shape : Tree Content} (hshape : forest.contents? id = some shape) :
    id ∈ forest.ids := by
  obtain ⟨tree, htree, _⟩ := Option.map_eq_some_iff.mp hshape
  exact mem_ids_iff.mpr ⟨tree, htree⟩

theorem mem_ids_of_content? {content : Content} (hcontent : forest.content? id = some content) :
    id ∈ forest.ids := by
  obtain ⟨tree, htree, _⟩ := Option.map_eq_some_iff.mp hcontent
  exact mem_ids_iff.mpr ⟨tree, htree⟩

theorem exists_contents? (hid : id ∈ forest.ids) : ∃ shape, forest.contents? id = some shape := by
  obtain ⟨tree, htree⟩ := mem_ids_iff.mp hid
  exact ⟨tree.contents, Option.map_eq_some_iff.mpr ⟨tree, htree, rfl⟩⟩

theorem content?_of_contents? {shape : Tree Content} (hshape : forest.contents? id = some shape) :
    forest.content? id = some shape.root := by
  rw [content?_eq_map, hshape, Option.map_some]

/-! What is read of a node can be told from its shape. -/

section Reading

variable {shape : Tree Content} (hshape : forest.contents? id = some shape)

include hshape

theorem kind_of_contents? : forest.host.kind id = shape.root.kind :=
  congrArg (fun content => (content.map Content.kind).getD .text) (content?_of_contents? hshape)

theorem nodeName_of_contents? : forest.host.nodeName id = shape.root.nodeName :=
  congrArg (fun content => (content.map Content.nodeName).getD "") (content?_of_contents? hshape)

theorem nodeValue_of_contents? : forest.host.nodeValue id = shape.root.value? :=
  congrArg (fun content => content.bind Content.value?) (content?_of_contents? hshape)

theorem namespaceUri_of_contents? : forest.host.namespaceUri id = shape.root.namespaceUri? :=
  congrArg (fun content => content.bind Content.namespaceUri?) (content?_of_contents? hshape)

theorem name?_of_contents? : Source.name? forest id = shape.root.name? :=
  congrArg (fun content => content.bind Content.name?) (content?_of_contents? hshape)

theorem stringValue_of_contents? : forest.host.stringValue id = shape.stringValue := by
  apply (forest.stringValue_eq_map id).trans
  rw [hshape, Option.map_some, Option.getD_some]

end Reading

/-- A list of nodes that all have a shape is one of nodes that are there. -/
theorem mem_ids_of_map_contents? {ids : List NodeId} {shapes : List (Tree Content)}
    (hshapes : ids.map forest.contents? = shapes.map some) (hid : id ∈ ids) :
    id ∈ forest.ids := by
  have hmem : forest.contents? id ∈ shapes.map some := hshapes ▸ List.mem_map_of_mem hid
  obtain ⟨shape, _, hshape⟩ := List.mem_map.mp hmem
  exact mem_ids_of_contents? hshape.symm

theorem Keeps.map_contents?_eq (hkeeps : before.Keeps after) {ids : List NodeId}
    (hids : ∀ id ∈ ids, id ∈ before.ids) :
    ids.map after.contents? = ids.map before.contents? :=
  List.map_congr_left fun id hid => hkeeps.contents?_eq (hids id hid)

namespace WellFormed

theorem contents?_of_mem (hforest : forest.WellFormed) {tree : Tree Node}
    (htree : tree ∈ forest.trees.subtrees) :
    forest.contents? tree.root.id = some tree.contents := by
  rw [contents?, tree?_of_mem hforest.nodup htree, Option.map_some]

/-- The shapes of the nodes at the top of a row are the trees of its contents. -/
theorem map_contents?_rootIds (hforest : forest.WellFormed) {row : Hedge Node}
    (hrow : ∀ tree ∈ row.trees, tree ∈ forest.trees.subtrees) :
    row.rootIds.map forest.contents? = (row.map (·.content)).trees.map some := by
  rw [Hedge.rootIds, Hedge.roots, List.map_map, List.map_map, Hedge.trees_map, List.map_map]
  exact List.map_congr_left fun tree htree => hforest.contents?_of_mem (hrow tree htree)

/-- What is listed under a node has the shapes that its own shape lists. -/
theorem map_contents?_below (hforest : forest.WellFormed) {shape : Tree Content}
    (hshape : forest.contents? id = some shape) :
    (forest.attributes id).map forest.contents? = shape.attributes.trees.map some ∧
      (forest.children id).map forest.contents? = shape.children.trees.map some := by
  obtain ⟨tree, hfound, rfl⟩ := Option.map_eq_some_iff.mp hshape
  have htree := (mem_subtrees_of_tree? hfound).1
  rw [attributes, children, hfound]
  constructor
  · apply hforest.map_contents?_rootIds
    exact fun inner hinner => Hedge.mem_subtrees_of_top htree (Or.inl hinner)
  · apply hforest.map_contents?_rootIds
    exact fun inner hinner => Hedge.mem_subtrees_of_top htree (Or.inr hinner)

/-- The shape of a node is its content over the shapes of its attributes and children. -/
theorem contents?_eq_some_iff (hforest : forest.WellFormed) (id : NodeId) (shape : Tree Content) :
    forest.contents? id = some shape ↔
      forest.content? id = some shape.root ∧
        (forest.attributes id).map forest.contents? = shape.attributes.trees.map some ∧
        (forest.children id).map forest.contents? = shape.children.trees.map some := by
  constructor
  · intro hshape
    exact ⟨content?_of_contents? hshape, hforest.map_contents?_below hshape⟩
  · rintro ⟨hcontent, hattributes, hchildren⟩
    obtain ⟨tree, hfound, hroot⟩ := Option.map_eq_some_iff.mp hcontent
    have hshape : forest.contents? id = some tree.contents := by rw [contents?, hfound]; rfl
    -- The tree that is there lists the same shapes, and a row is known by its trees.
    obtain ⟨hattributes', hchildren'⟩ := hforest.map_contents?_below hshape
    rw [hshape]
    congr 1
    cases shape with
    | mk root attributes children =>
        obtain rfl : tree.root.content = root := hroot
        obtain rfl := Hedge.eq_of_map_some_trees (hattributes'.symm.trans hattributes)
        obtain rfl := Hedge.eq_of_map_some_trees (hchildren'.symm.trans hchildren)
        rfl

end WellFormed

/-- Nodes of one shape, be they of one forest or of two, have attributes and children of the
same shapes. -/
theorem map_contents?_eq_of_contents? (hbefore : before.WellFormed) (hafter : after.WellFormed)
    (hshape : after.contents? entry = before.contents? id) :
    (after.attributes entry).map after.contents? = (before.attributes id).map before.contents? ∧
      (after.children entry).map after.contents? = (before.children id).map before.contents? := by
  cases hbeforeShape : before.contents? id with
  | none =>
      have hnone : ∀ {forest : Forest} {id : NodeId}, forest.contents? id = none →
          forest.attributes id = [] ∧ forest.children id = [] := by
        intro forest id hcontents
        rw [contents?, Option.map_eq_none_iff] at hcontents
        rw [attributes, children, hcontents]
        exact ⟨rfl, rfl⟩
      obtain ⟨hattributes, hchildren⟩ := hnone hbeforeShape
      obtain ⟨hattributes', hchildren'⟩ := hnone (hshape.trans hbeforeShape)
      rw [hattributes, hchildren, hattributes', hchildren']
      exact ⟨rfl, rfl⟩
  | some shape =>
      obtain ⟨hattributes, hchildren⟩ := hbefore.map_contents?_below hbeforeShape
      obtain ⟨hattributes', hchildren'⟩ :=
        hafter.map_contents?_below (hshape.trans hbeforeShape)
      exact ⟨hattributes'.trans hattributes.symm, hchildren'.trans hchildren.symm⟩

/-- Nodes of the same shapes have the same contents. -/
theorem map_content?_eq_of_map_contents? {ids others : List NodeId}
    (hshapes : others.map after.contents? = ids.map before.contents?) :
    others.map after.content? = ids.map before.content? := by
  have hroots := congrArg (List.map (Option.map Tree.root)) hshapes
  rw [List.map_map, List.map_map] at hroots
  rw [List.map_congr_left fun id _ => after.content?_eq_map id,
    List.map_congr_left fun id _ => before.content?_eq_map id]
  exact hroots

/-- A node or the copy of it that takes its place, the shape is the same. -/
theorem Placed.contents?_eq {earlier : List NodeId} (hplaced : Placed before after earlier id entry)
    (hkeeps : before.Keeps after) (hid : id ∈ before.ids) :
    after.contents? entry = before.contents? id := by
  by_cases hitself : before.link? id = none ∧ id ∉ earlier
  · rw [hplaced.eq_self hitself.1 hitself.2]
    exact hkeeps.contents?_eq hid
  · rw [Placed, if_neg hitself] at hplaced
    exact hplaced.1

end Forest

namespace Builder

open Forest

variable {forest : Forest}

theorem map_contents?_build (builder : Builder) (hforest : forest.WellFormed)
    (hhanded : ∀ id ∈ builder.handed, id ∈ forest.ids) :
    ((builder.build forest).2.below forest.next).map (builder.build forest).2.contents? =
      builder.handed.map forest.contents? := by
  obtain ⟨hattributes, hchildren⟩ := builder.length_build hforest hhanded
  have hlength : ((builder.build forest).2.below forest.next).length = builder.handed.length := by
    rw [below, handed, List.length_append, List.length_append, hattributes, hchildren]
  apply List.ext_getElem?
  intro place
  rw [List.getElem?_map, List.getElem?_map]
  by_cases hplace : place < builder.handed.length
  · have hid := List.getElem?_eq_getElem hplace
    have hentry := List.getElem?_eq_getElem (hlength.symm ▸ hplace)
    have hplaced := builder.placed_build hforest hhanded place hid hentry
    rw [hid, hentry, Option.map_some, Option.map_some]
    congr 1
    exact hplaced.contents?_eq (builder.grows_build hforest).keeps
      (hhanded _ (List.getElem_mem hplace))
  · rw [List.getElem?_eq_none (Nat.le_of_not_lt hplace),
      List.getElem?_eq_none (hlength ▸ Nat.le_of_not_lt hplace), Option.map_none, Option.map_none]

/-- Attributes and children come in the numbers in which they were handed over. -/
theorem map_contents?_build_apart (builder : Builder) (hforest : forest.WellFormed)
    (hhanded : ∀ id ∈ builder.handed, id ∈ forest.ids) :
    ((builder.build forest).2.attributes forest.next).map (builder.build forest).2.contents? =
        builder.attributes.map forest.contents? ∧
      ((builder.build forest).2.children forest.next).map (builder.build forest).2.contents? =
        builder.children.map forest.contents? := by
  have hbelow := builder.map_contents?_build hforest hhanded
  rw [below, handed, List.map_append, List.map_append] at hbelow
  exact List.append_inj hbelow (by simpa using (builder.length_build hforest hhanded).1)

/-- A new node has its container's content over the shapes of what was handed over. -/
theorem contents?_build (builder : Builder) (hforest : forest.WellFormed)
    (hhanded : ∀ id ∈ builder.handed, id ∈ forest.ids) :
    ∃ shape, (builder.build forest).2.contents? (builder.build forest).1 = some shape ∧
      shape.root = builder.container.content ∧
      shape.attributes.trees.map some = builder.attributes.map forest.contents? ∧
      shape.children.trees.map some = builder.children.map forest.contents? := by
  have hafter := builder.wellFormed_build hforest
  have hcontent := builder.content?_build_self hforest
  obtain ⟨tree, hfound, hroot⟩ := Option.map_eq_some_iff.mp hcontent
  have hshape : (builder.build forest).2.contents? forest.next = some tree.contents := by
    rw [contents?, hfound, Option.map_some]
  obtain ⟨hattributes, hchildren⟩ := hafter.map_contents?_below hshape
  obtain ⟨hattributes', hchildren'⟩ := builder.map_contents?_build_apart hforest hhanded
  exact ⟨tree.contents, hshape, hroot, hattributes.symm.trans hattributes',
    hchildren.symm.trans hchildren'⟩

end Builder

end XPathTree

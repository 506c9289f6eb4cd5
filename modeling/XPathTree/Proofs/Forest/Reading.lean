import XPathTree.Forest.Build
import XPathTree.Proofs.Firsts
import XPathTree.Proofs.Hedge

/-! # Reading a forest by identity

A node is found by its identity, and in a forest that gives no identity twice the
search finds the one tree that has it. `Forest.Keeps` says that a change to a forest
leaves all that can be read below its nodes, the links apart.
-/

namespace XPathTree

/-- A node without its link. -/
def Node.bare (node : Node) : NodeId × Content := (node.id, node.content)

namespace Hedge

@[simp] theorem ids_nil : (nil : Hedge Node).ids = [] := rfl

@[simp] theorem ids_append (first second : Hedge Node) :
    (first ++ second).ids = first.ids ++ second.ids := by
  simp [ids]

@[simp] theorem ids_cons (root : Node) (attributes children rest : Hedge Node) :
    (cons root attributes children rest).ids =
      root.id :: (attributes.ids ++ children.ids ++ rest.ids) := by
  simp [ids]

@[simp] theorem rootIds_append (first second : Hedge Node) :
    (first ++ second).rootIds = first.rootIds ++ second.rootIds := by
  simp [rootIds]

theorem ids_map {f : Node → Node} (hid : ∀ node, (f node).id = node.id) (hedge : Hedge Node) :
    (hedge.map f).ids = hedge.ids := by
  rw [ids, labels_map, List.map_map, ids]
  exact List.map_congr_left fun node _ => hid node

theorem mem_ids_iff {hedge : Hedge Node} {id : NodeId} :
    id ∈ hedge.ids ↔ ∃ tree ∈ hedge.subtrees, tree.root.id = id := by
  simp [ids, labels]

theorem ids_eq_flatMap (hedge : Hedge Node) :
    hedge.ids = hedge.trees.flatMap fun tree => tree.toHedge.ids := by
  rw [ids, labels, subtrees_eq_flatMap, List.map_flatMap, List.map_flatMap]
  apply List.flatMap_congr
  intro tree _
  rw [ids, labels, subtrees_toHedge]

theorem mem_ids_of_mem_labels {hedge : Hedge Node} {node : Node} (hnode : node ∈ hedge.labels) :
    node.id ∈ hedge.ids := List.mem_map_of_mem hnode

end Hedge

namespace Forest

variable {forest before after : Forest} {id : NodeId} {tree : Tree Node}

theorem mem_subtrees_of_tree? (htree : forest.tree? id = some tree) :
    tree ∈ forest.trees.subtrees ∧ tree.root.id = id :=
  ⟨List.mem_of_find?_eq_some htree, by simpa using List.find?_some htree⟩

theorem tree?_of_mem (hnodup : forest.ids.Nodup) (htree : tree ∈ forest.trees.subtrees) :
    forest.tree? tree.root.id = some tree := by
  have hkeys : (forest.trees.subtrees.map fun inner => inner.root.id).Nodup := by
    simpa [ids, Hedge.ids, Hedge.labels, Function.comp_def] using hnodup
  exact find?_eq_some_of_mem (fun inner : Tree Node => inner.root.id) hkeys htree

theorem mem_ids_iff : id ∈ forest.ids ↔ ∃ tree, forest.tree? id = some tree := by
  constructor
  · intro hid
    obtain ⟨tree, htree, rfl⟩ := Hedge.mem_ids_iff.mp hid
    exact Option.isSome_iff_exists.mp (List.find?_isSome.mpr ⟨tree, htree, by simp⟩)
  · rintro ⟨tree, htree⟩
    exact Hedge.mem_ids_iff.mpr ⟨tree, mem_subtrees_of_tree? htree⟩

theorem tree?_eq_none_iff : forest.tree? id = none ↔ id ∉ forest.ids := by
  rw [mem_ids_iff, Option.eq_none_iff_forall_ne_some, not_exists]

theorem exists_node_of_link? {above : NodeId} (hlink : forest.link? id = some above) :
    ∃ node ∈ forest.trees.labels, node.id = id ∧ node.link = some above := by
  obtain ⟨tree, htree, hroot⟩ := Option.bind_eq_some_iff.mp hlink
  obtain ⟨hmem, hid⟩ := mem_subtrees_of_tree? htree
  exact ⟨tree.root, Hedge.mem_labels_iff.mpr ⟨tree, hmem, rfl⟩, hid, hroot⟩

theorem mem_ids_of_link? {above : NodeId} (hlink : forest.link? id = some above) :
    id ∈ forest.ids := by
  obtain ⟨node, hnode, rfl, _⟩ := exists_node_of_link? hlink
  exact Hedge.mem_ids_of_mem_labels hnode

/-- The parent is where the link leads, if that is there. -/
theorem parent?_iff_linked {above : NodeId} :
    forest.parent? id = some above ↔ forest.link? id = some above ∧ above ∈ forest.ids := by
  rw [parent?, Option.filter_eq_some_iff, decide_eq_true_iff]

/-- A node and all below it, by identity and content. -/
def bare? (forest : Forest) (id : NodeId) : Option (Tree (NodeId × Content)) :=
  (forest.tree? id).map (Tree.map Node.bare)

/-- The contents of a node and all below it. -/
def contents? (forest : Forest) (id : NodeId) : Option (Tree Content) :=
  (forest.tree? id).map Tree.contents

/-- The content of a node is at the root of its shape. -/
theorem content?_eq_map (forest : Forest) (id : NodeId) :
    forest.content? id = (forest.contents? id).map (·.root) := by
  rw [content?, contents?, Option.map_map]
  rfl

/-- The string value of a node is that of its shape. -/
theorem stringValue_eq_map (forest : Forest) (id : NodeId) :
    forest.stringValue id = ((forest.contents? id).map Tree.stringValue).getD "" := by
  rw [stringValue, contents?, Option.map_map]
  rfl

/-- The node and all nodes below it. -/
def idsWithin (forest : Forest) (id : NodeId) : List NodeId :=
  ((forest.tree? id).map (·.toHedge.ids)).getD []

theorem idsWithin_of_tree? (htree : forest.tree? id = some tree) :
    forest.idsWithin id = tree.toHedge.ids := by
  rw [idsWithin, htree, Option.map_some, Option.getD_some]

/-- Whether every node is still there, with the same content and the same nodes below. -/
def Keeps (before after : Forest) : Prop :=
  ∀ id ∈ before.ids, after.bare? id = before.bare? id

namespace Keeps

theorem refl (forest : Forest) : forest.Keeps forest := fun _ _ => rfl

theorem mem_ids (hkeeps : before.Keeps after) (hid : id ∈ before.ids) : id ∈ after.ids := by
  obtain ⟨tree, htree⟩ := mem_ids_iff.mp hid
  have hbare := hkeeps id hid
  rw [bare?, bare?, htree, Option.map_some] at hbare
  obtain ⟨kept, hkept, _⟩ := Option.map_eq_some_iff.mp hbare
  exact mem_ids_iff.mpr ⟨kept, hkept⟩

theorem trans {middle : Forest} (hfirst : before.Keeps middle) (hsecond : middle.Keeps after) :
    before.Keeps after :=
  fun id hid => (hsecond id (hfirst.mem_ids hid)).trans (hfirst id hid)

/-- Whatever is read off a node without its link and those below it is kept. -/
theorem read_eq {γ : Type} {read : Tree Node → γ} (bareRead : Tree (NodeId × Content) → γ)
    (hread : ∀ tree, read tree = bareRead (tree.map Node.bare)) (hkeeps : before.Keeps after)
    (hid : id ∈ before.ids) : (after.tree? id).map read = (before.tree? id).map read := by
  have hmap : ∀ forest : Forest, (forest.tree? id).map read = (forest.bare? id).map bareRead := by
    intro forest
    rw [bare?, Option.map_map]
    exact congrArg (Option.map · _) (funext hread)
  rw [hmap, hmap, hkeeps id hid]

theorem content?_eq (hkeeps : before.Keeps after) (hid : id ∈ before.ids) :
    after.content? id = before.content? id :=
  hkeeps.read_eq (fun tree => tree.root.2) (fun _ => rfl) hid

theorem isDocument_iff (hkeeps : before.Keeps after) (hid : id ∈ before.ids) :
    after.IsDocument id ↔ before.IsDocument id := by
  rw [IsDocument, IsDocument, hkeeps.content?_eq hid]

theorem contents?_eq (hkeeps : before.Keeps after) (hid : id ∈ before.ids) :
    after.contents? id = before.contents? id := by
  refine hkeeps.read_eq (Tree.map Prod.snd) (fun tree => ?_) hid
  simp [Tree.contents, Tree.map, Hedge.map_map, Node.bare]

theorem stringValue_eq (hkeeps : before.Keeps after) (hid : id ∈ before.ids) :
    after.stringValue id = before.stringValue id := by
  rw [stringValue_eq_map, stringValue_eq_map, hkeeps.contents?_eq hid]

theorem attributes_eq (hkeeps : before.Keeps after) (hid : id ∈ before.ids) :
    after.attributes id = before.attributes id := by
  refine congrArg (Option.getD · []) (hkeeps.read_eq
    (fun tree => tree.attributes.roots.map Prod.fst) (fun tree => ?_) hid)
  simp [Hedge.rootIds, Tree.map, Hedge.roots_map, Node.bare]

theorem children_eq (hkeeps : before.Keeps after) (hid : id ∈ before.ids) :
    after.children id = before.children id := by
  refine congrArg (Option.getD · []) (hkeeps.read_eq
    (fun tree => tree.children.roots.map Prod.fst) (fun tree => ?_) hid)
  simp [Hedge.rootIds, Tree.map, Hedge.roots_map, Node.bare]

theorem idsWithin_eq (hkeeps : before.Keeps after) (hid : id ∈ before.ids) :
    after.idsWithin id = before.idsWithin id := by
  refine congrArg (Option.getD · []) (hkeeps.read_eq
    (fun tree => tree.toHedge.labels.map Prod.fst) (fun tree => ?_) hid)
  simp [Hedge.ids, Tree.toHedge, Tree.map, Hedge.labels_map, Node.bare, Function.comp_def]

end Keeps

end Forest

end XPathTree

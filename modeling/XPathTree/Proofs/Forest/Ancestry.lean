import Mathlib.Logic.Relation
import XPathTree.Proofs.Forest.WellFormed

/-! # Parents and what is below

In a well-formed forest the parents are the other side of the attributes and children:
a node has one parent at most, and that is the node it is listed under. The tree of a
node is smaller than that of its parent, so every way up comes to an end.
-/

namespace XPathTree

/-- What stands under the root of a tree has a smaller tree. -/
theorem Tree.size_lt_of_below {α : Type} {tree inner : Tree α}
    (hinner : inner ∈ tree.attributes.trees ∨ inner ∈ tree.children.trees) :
    inner.toHedge.size < tree.toHedge.size := by
  have hsize : tree.toHedge.size = 1 + tree.attributes.size + tree.children.size := rfl
  rcases hinner with hinner | hinner
  all_goals
    have hle := Hedge.size_le_of_mem_subtrees (Hedge.mem_subtrees_of_mem_trees hinner)
    omega

namespace Forest

variable {forest : Forest} {id above : NodeId}

/-- What is listed under a node, attributes before children. -/
def below (forest : Forest) (id : NodeId) : List NodeId :=
  forest.attributes id ++ forest.children id

theorem below_of_tree? {tree : Tree Node} (htree : forest.tree? id = some tree) :
    forest.below id = tree.below.map (·.id) := by
  rw [below, attributes, children, htree, Tree.below, List.map_append]
  rfl

/-- The number of nodes in the tree of a node. -/
def weight (forest : Forest) (id : NodeId) : Nat :=
  ((forest.tree? id).map (·.toHedge.size)).getD 0

theorem weight_le (forest : Forest) (id : NodeId) : forest.weight id ≤ forest.trees.size := by
  rw [weight]
  cases htree : forest.tree? id with
  | none => exact Nat.zero_le _
  | some tree => exact Hedge.size_le_of_mem_subtrees (mem_subtrees_of_tree? htree).1

namespace WellFormed

/-- A node is listed under its parent, and under no other. -/
theorem parent?_eq_some_iff (hforest : forest.WellFormed) :
    forest.parent? id = some above ↔ id ∈ forest.below above := by
  constructor
  · intro hparent
    obtain ⟨hlink, hthere⟩ := parent?_iff_linked.mp hparent
    obtain ⟨node, hnode, rfl, habove⟩ := exists_node_of_link? hlink
    rcases Hedge.mem_roots_or_below hnode with hroot | ⟨tree, htree, hbelow⟩
    · exact absurd hthere (hforest.loose node hroot above habove).1
    · obtain rfl := Option.some.inj ((hforest.linked tree htree node hbelow).symm.trans habove)
      rw [below_of_tree? (tree?_of_mem hforest.nodup htree)]
      exact List.mem_map_of_mem hbelow
  · intro hid
    cases hfound : forest.tree? above with
    | none => simp [below, attributes, children, hfound] at hid
    | some tree =>
        obtain ⟨htree, rfl⟩ := mem_subtrees_of_tree? hfound
        rw [below_of_tree? hfound] at hid
        obtain ⟨node, hnode, rfl⟩ := List.mem_map.mp hid
        exact hforest.parent?_of_below htree hnode

theorem mem_ids_of_mem_below (hforest : forest.WellFormed) (hid : id ∈ forest.below above) :
    id ∈ forest.ids :=
  mem_ids_of_link? (parent?_iff_linked.mp (hforest.parent?_eq_some_iff.mpr hid)).1

/-- No node is listed twice. -/
theorem nodup_below (hforest : forest.WellFormed) :
    (forest.ids.flatMap forest.below).Nodup := by
  have hbelow : forest.ids.flatMap forest.below =
      (forest.trees.subtrees.flatMap Tree.below).map (·.id) := by
    rw [ids, Hedge.ids, Hedge.labels, List.map_map, List.flatMap_map, List.map_flatMap]
    apply List.flatMap_congr
    intro tree htree
    exact below_of_tree? (tree?_of_mem hforest.nodup htree)
  have hlabels := (forest.trees.labels_perm.map Node.id).nodup_iff.mp hforest.nodup
  rw [List.map_append] at hlabels
  rw [hbelow]
  exact (List.nodup_append.mp hlabels).2.1

/-- The trees of the nodes listed under a node have no node in common. -/
theorem nodup_idsWithin (hforest : forest.WellFormed) (id : NodeId) :
    ((forest.below id).flatMap forest.idsWithin).Nodup := by
  cases hfound : forest.tree? id with
  | none => simp [below, attributes, children, hfound]
  | some tree =>
      have htree := (mem_subtrees_of_tree? hfound).1
      have hids : (forest.below id).flatMap forest.idsWithin =
          (tree.attributes ++ tree.children).ids := by
        rw [below_of_tree? hfound, Tree.below, ← Hedge.roots_append, Hedge.roots, List.map_map,
          List.flatMap_map, Hedge.ids_eq_flatMap]
        apply List.flatMap_congr
        intro inner hinner
        rw [Hedge.trees_append, List.mem_append] at hinner
        have hmem := Hedge.mem_subtrees_of_top htree hinner
        rw [Function.comp_apply, idsWithin, tree?_of_mem hforest.nodup hmem]
        rfl
      have hpart : (tree.attributes ++ tree.children).subtrees.Sublist forest.trees.subtrees := by
        rw [Hedge.subtrees_append]
        exact (List.sublist_cons_self tree _).trans (Hedge.sublist_of_mem_subtrees htree)
      rw [hids]
      exact hforest.nodup.sublist ((hpart.map _).map _)

/-- The way up leads to greater trees. -/
theorem weight_lt_of_parent? (hforest : forest.WellFormed)
    (hparent : forest.parent? id = some above) : forest.weight id < forest.weight above := by
  have hid := hforest.parent?_eq_some_iff.mp hparent
  cases hfound : forest.tree? above with
  | none => simp [below, attributes, children, hfound] at hid
  | some tree =>
      rw [below_of_tree? hfound] at hid
      obtain ⟨node, hnode, rfl⟩ := List.mem_map.mp hid
      rw [Tree.below, ← Hedge.roots_append] at hnode
      obtain ⟨inner, hinner, rfl⟩ := Hedge.mem_roots_iff.mp hnode
      rw [Hedge.trees_append, List.mem_append] at hinner
      have hmem := mem_subtrees_of_tree? hfound
      have hinnerFound := tree?_of_mem hforest.nodup (Hedge.mem_subtrees_of_top hmem.1 hinner)
      rw [weight, weight, hfound, hinnerFound]
      exact Tree.size_lt_of_below hinner

/-- Every way up comes to an end. -/
theorem exists_parentChain (hforest : forest.WellFormed) (id : NodeId) :
    ∃ chain, ParentChain forest.parent? id chain := by
  cases hparent : forest.parent? id with
  | none => exact ⟨[id], .top hparent⟩
  | some above =>
      -- The trees grow on the way up and none is greater than the forest.
      have hlt := hforest.weight_lt_of_parent? hparent
      have hle := forest.weight_le above
      obtain ⟨chain, hchain⟩ := hforest.exists_parentChain above
      exact ⟨id :: chain, .step hparent hchain⟩
termination_by forest.trees.size - forest.weight id
decreasing_by omega

theorem weight_lt_of_ancestor (hforest : forest.WellFormed)
    (hancestor : Relation.TransGen (fun node above => forest.parent? node = some above) id above) :
    forest.weight id < forest.weight above := by
  induction hancestor with
  | single hparent => exact hforest.weight_lt_of_parent? hparent
  | tail _ hparent ih => exact Nat.lt_trans ih (hforest.weight_lt_of_parent? hparent)

end WellFormed

end Forest

end XPathTree

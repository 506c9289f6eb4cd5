import XPathTree.Proofs.Forest.Copy

/-! # Well-formed forests

What every forest of documents keeps to: no identity is given twice, none that is
still to be given is in use, and the links agree with the trees. Below a root each
link leads to the node directly above, and a root has a link to a node that is gone,
if it has one at all.
-/

namespace XPathTree.Forest

variable {forest : Forest} {id above : NodeId}

structure WellFormed (forest : Forest) : Prop where
  nodup : forest.ids.Nodup
  lt_next : ∀ id ∈ forest.ids, id < forest.next
  linked : forest.trees.Linked
  /-- The roots have left the node they were linked to behind. -/
  loose : ∀ node ∈ forest.trees.roots, ∀ above, node.link = some above →
    above ∉ forest.ids ∧ above < forest.next

namespace WellFormed

theorem empty : Forest.empty.WellFormed where
  nodup := List.nodup_nil
  lt_next := by simp [Forest.empty, ids]
  linked := Hedge.linked_nil
  loose := by simp [Forest.empty]

/-! ## Links and parents -/

theorem link?_eq (hforest : forest.WellFormed) {node : Node} (hnode : node ∈ forest.trees.labels) :
    forest.link? node.id = node.link := by
  obtain ⟨tree, htree, rfl⟩ := Hedge.mem_labels_iff.mp hnode
  rw [link?, tree?_of_mem hforest.nodup htree, Option.bind_some]

theorem link_lt_next (hforest : forest.WellFormed) {node : Node}
    (hnode : node ∈ forest.trees.labels) (hlink : node.link = some above) :
    above < forest.next := by
  rcases Hedge.mem_roots_or_below hnode with hroot | ⟨tree, htree, hbelow⟩
  · exact (hforest.loose node hroot above hlink).2
  · obtain rfl := Option.some.inj ((hforest.linked tree htree node hbelow).symm.trans hlink)
    exact hforest.lt_next _ (Hedge.mem_ids_iff.mpr ⟨tree, htree, rfl⟩)

theorem link?_lt_next (hforest : forest.WellFormed) (hlink : forest.link? id = some above) :
    above < forest.next := by
  obtain ⟨node, hnode, _, hlink⟩ := exists_node_of_link? hlink
  exact hforest.link_lt_next hnode hlink

/-- A node with no link to any that is there stands under no other. -/
theorem mem_roots_of_unlinked (hforest : forest.WellFormed) {node : Node}
    (hnode : node ∈ forest.trees.labels)
    (hlink : ∀ above ∈ forest.ids, node.link ≠ some above) : node ∈ forest.trees.roots := by
  rcases Hedge.mem_roots_or_below hnode with hroot | ⟨tree, htree, hbelow⟩
  · exact hroot
  · exact absurd (hforest.linked tree htree node hbelow)
      (hlink _ (Hedge.mem_ids_iff.mpr ⟨tree, htree, rfl⟩))

theorem parent?_of_below (hforest : forest.WellFormed) {tree : Tree Node} {node : Node}
    (htree : tree ∈ forest.trees.subtrees) (hbelow : node ∈ tree.below) :
    forest.parent? node.id = some tree.root.id := by
  rw [parent?_iff_linked, hforest.link?_eq (Hedge.mem_labels_of_below htree hbelow)]
  exact ⟨hforest.linked tree htree node hbelow, Hedge.mem_ids_iff.mpr ⟨tree, htree, rfl⟩⟩

/-! ## Steps -/

theorem reserve (hforest : forest.WellFormed) : forest.reserve.2.WellFormed where
  nodup := hforest.nodup
  lt_next id hid := Nat.lt_succ_of_lt (hforest.lt_next id hid)
  linked := hforest.linked
  loose node hnode above hlink :=
    have hgone := hforest.loose node hnode above hlink
    ⟨hgone.1, Nat.lt_succ_of_lt hgone.2⟩

/-- Trees of new nodes can be put beside those that are there. -/
theorem append (hforest : forest.WellFormed) {trees : Hedge Node} (size : Nat)
    (hids : trees.ids = List.range' forest.next size) (hlinked : trees.Linked)
    (hroots : ∀ node ∈ trees.roots, node.link = none) :
    (Forest.mk (forest.trees ++ trees) (forest.next + size)).WellFormed where
  nodup := by
    rw [ids, Hedge.ids_append, hids]
    refine List.nodup_append.mpr ⟨hforest.nodup, List.nodup_range', ?_⟩
    rintro id hold _ hnew rfl
    exact Nat.not_le_of_lt (hforest.lt_next id hold) (List.mem_range'_1.mp hnew).1
  lt_next := by
    intro id hid
    rw [ids, Hedge.ids_append, hids] at hid
    rcases List.mem_append.mp hid with hold | hnew
    · exact Nat.lt_add_right _ (hforest.lt_next id hold)
    · exact (List.mem_range'_1.mp hnew).2
  linked := Hedge.linked_append.mpr ⟨hforest.linked, hlinked⟩
  loose := by
    intro node hnode above hlink
    rw [Hedge.roots_append] at hnode
    rcases List.mem_append.mp hnode with hold | hnew
    · obtain ⟨hgone, hlt⟩ := hforest.loose node hold above hlink
      -- The node that is gone was numbered before the new ones, so it is none of them.
      refine ⟨?_, Nat.lt_add_right _ hlt⟩
      rw [ids, Hedge.ids_append, hids]
      intro hmem
      rcases List.mem_append.mp hmem with hmem | hmem
      · exact hgone hmem
      · exact Nat.not_le_of_lt hlt (List.mem_range'_1.mp hmem).1
    · simp [hroots node hnew] at hlink

theorem sow (hforest : forest.WellFormed) (content : Content) :
    (forest.sow content).2.WellFormed := by
  apply hforest.append 1 <;> simp

theorem copy (hforest : forest.WellFormed) (tree : Tree Node) :
    (forest.copy tree).2.WellFormed :=
  hforest.append _ (Hedge.ids_copy _ _) (Hedge.linked_copy _ _) (Hedge.roots_copy _ _)

end WellFormed

@[simp] theorem ids_link (forest : Forest) (above id : NodeId) :
    (forest.link above id).ids = forest.ids := by
  refine Hedge.ids_map (fun node => ?_) _
  split <;> rfl

/-- A link may be made to a node that is still to be made over those there. -/
theorem WellFormed.link (hforest : forest.WellFormed) (hunlinked : forest.link? id = none)
    (habove : above ∉ forest.ids) (hlt : above < forest.next) :
    (forest.link above id).WellFormed where
  nodup := by
    rw [ids_link]
    exact hforest.nodup
  lt_next := by
    rw [ids_link]
    exact hforest.lt_next
  linked := by
    intro linkedTree hlinkedTree linkedNode hlinkedNode
    rw [Forest.link, Hedge.subtrees_map] at hlinkedTree
    obtain ⟨tree, htree, rfl⟩ := List.mem_map.mp hlinkedTree
    rw [Hedge.below_map] at hlinkedNode
    obtain ⟨node, hnode, rfl⟩ := List.mem_map.mp hlinkedNode
    have hlink := hforest.linked tree htree node hnode
    -- What stands below a node has its link already, so it is not the one that is linked here.
    have hne : node.id ≠ id := by
      rintro rfl
      rw [hforest.link?_eq (Hedge.mem_labels_of_below htree hnode), hlink] at hunlinked
      simp at hunlinked
    rw [if_neg hne, hlink, Tree.map]
    dsimp only
    split <;> rfl
  loose := by
    intro linkedNode hlinkedNode other hlink
    rw [Forest.link, Hedge.roots_map] at hlinkedNode
    obtain ⟨node, hnode, rfl⟩ := List.mem_map.mp hlinkedNode
    rw [ids_link]
    split at hlink
    next =>
      obtain rfl := Option.some.inj hlink
      exact ⟨habove, hlt⟩
    next => exact hforest.loose node hnode other hlink

/-- What is put away with the nodes above it leaves roots whose links lead nowhere. -/
theorem WellFormed.retain (hforest : forest.WellFormed) (held : List NodeId) :
    (forest.retain held).WellFormed := by
  have hsubtrees := Hedge.subtrees_outermost (fun node : Node => node.id ∈ held) forest.trees
  have hids : (forest.retain held).ids.Sublist forest.ids :=
    (Hedge.labels_outermost _ forest.trees).map _
  have hnodup : (forest.retain held).ids.Nodup := hforest.nodup.sublist hids
  refine ⟨hnodup, fun id hid => hforest.lt_next id (hids.subset hid),
    fun tree htree => hforest.linked tree (hsubtrees.subset htree), ?_⟩
  intro node hroot above hlink
  have hlabel := (Hedge.labels_outermost _ forest.trees).subset
    (Hedge.mem_labels_of_mem_roots hroot)
  refine ⟨?_, hforest.link_lt_next hlabel hlink⟩
  intro hmem
  rcases Hedge.mem_roots_or_below hlabel with hbefore | ⟨tree, htree, hbelow⟩
  · exact (hforest.loose node hbefore above hlink).1 (hids.subset hmem)
  · -- Had the node above stayed, this one would still stand under it and be no root.
    obtain rfl := Option.some.inj ((hforest.linked tree htree node hbelow).symm.trans hlink)
    obtain ⟨kept, hkept, hid⟩ := Hedge.mem_ids_iff.mp hmem
    have hsame : kept = tree := by
      have hfound := tree?_of_mem hforest.nodup (hsubtrees.subset hkept)
      rw [hid, tree?_of_mem hforest.nodup htree] at hfound
      exact (Option.some.inj hfound).symm
    subst hsame
    exact Hedge.not_mem_below_of_mem_roots (List.Nodup.of_map _ hnodup) hroot hkept hbelow

end XPathTree.Forest

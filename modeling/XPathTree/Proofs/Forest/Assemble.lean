import XPathTree.Proofs.Forest.Attach

/-! # Assembling and building

A new node takes the trees of the nodes that were attached for it from the row of
roots and stands over them. Every other tree stays as it is, so that a forest has
grown by the node, by the copies that were made for it, and by nothing else.
-/

namespace XPathTree.Forest

variable {forest before after : Forest} {id above : NodeId}

/-! ## Gathering -/

theorem rootIds_filterRoots (p : NodeId → Bool) (hedge : Hedge Node) :
    (hedge.filterRoots fun node => p node.id).rootIds = hedge.rootIds.filter p := by
  rw [Hedge.rootIds, Hedge.roots, Hedge.trees_filterRoots, Hedge.rootIds, Hedge.roots,
    List.map_map, List.map_map, List.filter_map]
  rfl

theorem gather_cons (forest : Forest) (id : NodeId) (ids : List NodeId) :
    forest.gather (id :: ids) = forest.trees.filterRoots (·.id = id) ++ forest.gather ids := rfl

theorem gather_append (forest : Forest) (first second : List NodeId) :
    forest.gather (first ++ second) = forest.gather first ++ forest.gather second := by
  induction first with
  | nil => rfl
  | cons id ids ih => rw [List.cons_append, gather_cons, gather_cons, ih, Hedge.append_assoc]

theorem trees_gather (forest : Forest) (roots : List NodeId) :
    (forest.gather roots).trees =
      roots.flatMap fun id => forest.trees.trees.filter (·.root.id = id) := by
  induction roots with
  | nil => rfl
  | cons id ids ih =>
      rw [gather_cons, Hedge.trees_append, Hedge.trees_filterRoots, ih, List.flatMap_cons]

theorem mem_trees_gather {roots : List NodeId} {tree : Tree Node} :
    tree ∈ (forest.gather roots).trees ↔ tree ∈ forest.trees.trees ∧ tree.root.id ∈ roots := by
  simp only [trees_gather, List.mem_flatMap, List.mem_filter, decide_eq_true_eq]
  constructor
  · rintro ⟨id, hid, htree, rfl⟩
    exact ⟨htree, hid⟩
  · rintro ⟨htree, hid⟩
    exact ⟨_, hid, htree, rfl⟩

/-- A row that stands among the trees is gathered as it is. -/
theorem gather_rootIds (hnodup : forest.trees.rootIds.Nodup) {row : Hedge Node}
    (hrow : ∀ tree ∈ row.trees, tree ∈ forest.trees.trees) :
    forest.gather row.rootIds = row := by
  have hkeys : (forest.trees.trees.map fun tree => tree.root.id).Nodup := by
    simpa [Hedge.rootIds, Hedge.roots, Function.comp_def] using hnodup
  apply Hedge.trees_injective
  rw [trees_gather, Hedge.rootIds, Hedge.roots, List.map_map, List.flatMap_map]
  calc row.trees.flatMap (fun tree => forest.trees.trees.filter (·.root.id = tree.root.id))
      = row.trees.flatMap fun tree => [tree] := List.flatMap_congr fun tree htree =>
        filter_eq_singleton_of_mem (fun tree : Tree Node => tree.root.id) hkeys (hrow tree htree)
    _ = row.trees := by simp

theorem WellFormed.nodup_rootIds (hforest : forest.WellFormed) : forest.trees.rootIds.Nodup := by
  have hperm := (forest.trees.labels_perm.map Node.id).nodup_iff.mp hforest.nodup
  rw [List.map_append] at hperm
  exact (List.nodup_append.mp hperm).1

/-- Gathering brings the roots together in the order in which they are asked for. -/
theorem WellFormed.rootIds_gather (hforest : forest.WellFormed) (roots : List NodeId)
    (hroots : ∀ id ∈ roots, id ∈ forest.trees.rootIds) :
    (forest.gather roots).rootIds = roots := by
  induction roots with
  | nil => rfl
  | cons id ids ih =>
      obtain ⟨hid, hids⟩ := List.forall_mem_cons.mp hroots
      have hone : forest.trees.rootIds.filter (· = id) = [id] := by
        rw [List.filter_eq, List.count_eq_one_of_mem hforest.nodup_rootIds hid]
        rfl
      rw [gather_cons, Hedge.rootIds_append, ih hids, rootIds_filterRoots (· = id), hone]
      rfl

/-- What is gathered and what is left behind are together what was there. -/
theorem WellFormed.trees_gather_perm (hforest : forest.WellFormed) {roots : List NodeId}
    (hnodup : roots.Nodup) :
    ((forest.gather roots).trees ++ (forest.trees.filterRoots (·.id ∉ roots)).trees).Perm
      forest.trees.trees := by
  have htrees : forest.trees.trees.Nodup := by
    have hroots := hforest.nodup_rootIds
    rw [Hedge.rootIds, Hedge.roots, List.map_map] at hroots
    exact List.Nodup.of_map _ hroots
  have hgathered : (forest.gather roots).trees.Perm
      (forest.trees.trees.filter (·.root.id ∈ roots)) := by
    apply (List.perm_ext_iff_of_nodup _ (htrees.filter _)).mpr
    · intro tree
      rw [mem_trees_gather, List.mem_filter, decide_eq_true_eq]
    · rw [trees_gather]
      apply List.nodup_flatMap.mpr
      refine ⟨fun _ _ => htrees.filter _, ?_⟩
      apply hnodup.imp
      intro first second hne tree hfirst hsecond
      simp only [List.mem_filter, decide_eq_true_eq] at hfirst hsecond
      exact hne (hfirst.2.symm.trans hsecond.2)
  -- The gathered trees and those left behind are the two halves of one filter.
  rw [Hedge.trees_filterRoots]
  apply (hgathered.append_right _).trans
  simpa using List.filter_append_perm (fun tree : Tree Node => decide (tree.root.id ∈ roots))
    forest.trees.trees

/-! ## Assembling -/

variable {content : Content} {attributes children : List NodeId}

/-- The rows that come last are taken as they are, and the rest is left. -/
theorem assemble_of_append (hnodup : forest.trees.rootIds.Nodup) {left first second : Hedge Node}
    (htrees : forest.trees = left ++ first ++ second) (id : NodeId) (content : Content) :
    forest.assemble id content first.rootIds second.rootIds =
      ⟨left ++ .cons ⟨id, content, none⟩ first second .nil, forest.next⟩ := by
  have hfirst : forest.gather first.rootIds = first :=
    gather_rootIds hnodup fun tree htree => by simp [htrees, htree]
  have hsecond : forest.gather second.rootIds = second :=
    gather_rootIds hnodup fun tree htree => by simp [htrees, htree]
  have hroot : ∀ {hedge : Hedge Node}, ∀ tree ∈ hedge.trees, tree.root.id ∈ hedge.rootIds :=
    fun tree htree => List.mem_map_of_mem (List.mem_map_of_mem htree)
  have hapart : left.rootIds.Disjoint (first.rootIds ++ second.rootIds) := by
    rw [htrees, Hedge.rootIds_append, Hedge.rootIds_append, List.append_assoc] at hnodup
    exact List.disjoint_of_nodup_append hnodup
  have hleft : forest.trees.filterRoots (·.id ∉ first.rootIds ++ second.rootIds) = left := by
    apply Hedge.trees_injective
    rw [Hedge.trees_filterRoots, htrees, Hedge.trees_append, Hedge.trees_append,
      List.filter_append, List.filter_append, List.filter_eq_self.mpr, List.filter_eq_nil_iff.mpr,
      List.filter_eq_nil_iff.mpr, List.append_nil, List.append_nil]
    · intro tree htree
      simp [hroot tree htree]
    · intro tree htree
      simp [hroot tree htree]
    · intro tree htree
      exact decide_eq_true (hapart (hroot tree htree))
  rw [assemble, hleft, hfirst, hsecond]

/-- The nodes that wait for the one above them are roots. -/
theorem Awaits.mem_rootIds (hawaits : forest.Awaits above attributes)
    (hid : id ∈ attributes) : id ∈ forest.trees.rootIds := by
  obtain ⟨node, hnode, rfl, hlink⟩ := exists_node_of_link? ((hawaits.linked_iff id).mpr hid)
  apply List.mem_map_of_mem
  apply hawaits.wellFormed.mem_roots_of_unlinked hnode
  intro other hother hlinkOther
  obtain rfl := Option.some.inj (hlink.symm.trans hlinkOther)
  exact hawaits.absent hother

/-- Assembling adds one tree and leaves every other as it was. -/
theorem Awaits.subtrees_assemble_perm (hawaits : forest.Awaits above (attributes ++ children))
    (content : Content) :
    (forest.assemble above content attributes children).trees.subtrees.Perm
      (⟨⟨above, content, none⟩, forest.gather attributes, forest.gather children⟩ ::
        forest.trees.subtrees) := by
  have hperm := hawaits.wellFormed.trees_gather_perm hawaits.nodup
  rw [gather_append, Hedge.trees_append] at hperm
  have hsubtrees := hperm.flatMap_right Tree.subtrees
  rw [List.flatMap_append, List.flatMap_append, ← Hedge.subtrees_eq_flatMap,
    ← Hedge.subtrees_eq_flatMap, ← Hedge.subtrees_eq_flatMap,
    ← Hedge.subtrees_eq_flatMap] at hsubtrees
  rw [assemble, Hedge.subtrees_append, Hedge.subtrees, Hedge.subtrees_nil, List.append_nil]
  apply List.perm_middle.trans
  apply List.Perm.cons
  exact List.perm_append_comm.trans hsubtrees

theorem Awaits.ids_assemble_perm (hawaits : forest.Awaits above (attributes ++ children))
    (content : Content) :
    (forest.assemble above content attributes children).ids.Perm (above :: forest.ids) := by
  have hperm := (hawaits.subtrees_assemble_perm content).map fun tree => tree.root.id
  simpa [ids, Hedge.ids, Hedge.labels, Function.comp_def] using hperm

theorem Awaits.nodup_assemble (hawaits : forest.Awaits above (attributes ++ children))
    (content : Content) : (forest.assemble above content attributes children).ids.Nodup := by
  apply (hawaits.ids_assemble_perm content).nodup_iff.mpr
  exact List.nodup_cons.mpr ⟨hawaits.absent, hawaits.wellFormed.nodup⟩

/-- Whatever is a tree before is found as it was. -/
theorem Awaits.tree?_assemble (hawaits : forest.Awaits above (attributes ++ children))
    (hid : id ∈ forest.ids) (content : Content) :
    (forest.assemble above content attributes children).tree? id = forest.tree? id := by
  obtain ⟨tree, htree⟩ := mem_ids_iff.mp hid
  obtain ⟨hmem, rfl⟩ := mem_subtrees_of_tree? htree
  rw [htree]
  apply tree?_of_mem (hawaits.nodup_assemble content)
  exact (hawaits.subtrees_assemble_perm content).mem_iff.mpr (List.mem_cons_of_mem _ hmem)

theorem Awaits.tree?_assemble_self (hawaits : forest.Awaits above (attributes ++ children))
    (content : Content) :
    (forest.assemble above content attributes children).tree? above =
      some ⟨⟨above, content, none⟩, forest.gather attributes, forest.gather children⟩ := by
  have hmem := (hawaits.subtrees_assemble_perm content).mem_iff.mpr List.mem_cons_self
  exact tree?_of_mem (hawaits.nodup_assemble content) hmem

theorem Awaits.link?_assemble (hawaits : forest.Awaits above (attributes ++ children))
    (hid : id ∈ forest.ids) (content : Content) :
    (forest.assemble above content attributes children).link? id = forest.link? id := by
  rw [link?, hawaits.tree?_assemble hid, link?]

theorem Awaits.attributes_assemble (hawaits : forest.Awaits above (attributes ++ children))
    (content : Content) :
    (forest.assemble above content attributes children).attributes above = attributes := by
  rw [Forest.attributes, hawaits.tree?_assemble_self]
  apply hawaits.wellFormed.rootIds_gather
  exact fun id hid => hawaits.mem_rootIds (List.mem_append_left _ hid)

theorem Awaits.children_assemble (hawaits : forest.Awaits above (attributes ++ children))
    (content : Content) :
    (forest.assemble above content attributes children).children above = children := by
  rw [Forest.children, hawaits.tree?_assemble_self]
  apply hawaits.wellFormed.rootIds_gather
  exact fun id hid => hawaits.mem_rootIds (List.mem_append_right _ hid)

/-- The links agree again: those that led to the node that was still to be made are
those of the nodes under it. -/
theorem Awaits.wellFormed_assemble (hawaits : forest.Awaits above (attributes ++ children))
    (content : Content) : (forest.assemble above content attributes children).WellFormed where
  nodup := hawaits.nodup_assemble content
  lt_next := by
    intro id hid
    rcases List.mem_cons.mp ((hawaits.ids_assemble_perm content).mem_iff.mp hid) with rfl | hold
    · exact hawaits.reserved
    · exact hawaits.wellFormed.lt_next id hold
  linked := by
    intro tree htree node hnode
    rcases List.mem_cons.mp ((hawaits.subtrees_assemble_perm content).mem_iff.mp htree) with
      rfl | hold
    · rw [Tree.below, ← Hedge.roots_append, ← gather_append] at hnode
      obtain ⟨tree, htree, rfl⟩ := Hedge.mem_roots_iff.mp hnode
      obtain ⟨hmem, hattached⟩ := mem_trees_gather.mp htree
      rw [← hawaits.wellFormed.link?_eq (Hedge.mem_labels_of_mem_roots
        (Hedge.mem_roots_iff.mpr ⟨tree, hmem, rfl⟩))]
      exact (hawaits.linked_iff tree.root.id).mpr hattached
    · exact hawaits.wellFormed.linked tree hold node hnode
  loose := by
    intro node hnode other hlink
    rw [assemble, Hedge.roots_append] at hnode
    rcases List.mem_append.mp hnode with hleft | hnew
    · obtain ⟨tree, htree, rfl⟩ := Hedge.mem_roots_iff.mp hleft
      rw [Hedge.trees_filterRoots, List.mem_filter, decide_eq_true_eq] at htree
      have hroot := Hedge.mem_roots_iff.mpr ⟨tree, htree.1, rfl⟩
      obtain ⟨hgone, hlt⟩ := hawaits.wellFormed.loose tree.root hroot other hlink
      refine ⟨?_, hlt⟩
      rw [(hawaits.ids_assemble_perm content).mem_iff, List.mem_cons, not_or]
      refine ⟨?_, hgone⟩
      -- A root that is left behind was not attached, so its link leads elsewhere.
      rintro rfl
      apply htree.2
      apply (hawaits.linked_iff tree.root.id).mp
      rw [hawaits.wellFormed.link?_eq (Hedge.mem_labels_of_mem_roots hroot), hlink]
    · obtain rfl : node = ⟨above, content, none⟩ := by simpa using hnew
      simp at hlink

theorem Awaits.keeps_assemble (hawaits : forest.Awaits above (attributes ++ children))
    (content : Content) :
    forest.Keeps (forest.assemble above content attributes children) := by
  intro id hid
  rw [bare?, hawaits.tree?_assemble hid, bare?]

/-- Seen from before the node above was reserved, assembling is growth like any other. -/
theorem Awaits.grows_assemble (hawaits : forest.Awaits above (attributes ++ children))
    (hgrows : before.Grows forest) (hnext : before.next ≤ above) (content : Content) :
    before.Grows (forest.assemble above content attributes children) where
  keeps := hgrows.keeps.trans (hawaits.keeps_assemble content)
  next_le := hgrows.next_le
  old id hid hlt := by
    rcases List.mem_cons.mp ((hawaits.ids_assemble_perm content).mem_iff.mp hid) with rfl | hold
    · exact absurd hlt (Nat.not_lt_of_le hnext)
    · exact hgrows.old id hold hlt

/-! ## Building -/

/-- Nothing can have been linked to a node before it is reserved. -/
theorem WellFormed.awaits_reserve (hforest : forest.WellFormed) :
    forest.reserve.2.Awaits forest.next [] where
  wellFormed := hforest.reserve
  absent hid := Nat.lt_irrefl _ (hforest.lt_next _ hid)
  reserved := Nat.lt_succ_self _
  nodup := List.nodup_nil
  linked_iff id := by
    constructor
    · intro hlink
      obtain ⟨node, hnode, _, habove⟩ := exists_node_of_link? hlink
      exact absurd (hforest.link_lt_next hnode habove) (Nat.lt_irrefl _)
    · intro hid
      simp at hid

end XPathTree.Forest

namespace XPathTree.Builder

open Forest

variable {forest : Forest}

/-- The attributes of the node to be made, each in its place. -/
def attachedAttributes (builder : Builder) (forest : Forest) : List NodeId × Forest :=
  forest.reserve.2.attachAll forest.next builder.attributes

/-- The children of the node to be made, each in its place, after its attributes. -/
def attachedChildren (builder : Builder) (forest : Forest) : List NodeId × Forest :=
  (builder.attachedAttributes forest).2.attachAll forest.next builder.children

/-- All that is attached, in one run over the attributes and the children. -/
theorem attachAll_handed (builder : Builder) (forest : Forest) :
    forest.reserve.2.attachAll forest.next (builder.attributes ++ builder.children) =
      ((builder.attachedAttributes forest).1 ++ (builder.attachedChildren forest).1,
        (builder.attachedChildren forest).2) :=
  attachAll_append _ _ _ _

theorem build_eq (builder : Builder) (forest : Forest) :
    builder.build forest = (forest.next,
      (builder.attachedChildren forest).2.assemble forest.next builder.container.content
        (builder.attachedAttributes forest).1 (builder.attachedChildren forest).1) := rfl

theorem awaits_attached (builder : Builder) (hforest : forest.WellFormed) :
    (builder.attachedChildren forest).2.Awaits forest.next
      ((builder.attachedAttributes forest).1 ++ (builder.attachedChildren forest).1) := by
  have hawaits := hforest.awaits_reserve.attachAll (builder.attributes ++ builder.children)
  rwa [attachAll_handed, List.nil_append] at hawaits

theorem grows_attached (builder : Builder) (forest : Forest) :
    forest.Grows (builder.attachedChildren forest).2 := by
  have hgrows := grows_attachAll forest.reserve.2 forest.next
    (builder.attributes ++ builder.children)
  rw [attachAll_handed] at hgrows
  exact (grows_reserve forest).trans hgrows

theorem wellFormed_build (builder : Builder) (hforest : forest.WellFormed) :
    (builder.build forest).2.WellFormed :=
  (builder.awaits_attached hforest).wellFormed_assemble _

/-- Building changes nothing of what is there but links that were never made. -/
theorem grows_build (builder : Builder) (hforest : forest.WellFormed) :
    forest.Grows (builder.build forest).2 :=
  (builder.awaits_attached hforest).grows_assemble (builder.grows_attached forest)
    (Nat.le_refl _) _

end XPathTree.Builder

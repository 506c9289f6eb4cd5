import XPathTree.Proofs.Forest.Reading

/-! # Links and copies of a hedge

In a hedge that is linked, every node below another has its link to that one. A copy
is linked whatever the links of what it was made of. It holds the same contents under
identities that follow each other, and the links of its roots are still to be made.
-/

namespace XPathTree.Hedge

/-- Whether the links below the roots lead to the nodes directly above. -/
def Linked (hedge : Hedge Node) : Prop :=
  ∀ tree ∈ hedge.subtrees, ∀ node ∈ tree.below, node.link = some tree.root.id

@[simp] theorem linked_nil : (nil : Hedge Node).Linked := by
  intro tree htree
  simp at htree

@[simp] theorem linked_cons {root : Node} {attributes children rest : Hedge Node} :
    (cons root attributes children rest).Linked ↔
      (∀ node ∈ attributes.roots ++ children.roots, node.link = some root.id) ∧
        attributes.Linked ∧ children.Linked ∧ rest.Linked := by
  simp only [Linked, subtrees, List.forall_mem_cons, List.forall_mem_append, Tree.below, and_assoc]

@[simp] theorem linked_append {first second : Hedge Node} :
    (first ++ second).Linked ↔ first.Linked ∧ second.Linked := by
  simp only [Linked, subtrees_append, List.forall_mem_append]

theorem mem_roots_or_below {hedge : Hedge Node} {node : Node} (hnode : node ∈ hedge.labels) :
    node ∈ hedge.roots ∨ ∃ tree ∈ hedge.subtrees, node ∈ tree.below := by
  simpa using hedge.labels_perm.mem_iff.mp hnode

/-! ## Making the links of the roots -/

theorem roots_linkRoots (above : NodeId) (hedge : Hedge Node) :
    (hedge.linkRoots above).roots = hedge.roots.map (Node.linkTo above) := by
  induction hedge with
  | nil => rfl
  | cons root attributes children rest _ _ ih => simp [linkRoots, ih]

@[simp] theorem ids_linkRoots (above : NodeId) (hedge : Hedge Node) :
    (hedge.linkRoots above).ids = hedge.ids := by
  induction hedge with
  | nil => rfl
  | cons root attributes children rest _ _ ih => simp [linkRoots, ih, Node.linkTo]

theorem linked_linkRoots (above : NodeId) {hedge : Hedge Node} (hlinked : hedge.Linked) :
    (hedge.linkRoots above).Linked := by
  induction hedge with
  | nil => exact hlinked
  | cons root attributes children rest _ _ ih =>
      obtain ⟨hbelow, hattributes, hchildren, hrest⟩ := linked_cons.mp hlinked
      exact linked_cons.mpr ⟨hbelow, hattributes, hchildren, ih hrest⟩

@[simp] theorem map_content_linkRoots (above : NodeId) (hedge : Hedge Node) :
    (hedge.linkRoots above).map (·.content) = hedge.map (·.content) := by
  induction hedge with
  | nil => rfl
  | cons root attributes children rest _ _ ih => simp [linkRoots, map, ih, Node.linkTo]

theorem linkRoots_append (above : NodeId) (first second : Hedge Node) :
    (first ++ second).linkRoots above = first.linkRoots above ++ second.linkRoots above := by
  induction first with
  | nil => rfl
  | cons root attributes children rest _ _ ih => simp [linkRoots, ih]

@[simp] theorem rootIds_linkRoots (above : NodeId) (hedge : Hedge Node) :
    (hedge.linkRoots above).rootIds = hedge.rootIds := by
  rw [rootIds, roots_linkRoots, List.map_map, rootIds]
  rfl

/-! ## Copying -/

/-- The copy of two rows is numbered through. -/
theorem copy_append (next : NodeId) (first second : Hedge Node) :
    (first ++ second).copy next = first.copy next ++ second.copy (next + first.size) := by
  induction first generalizing next with
  | nil => rfl
  | cons root attributes children rest _ _ ih =>
      have hnext : next + (cons root attributes children rest).size =
          next + 1 + attributes.size + children.size + rest.size := by
        simp only [size, Nat.add_assoc]
      rw [cons_append, copy, ih, copy, cons_append, hnext]

/-- A copy is numbered without a gap. -/
theorem ids_copy (next : NodeId) (hedge : Hedge Node) :
    (hedge.copy next).ids = List.range' next hedge.size := by
  induction hedge generalizing next with
  | nil => rfl
  | cons root attributes children rest ihattributes ihchildren ihrest =>
      have hsize : (cons root attributes children rest).size =
          attributes.size + children.size + rest.size + 1 := by
        simp only [size]
        omega
      rw [copy, ids_cons, ids_linkRoots, ids_linkRoots, ihattributes, ihchildren, ihrest,
        List.range'_append_1, Nat.add_assoc (next + 1), List.range'_append_1, hsize,
        List.range'_succ]

theorem length_ids_copy (next : NodeId) (hedge : Hedge Node) :
    (hedge.copy next).ids.length = hedge.ids.length := by
  rw [ids_copy, List.length_range', ids, List.length_map, length_labels]

theorem roots_copy (next : NodeId) (hedge : Hedge Node) :
    ∀ node ∈ (hedge.copy next).roots, node.link = none := by
  induction hedge generalizing next with
  | nil => simp [copy]
  | cons root attributes children rest _ _ ih =>
      intro node hnode
      rcases List.mem_cons.mp hnode with rfl | hnode
      · rfl
      · exact ih _ node hnode

/-- Below its roots a copy has every link made, each to the copy of the node above. -/
theorem linked_copy (next : NodeId) (hedge : Hedge Node) : (hedge.copy next).Linked := by
  induction hedge generalizing next with
  | nil => exact linked_nil
  | cons root attributes children rest ihattributes ihchildren ihrest =>
      refine linked_cons.mpr ⟨?_, linked_linkRoots _ (ihattributes _),
        linked_linkRoots _ (ihchildren _), ihrest _⟩
      intro node hnode
      rw [roots_linkRoots, roots_linkRoots, ← List.map_append] at hnode
      obtain ⟨copied, _, rfl⟩ := List.mem_map.mp hnode
      rfl

theorem map_content_copy (next : NodeId) (hedge : Hedge Node) :
    (hedge.copy next).map (·.content) = hedge.map (·.content) := by
  induction hedge generalizing next with
  | nil => rfl
  | cons root attributes children rest ihattributes ihchildren ihrest =>
      simp [copy, map, ihattributes, ihchildren, ihrest]

theorem copy_toHedge (next : NodeId) (tree : Tree Node) :
    ∃ copied : Tree Node, tree.toHedge.copy next = copied.toHedge ∧ copied.root.id = next ∧
      copied.root.link = none ∧ copied.contents = tree.contents ∧
      copied.toHedge.ids = List.range' next tree.toHedge.size := by
  refine ⟨⟨⟨next, tree.root.content, none⟩, (tree.attributes.copy (next + 1)).linkRoots next,
    (tree.children.copy (next + 1 + tree.attributes.size)).linkRoots next⟩, rfl, rfl, rfl, ?_, ?_⟩
  · simp [Tree.contents, Tree.map, map_content_copy]
  · exact ids_copy next tree.toHedge

end XPathTree.Hedge

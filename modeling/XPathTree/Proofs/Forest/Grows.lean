import XPathTree.Proofs.Forest.WellFormed

/-! # Growing forests

Making a node, a link or a copy leaves every node that was there with its content and
with what is below it, and it numbers the new nodes after the old ones. So a parent
that is gone stays gone, however a forest grows.
-/

namespace XPathTree.Forest

variable {forest before middle after : Forest} {id above : NodeId}

/-- How a forest changes while nodes are made: what was there is kept, and whatever
is added is numbered after it. -/
structure Grows (before after : Forest) : Prop where
  keeps : before.Keeps after
  next_le : before.next ≤ after.next
  old : ∀ id ∈ after.ids, id < before.next → id ∈ before.ids

theorem Grows.refl (forest : Forest) : forest.Grows forest :=
  ⟨.refl forest, Nat.le_refl _, fun _ hid _ => hid⟩

theorem Grows.trans (hfirst : before.Grows middle) (hsecond : middle.Grows after) :
    before.Grows after where
  keeps := hfirst.keeps.trans hsecond.keeps
  next_le := Nat.le_trans hfirst.next_le hsecond.next_le
  old id hid hlt :=
    hfirst.old id (hsecond.old id hid (Nat.lt_of_lt_of_le hlt hfirst.next_le)) hlt

theorem grows_reserve (forest : Forest) : forest.Grows forest.reserve.2 where
  keeps _ _ := rfl
  next_le := Nat.le_succ _
  old _ hid _ := hid

/-- A parent that was there is still there, and one that is gone does not come back. -/
theorem Grows.parent?_eq (hgrows : before.Grows after) (hbefore : before.WellFormed)
    (hlink : after.link? id = before.link? id) : after.parent? id = before.parent? id := by
  rw [parent?, parent?, hlink]
  cases habove : before.link? id with
  | none => rfl
  | some above =>
      have hlt := hbefore.link?_lt_next habove
      have hiff : above ∈ after.ids ↔ above ∈ before.ids :=
        ⟨fun hmem => hgrows.old above hmem hlt, hgrows.keeps.mem_ids⟩
      simp only [Option.filter_some, hiff]

/-! ## Making one link -/

theorem tree?_link (forest : Forest) (above id other : NodeId) :
    (forest.link above id).tree? other = (forest.tree? other).map
      (Tree.map fun node => if node.id = id then node.linkTo above else node) := by
  rw [tree?, link, Hedge.find?, Hedge.subtrees_map, List.find?_map]
  apply congrArg (Option.map _)
  apply congrArg (List.find? · _)
  funext tree
  simp only [Function.comp_apply, Tree.map]
  split <;> rfl

theorem grows_link (forest : Forest) (above id : NodeId) :
    forest.Grows (forest.link above id) where
  keeps other _ := by
    rw [bare?, tree?_link, Option.map_map, bare?]
    apply congrArg (Option.map · _)
    funext tree
    have hbare : ∀ node : Node,
        (if node.id = id then node.linkTo above else node).bare = node.bare := by
      intro node
      split <;> rfl
    simp [Tree.map, Hedge.map_map, hbare]
  next_le := Nat.le_refl _
  old other hother _ := by rwa [ids_link] at hother

theorem link?_link (hid : id ∈ forest.ids) (other : NodeId) :
    (forest.link above id).link? other = if other = id then some above else forest.link? other := by
  rw [link?, tree?_link, link?]
  cases htree : forest.tree? other with
  | none =>
      have hne : other ≠ id := by
        rintro rfl
        exact tree?_eq_none_iff.mp htree hid
      simp [hne]
  | some tree =>
      obtain ⟨_, rfl⟩ := mem_subtrees_of_tree? htree
      simp only [Option.map_some, Option.bind_some, Tree.map]
      split <;> rfl

/-! ## Making one copy -/

theorem tree?_copy (forest : Forest) (tree : Tree Node) (id : NodeId) :
    (forest.copy tree).2.tree? id =
      (forest.tree? id).or ((tree.toHedge.copy forest.next).find? (·.id == id)) := by
  rw [tree?, copy, Hedge.find?, Hedge.subtrees_append, List.find?_append]
  rfl

theorem tree?_copy_of_mem (hid : id ∈ forest.ids) (tree : Tree Node) :
    (forest.copy tree).2.tree? id = forest.tree? id := by
  obtain ⟨found, hfound⟩ := mem_ids_iff.mp hid
  rw [tree?_copy, hfound, Option.some_or]

/-- A copy leaves the links of the other nodes as they are. -/
theorem link?_copy (tree : Tree Node) (hid : id ∈ forest.ids) :
    (forest.copy tree).2.link? id = forest.link? id := by
  rw [link?, tree?_copy_of_mem hid, link?]

theorem ids_copy (forest : Forest) (tree : Tree Node) :
    (forest.copy tree).2.ids =
      forest.ids ++ List.range' forest.next tree.toHedge.size := by
  rw [ids, copy, Hedge.ids_append, Hedge.ids_copy]
  rfl

theorem grows_copy (forest : Forest) (tree : Tree Node) : forest.Grows (forest.copy tree).2 where
  keeps id hid := by rw [bare?, tree?_copy_of_mem hid, bare?]
  next_le := Nat.le_add_right _ _
  old id hid hlt := by
    rw [ids_copy] at hid
    rcases List.mem_append.mp hid with hold | hnew
    · exact hold
    · exact absurd hlt (Nat.not_lt_of_le (List.mem_range'_1.mp hnew).1)

/-- The copy is a tree of new nodes with the same contents, linked to nothing. -/
theorem tree?_copy_next (hforest : forest.WellFormed) (tree : Tree Node) :
    ∃ copied, (forest.copy tree).2.tree? forest.next = some copied ∧ copied.root.link = none ∧
      copied.contents = tree.contents ∧
      copied.toHedge.ids = List.range' forest.next tree.toHedge.size := by
  obtain ⟨copied, hcopy, hid, hlink, hcontents, hids⟩ := Hedge.copy_toHedge forest.next tree
  refine ⟨copied, ?_, hlink, hcontents, hids⟩
  have habsent : forest.next ∉ forest.ids :=
    fun hmem => Nat.lt_irrefl _ (hforest.lt_next _ hmem)
  rw [tree?_copy, tree?_eq_none_iff.mpr habsent, Option.none_or, hcopy]
  simp [Hedge.find?, Tree.toHedge, Hedge.subtrees, hid]

theorem next_mem_ids_copy (hforest : forest.WellFormed) (tree : Tree Node) :
    forest.next ∈ (forest.copy tree).2.ids := by
  obtain ⟨copied, hcopied, _⟩ := tree?_copy_next hforest tree
  exact mem_ids_iff.mpr ⟨copied, hcopied⟩

/-- The link of a copy is still to be made. -/
theorem link?_copy_next (hforest : forest.WellFormed) (tree : Tree Node) :
    (forest.copy tree).2.link? forest.next = none := by
  obtain ⟨copied, hcopied, hunlinked, _⟩ := tree?_copy_next hforest tree
  rw [link?, hcopied, Option.bind_some, hunlinked]

/-! ## Making one node -/

/-- A new node is a copy of a tree that is nothing but that node. -/
theorem sow_eq_copy (forest : Forest) (content : Content) :
    forest.sow content = forest.copy ⟨⟨forest.next, content, none⟩, .nil, .nil⟩ := rfl

theorem grows_sow (forest : Forest) (content : Content) :
    forest.Grows (forest.sow content).2 := by
  rw [sow_eq_copy]
  exact grows_copy forest _

theorem contents?_sow (hforest : forest.WellFormed) (content : Content) :
    (forest.sow content).2.contents? forest.next = some ⟨content, .nil, .nil⟩ := by
  obtain ⟨made, hmade, _, hcontents, _⟩ :=
    tree?_copy_next hforest ⟨⟨forest.next, content, none⟩, .nil, .nil⟩
  rw [sow_eq_copy, contents?, hmade, Option.map_some, hcontents]
  rfl

end XPathTree.Forest

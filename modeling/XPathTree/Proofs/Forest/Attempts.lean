import XPathTree.Proofs.Forest.Assemble

/-! # Attaching attempt by attempt

Attaching is told here in its smallest steps. A link can be made once, so to make it is an
attempt, which is refused if the link was made before. Then the node is copied, and the copy is
attached in the same way: by another attempt, which might be refused again, and by a copy of the
copy. Inside a copy every node is attached to the copy above it like this.

Nothing in these steps says that they come to an end, so they are followed to a given depth of
recursion. A depth of a little more than twice the number of nodes in the tree is always enough,
and then all steps at once do what `Forest.attach` and `Forest.copy` do.
-/

namespace XPathTree

/-- What happens while a node is attached. -/
inductive AttachEvent
  /-- A node is begun as the copy of another. -/
  | begun (source copy : NodeId)
  /-- The link of a node is made. -/
  | linked (id above : NodeId)
  /-- The link of a node is not made, because it was made before. -/
  | refused (id above : NodeId)
deriving DecidableEq, Repr

namespace Forest

mutual

/-- Attempts to make the link of a node, and after a refusal attaches a copy of the node. There
is no result if that goes deeper than `depth`. -/
def tryAttach (forest : Forest) (depth : Nat) (above id : NodeId) :
    Option (List AttachEvent × NodeId × Forest) :=
  match depth with
  | 0 => none
  | depth + 1 =>
      match forest.link? id with
      | none => some ([.linked id above], id, forest.link above id)
      | some _ => do
          let (copying, copy, forest) ← forest.tryCopy depth id
          -- Nothing is taken for granted of the copy, which may be refused in its turn.
          let (attaching, attached, forest) ← forest.tryAttach depth above copy
          return (.refused id above :: (copying ++ attaching), attached, forest)

/-- Makes a node with the content of another, over copies of what is below that. -/
def tryCopy (forest : Forest) (depth : Nat) (id : NodeId) :
    Option (List AttachEvent × NodeId × Forest) :=
  match depth with
  | 0 => none
  | depth + 1 => do
      let content ← forest.content? id
      let (copy, forest) := forest.reserve
      let (first, attributes, forest) ← forest.tryCopyAll depth copy (forest.attributes id)
      let (second, children, forest) ← forest.tryCopyAll depth copy (forest.children id)
      return (.begun id copy :: (first ++ second), copy,
        forest.assemble copy content attributes children)

/-- Copies nodes one after another, and attaches each copy before the next one is made. -/
def tryCopyAll (forest : Forest) (depth : Nat) (above : NodeId) (handed : List NodeId) :
    Option (List AttachEvent × List NodeId × Forest) :=
  match depth, handed with
  | 0, _ => none
  | _ + 1, [] => some ([], [], forest)
  | depth + 1, id :: ids => do
      let (copying, copy, forest) ← forest.tryCopy depth id
      let (attaching, attached, forest) ← forest.tryAttach depth above copy
      let (rest, others, forest) ← forest.tryCopyAll depth above ids
      return (copying ++ attaching ++ rest, attached :: others, forest)

end

end Forest

namespace Hedge

/-- What happens while a row is copied, numbered from `next`, and each copy is attached. -/
def copyEvents (above next : NodeId) : Hedge Node → List AttachEvent
  | nil => []
  | cons root attributes children rest =>
      .begun root.id next ::
        (attributes.copyEvents next (next + 1) ++
          children.copyEvents next (next + 1 + attributes.size)) ++
        [.linked next above] ++
        rest.copyEvents above (next + 1 + attributes.size + children.size)

end Hedge

/-- What happens while a tree is copied, up to the attempt to link the copy. -/
def Tree.copyEvents (next : NodeId) (tree : Tree Node) : List AttachEvent :=
  .begun tree.root.id next ::
    (tree.attributes.copyEvents next (next + 1) ++
      tree.children.copyEvents next (next + 1 + tree.attributes.size))

theorem Tree.size_toHedge (tree : Tree Node) :
    tree.toHedge.size = 1 + tree.attributes.size + tree.children.size := rfl

/-- What is copied after a tree is numbered after the root and all that is below it. -/
theorem Tree.next_add_size (next : NodeId) (tree : Tree Node) :
    next + tree.toHedge.size = next + 1 + tree.attributes.size + tree.children.size := by
  rw [size_toHedge, Nat.add_assoc, Nat.add_assoc, Nat.add_assoc]

namespace Hedge

variable (root : Node) (attributes children rest : Hedge Node)

/-- A row is its first tree and then the others. -/
theorem cons_eq_append :
    cons root attributes children rest = Tree.toHedge ⟨root, attributes, children⟩ ++ rest := rfl

theorem rootIds_copy_cons (next : NodeId) :
    ((cons root attributes children rest).copy next).rootIds =
      next :: (rest.copy (next + (Tree.toHedge ⟨root, attributes, children⟩).size)).rootIds := by
  rw [cons_eq_append, copy_append, rootIds_append]
  rfl

theorem copyEvents_cons (above next : NodeId) :
    (cons root attributes children rest).copyEvents above next =
      Tree.copyEvents next ⟨root, attributes, children⟩ ++ [.linked next above] ++
        rest.copyEvents above (next + (Tree.toHedge ⟨root, attributes, children⟩).size) := by
  rw [Tree.next_add_size]
  rfl

end Hedge

namespace Forest

variable {forest : Forest} {above id : NodeId} {attached : List NodeId} {tree : Tree Node}

/-! ## Copies of a row -/

/-- The forest with a copy of a row beside its trees. The roots of the copy are linked. -/
def copyRow (forest : Forest) (above : NodeId) (row : Hedge Node) : Forest where
  trees := forest.trees ++ (row.copy forest.next).linkRoots above
  next := forest.next + row.size

@[simp] theorem copyRow_nil (forest : Forest) (above : NodeId) :
    forest.copyRow above .nil = forest := by
  rw [copyRow, Hedge.copy, Hedge.linkRoots, Hedge.append_nil]
  rfl

/-- One copy comes after the other. -/
theorem copyRow_append (forest : Forest) (above : NodeId) (first second : Hedge Node) :
    forest.copyRow above (first ++ second) =
      (forest.copyRow above first).copyRow above second := by
  simp only [copyRow, Hedge.copy_append, Hedge.linkRoots_append, Hedge.append_assoc,
    Hedge.size_append, Nat.add_assoc]

theorem tree?_copyRow (htree : forest.tree? id = some tree) (above : NodeId)
    (row : Hedge Node) : (forest.copyRow above row).tree? id = some tree := by
  have hsearch : (forest.copyRow above row).tree? id = (forest.tree? id).or
      (((row.copy forest.next).linkRoots above).find? (·.id == id)) := by
    rw [tree?, copyRow, Hedge.find?, Hedge.subtrees_append, List.find?_append]
    rfl
  rw [hsearch, htree, Option.some_or]

/-- A copy of one tree is linked by making the link of its root, which is new. -/
theorem WellFormed.link_copy (hforest : forest.WellFormed) (above : NodeId) (tree : Tree Node) :
    (forest.copy tree).2.link above forest.next = forest.copyRow above tree.toHedge := by
  let linkNew (node : Node) : Node := if node.id = forest.next then node.linkTo above else node
  have hold : forest.trees.map linkNew = forest.trees := by
    apply Hedge.map_eq_self
    intro node hnode
    exact if_neg (Nat.ne_of_lt (hforest.lt_next _ (Hedge.mem_ids_of_mem_labels hnode)))
  -- Below the root of the copy all has a number of its own and is linked already.
  have hbelow : ∀ (next : NodeId) (row : Hedge Node), forest.next < next →
      ((row.copy next).linkRoots forest.next).map linkNew =
        (row.copy next).linkRoots forest.next := by
    intro next row hlt
    apply Hedge.map_eq_self
    intro node hnode
    have hid := Hedge.mem_ids_of_mem_labels hnode
    rw [Hedge.ids_linkRoots, Hedge.ids_copy, List.mem_range'_1] at hid
    exact if_neg (Nat.ne_of_gt (Nat.lt_of_lt_of_le hlt hid.1))
  have hcopied : (tree.toHedge.copy forest.next).map linkNew =
      (tree.toHedge.copy forest.next).linkRoots above := by
    have hroot : linkNew ⟨forest.next, tree.root.content, none⟩ =
        Node.linkTo above ⟨forest.next, tree.root.content, none⟩ := if_pos rfl
    rw [Tree.toHedge, Hedge.copy, Hedge.map, hbelow _ _ (Nat.lt_succ_self _),
      hbelow _ _ (Nat.lt_add_right _ (Nat.lt_succ_self _)), hroot]
    rfl
  rw [Forest.link, Forest.copy, copyRow, Hedge.map_append]
  exact congrArg₂ (fun first second => Forest.mk (first ++ second) _) hold hcopied

/-- What waits for a node still waits for it when the roots of a copied row have joined. -/
theorem Awaits.copyRow (hawaits : forest.Awaits above attached) (row : Hedge Node) :
    (forest.copyRow above row).Awaits above (attached ++ (row.copy forest.next).rootIds) := by
  induction row generalizing forest attached with
  | nil =>
      rw [copyRow_nil, Hedge.copy, Hedge.rootIds, Hedge.roots_nil, List.map_nil, List.append_nil]
      exact hawaits
  | cons root attributes children rest _ _ ih =>
      let tree : Tree Node := ⟨root, attributes, children⟩
      have hwell := hawaits.wellFormed
      have hone := (hawaits.copy tree).link (next_mem_ids_copy hwell tree)
        (link?_copy_next hwell tree)
      rw [hwell.link_copy] at hone
      have hall := ih hone
      rw [← copyRow_append, List.append_assoc] at hall
      rw [Hedge.rootIds_copy_cons]
      exact hall

/-- A node that is made over a copied row of attributes and one of children is the root of a
copied tree. -/
theorem WellFormed.assemble_copyRow (hforest : forest.WellFormed) (tree : Tree Node) :
    ((forest.reserve.2.copyRow forest.next tree.attributes).copyRow forest.next
      tree.children).assemble forest.next tree.root.content
        (tree.attributes.copy forest.reserve.2.next).rootIds
        (tree.children.copy (forest.reserve.2.copyRow forest.next tree.attributes).next).rootIds =
      (forest.copy tree).2 := by
  have hrows := (hforest.awaits_reserve.copyRow tree.attributes).copyRow tree.children
  have hlinked : ∀ (next : NodeId) (row : Hedge Node),
      (row.copy next).rootIds = ((row.copy next).linkRoots forest.next).rootIds :=
    fun next row => (Hedge.rootIds_linkRoots forest.next (row.copy next)).symm
  rw [hlinked, hlinked, assemble_of_append hrows.wellFormed.nodup_rootIds rfl]
  exact congrArg (Forest.mk _) (tree.next_add_size forest.next).symm

/-! ## The run of a copy -/

theorem tryAttach_of_unlinked (hlink : forest.link? id = none) (depth : Nat) (above : NodeId) :
    forest.tryAttach (depth + 1) above id =
      some ([.linked id above], id, forest.link above id) := by
  rw [tryAttach, hlink]

/-- Whether a row whose nodes are there is copied to the end, wherever it is to stand, if the
depth is beyond twice its size. -/
def CopiesRow (row : Hedge Node) : Prop :=
  ∀ {forest : Forest} {depth : Nat} {above : NodeId} {attached : List NodeId},
    forest.Awaits above attached →
    (∀ tree ∈ row.subtrees, forest.tree? tree.root.id = some tree) → 2 * row.size < depth →
      forest.tryCopyAll depth above row.rootIds =
        some (row.copyEvents above forest.next, (row.copy forest.next).rootIds,
          forest.copyRow above row)

/-- A tree is copied if the rows below its root are. -/
theorem tryCopy_of_copiesRow (hforest : forest.WellFormed) (htree : forest.tree? id = some tree)
    (hattributes : CopiesRow tree.attributes) (hchildren : CopiesRow tree.children)
    {depth : Nat} (hdepth : 2 * tree.toHedge.size ≤ depth) :
    forest.tryCopy depth id = some (tree.copyEvents forest.next, forest.copy tree) := by
  obtain ⟨hmem, rfl⟩ := mem_subtrees_of_tree? htree
  obtain ⟨depth, rfl, hfirstDepth, hsecondDepth⟩ : ∃ below, depth = below + 1 ∧
      2 * tree.attributes.size < below ∧ 2 * tree.children.size < below := by
    have hsize := tree.size_toHedge
    exact ⟨depth - 1, by omega, by omega, by omega⟩
  have hreserve := hforest.awaits_reserve
  have hreserved : forest.reserve.1 = forest.next := rfl
  have hheld : ∀ inner, inner ∈ tree.attributes.subtrees ∨ inner ∈ tree.children.subtrees →
      forest.reserve.2.tree? inner.root.id = some inner :=
    fun inner hinner => tree?_of_mem hforest.nodup (Hedge.mem_subtrees_of_below hmem hinner)
  have hfirst := hattributes hreserve (fun inner hinner => hheld inner (Or.inl hinner))
    hfirstDepth
  have hsecond := hchildren (hreserve.copyRow tree.attributes)
    (fun inner hinner => tree?_copyRow (hheld inner (Or.inr hinner)) _ _) hsecondDepth
  have hfound : forest.reserve.2.tree? tree.root.id = some tree := htree
  have hcontent : forest.content? tree.root.id = some tree.root.content := by
    rw [content?, htree, Option.map_some]
  have hattributeIds : forest.reserve.2.attributes tree.root.id = tree.attributes.rootIds := by
    rw [attributes, hfound]
    rfl
  have hchildIds : (forest.reserve.2.copyRow forest.next tree.attributes).children tree.root.id =
      tree.children.rootIds := by
    rw [children, tree?_copyRow hfound]
    rfl
  rw [tryCopy, hcontent]
  simp only [Option.bind_eq_bind, Option.bind_some, hreserved, hattributeIds, hfirst, hchildIds,
    hsecond, hforest.assemble_copyRow]
  rfl

/-- Every row is copied in the end. No attempt to link a copy is refused, so nothing is copied
twice. -/
theorem copiesRow (row : Hedge Node) : CopiesRow row := by
  induction row with
  | nil =>
      intro forest depth above attached _ _ hdepth
      obtain ⟨depth, rfl⟩ := Nat.exists_eq_add_one_of_ne_zero (Nat.ne_zero_of_lt hdepth)
      rw [copyRow_nil]
      exact tryCopyAll.eq_2 forest above depth
  | cons root attributes children rest ihattributes ihchildren ihrest =>
      intro forest depth above attached hawaits hheld hdepth
      let tree : Tree Node := ⟨root, attributes, children⟩
      have hwell := hawaits.wellFormed
      rw [Hedge.cons_eq_append, Hedge.subtrees_append, List.forall_mem_append] at hheld
      obtain ⟨htree, hothers⟩ := hheld
      obtain ⟨depth, rfl, htreeDepth, hrestDepth⟩ : ∃ below, depth = below + 2 ∧
          2 * tree.toHedge.size ≤ below + 1 ∧ 2 * rest.size < below + 1 := by
        have hsize : tree.toHedge.size = 1 + attributes.size + children.size := tree.size_toHedge
        rw [Hedge.size] at hdepth
        exact ⟨depth - 2, by omega, by omega, by omega⟩
      have hcopy : forest.tryCopy (depth + 1) root.id =
          some (tree.copyEvents forest.next, forest.copy tree) :=
        tryCopy_of_copiesRow hwell (htree tree List.mem_cons_self) ihattributes ihchildren
          htreeDepth
      -- The copy is new and its link is still to be made, so the recursion ends here.
      have hattach := tryAttach_of_unlinked (link?_copy_next hwell tree) depth above
      rw [hwell.link_copy] at hattach
      have hrest := ihrest (hawaits.copyRow tree.toHedge)
        (fun inner hinner => tree?_copyRow (hothers inner hinner) _ _) hrestDepth
      have hids : (Hedge.cons root attributes children rest).rootIds = root.id :: rest.rootIds :=
        rfl
      have hcopied : (forest.copy tree).1 = forest.next := rfl
      rw [hids, tryCopyAll.eq_3, hcopy]
      simp only [Option.bind_eq_bind, Option.bind_some, hcopied, hattach, hrest,
        ← copyRow_append]
      rw [Hedge.copyEvents_cons, Hedge.rootIds_copy_cons]
      rfl

/-- There are as many nodes in a tree as its size says. -/
theorem length_idsWithin (htree : forest.tree? id = some tree) :
    (forest.idsWithin id).length = tree.toHedge.size := by
  rw [idsWithin_of_tree? htree, Hedge.ids, List.length_map, Hedge.length_labels]

namespace WellFormed

variable (hforest : forest.WellFormed)

include hforest

/-- Copying comes to an end, and it makes the copy of the tree. -/
theorem tryCopy_eq (htree : forest.tree? id = some tree) {depth : Nat}
    (hdepth : 2 * (forest.idsWithin id).length ≤ depth) :
    forest.tryCopy depth id = some (tree.copyEvents forest.next, forest.copy tree) := by
  rw [length_idsWithin htree] at hdepth
  exact tryCopy_of_copiesRow hforest htree (copiesRow _) (copiesRow _) hdepth

/-- After a refusal the copy is attached at the first attempt. -/
theorem tryAttach_of_linked (htree : forest.tree? id = some tree) (hlink : forest.link? id ≠ none)
    {depth : Nat} (hdepth : 2 * (forest.idsWithin id).length < depth) (above : NodeId) :
    forest.tryAttach depth above id =
      some (.refused id above :: (tree.copyEvents forest.next ++ [.linked forest.next above]),
        forest.next, (forest.copy tree).2.link above forest.next) := by
  obtain ⟨other, hother⟩ := Option.ne_none_iff_exists'.mp hlink
  obtain ⟨depth, rfl, hcopyDepth⟩ : ∃ below, depth = below + 2 ∧
      2 * (forest.idsWithin id).length ≤ below + 1 := by
    have hsize := tree.size_toHedge
    rw [length_idsWithin htree] at hdepth ⊢
    exact ⟨depth - 2, by omega, by omega⟩
  have hcopied : (forest.copy tree).1 = forest.next := rfl
  have hattach := tryAttach_of_unlinked (link?_copy_next hforest tree) depth above
  rw [tryAttach, hother]
  simp only [hforest.tryCopy_eq htree hcopyDepth, Option.bind_eq_bind, Option.bind_some, hcopied,
    hattach]
  rfl

/-- Attaching comes to an end, and what is attached is what `attach` says. -/
theorem exists_tryAttach (hid : id ∈ forest.ids) (above : NodeId) :
    ∃ events entry after,
      (∀ depth, 2 * (forest.idsWithin id).length < depth →
        forest.tryAttach depth above id = some (events, entry, after)) ∧
      forest.attach above id = (some entry, after) := by
  rcases forest.attach_cases above id with ⟨habsent, _⟩ | ⟨_, hlink, hattach⟩ |
    ⟨tree, htree, hlink, hattach⟩
  · exact absurd hid habsent
  · refine ⟨[.linked id above], _, _, fun depth hdepth => ?_, hattach⟩
    obtain ⟨depth, rfl⟩ := Nat.exists_eq_add_one_of_ne_zero (Nat.ne_zero_of_lt hdepth)
    exact tryAttach_of_unlinked hlink depth above
  · exact ⟨_, _, _, fun _ hdepth => hforest.tryAttach_of_linked htree hlink hdepth above,
      hattach⟩

end WellFormed

end Forest

end XPathTree

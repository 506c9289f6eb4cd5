import XPathTree.Forest.Host
import XPathTree.Proofs.Forest.Ancestry

/-! # Letting go

What is left of a forest when only some nodes are held: the nodes of their trees. Every
node that is left has the tree it had, so all that can be read below it stays; its parent
stays too if it is left, and is absent otherwise.
-/

namespace XPathTree.Forest

variable {forest : Forest} {held : List NodeId} {id above : NodeId}

theorem mem_idsWithin_iff : id ∈ forest.idsWithin above ↔
    ∃ tree, forest.tree? above = some tree ∧ id ∈ tree.toHedge.ids := by
  rw [idsWithin]
  cases forest.tree? above <;> simp

theorem self_mem_idsWithin (hid : id ∈ forest.ids) : id ∈ forest.idsWithin id := by
  obtain ⟨tree, htree⟩ := mem_ids_iff.mp hid
  refine mem_idsWithin_iff.mpr ⟨tree, htree, ?_⟩
  simp [Tree.toHedge, (mem_subtrees_of_tree? htree).2]

theorem mem_ids_of_mem_idsWithin (hid : id ∈ forest.idsWithin above) : id ∈ forest.ids := by
  obtain ⟨tree, htree, hwithin⟩ := mem_idsWithin_iff.mp hid
  obtain ⟨inner, hinner, rfl⟩ := Hedge.mem_ids_iff.mp hwithin
  have hpart := Hedge.sublist_of_mem_subtrees (mem_subtrees_of_tree? htree).1
  exact Hedge.mem_ids_iff.mpr ⟨inner, hpart.subset (Hedge.subtrees_toHedge tree ▸ hinner), rfl⟩

theorem ids_retain_sublist (forest : Forest) (held : List NodeId) :
    (forest.retain held).ids.Sublist forest.ids := (Hedge.labels_outermost _ forest.trees).map _

/-- The last node on the way up is the one at the top. -/
theorem top?_eq {chain : List NodeId} (hchain : ParentChain forest.parent? id chain) :
    forest.top? id = chain.getLast? := by
  rw [top?, hchain.climb_eq (hchain.length_le fun _ _ => forest.mem_ids_of_parent?)]

/-- A document owns what is no document and has it at the end of the way up. -/
theorem ownerDocument?_eq_some_iff {chain : List NodeId}
    (hchain : ParentChain forest.parent? id chain) {document : NodeId} :
    forest.ownerDocument? id = some document ↔
      ¬ forest.IsDocument id ∧ chain.getLast? = some document ∧ forest.IsDocument document := by
  rw [ownerDocument?, top?_eq hchain]
  split
  next hdocument => simp [hdocument]
  next hother => rw [Option.filter_eq_some_iff, decide_eq_true_iff, and_iff_right hother]

namespace WellFormed

theorem mem_idsWithin_of_below (hforest : forest.WellFormed) {inner : NodeId}
    (hid : id ∈ forest.idsWithin above) (hinner : inner ∈ forest.below id) :
    inner ∈ forest.idsWithin above := by
  obtain ⟨tree, htree, hwithin⟩ := mem_idsWithin_iff.mp hid
  obtain ⟨found, hfound, rfl⟩ := Hedge.mem_ids_iff.mp hwithin
  have hmem := (Hedge.sublist_of_mem_subtrees (mem_subtrees_of_tree? htree).1).subset
    (Hedge.subtrees_toHedge tree ▸ hfound)
  rw [below_of_tree? (tree?_of_mem hforest.nodup hmem)] at hinner
  obtain ⟨node, hnode, rfl⟩ := List.mem_map.mp hinner
  exact mem_idsWithin_iff.mpr ⟨tree, htree,
    Hedge.mem_ids_of_mem_labels (Hedge.mem_labels_of_below hfound hnode)⟩

/-- What is left are the nodes of the trees that are held. -/
theorem mem_ids_retain_iff (hforest : forest.WellFormed) :
    id ∈ (forest.retain held).ids ↔ ∃ owner ∈ held, id ∈ forest.idsWithin owner := by
  constructor
  · intro hid
    obtain ⟨node, hnode, rfl⟩ := List.mem_map.mp hid
    obtain ⟨tree, htree, hheld, hwithin⟩ := Hedge.mem_labels_outermost_iff.mp hnode
    exact ⟨tree.root.id, of_decide_eq_true hheld,
      mem_idsWithin_iff.mpr ⟨tree, tree?_of_mem hforest.nodup htree, List.mem_map_of_mem hwithin⟩⟩
  · rintro ⟨owner, howner, hid⟩
    obtain ⟨tree, hfound, hwithin⟩ := mem_idsWithin_iff.mp hid
    obtain ⟨htree, rfl⟩ := mem_subtrees_of_tree? hfound
    obtain ⟨node, hnode, rfl⟩ := List.mem_map.mp hwithin
    exact Hedge.mem_ids_of_mem_labels
      (Hedge.mem_labels_outermost_iff.mpr ⟨tree, htree, decide_eq_true howner, hnode⟩)

theorem mem_ids_retain_of_held (hforest : forest.WellFormed) (hheld : id ∈ held)
    (hid : id ∈ forest.ids) : id ∈ (forest.retain held).ids :=
  hforest.mem_ids_retain_iff.mpr ⟨id, hheld, self_mem_idsWithin hid⟩

theorem tree?_retain (hforest : forest.WellFormed) (hid : id ∈ (forest.retain held).ids) :
    (forest.retain held).tree? id = forest.tree? id := by
  obtain ⟨tree, htree⟩ := mem_ids_iff.mp hid
  obtain ⟨hmem, rfl⟩ := mem_subtrees_of_tree? htree
  rw [htree, tree?_of_mem hforest.nodup ((Hedge.subtrees_outermost _ _).subset hmem)]

/-- Letting go changes nothing of what can be read below a node that is left. -/
theorem keeps_retain (hforest : forest.WellFormed) (held : List NodeId) :
    (forest.retain held).Keeps forest := by
  intro id hid
  rw [bare?, bare?, hforest.tree?_retain hid]

/-- The link of a node that is left is the one it had. -/
theorem link?_retain (hforest : forest.WellFormed) (hid : id ∈ (forest.retain held).ids) :
    (forest.retain held).link? id = forest.link? id := by
  rw [link?, link?, hforest.tree?_retain hid]

/-- The parent of a node that is left is the one it had, if that is left as well. -/
theorem parent?_retain_iff (hforest : forest.WellFormed) (hid : id ∈ (forest.retain held).ids) :
    (forest.retain held).parent? id = some above ↔
      forest.parent? id = some above ∧ above ∈ (forest.retain held).ids := by
  rw [parent?_iff_linked, parent?_iff_linked, hforest.link?_retain hid]
  constructor
  · rintro ⟨hlink, habove⟩
    exact ⟨⟨hlink, (forest.ids_retain_sublist held).subset habove⟩, habove⟩
  · rintro ⟨⟨hlink, _⟩, habove⟩
    exact ⟨hlink, habove⟩

theorem parent?_retain_of_none (hforest : forest.WellFormed)
    (hid : id ∈ (forest.retain held).ids) (hnone : forest.parent? id = none) :
    (forest.retain held).parent? id = none := by
  rw [Option.eq_none_iff_forall_ne_some]
  intro above hparent
  rw [((hforest.parent?_retain_iff hid).mp hparent).1] at hnone
  cases hnone

/-- With a node what is listed under it is left. -/
theorem mem_ids_retain_of_parent? (hforest : forest.WellFormed)
    (habove : above ∈ (forest.retain held).ids) (hparent : forest.parent? id = some above) :
    id ∈ (forest.retain held).ids := by
  have hbelow := hforest.parent?_eq_some_iff.mp hparent
  have hkeeps := hforest.keeps_retain held
  rw [below, hkeeps.attributes_eq habove, hkeeps.children_eq habove] at hbelow
  exact (hforest.retain held).mem_ids_of_mem_below hbelow

/-- A way up to a node that is left stays, with all nodes on it. -/
theorem isChain_retain (hforest : forest.WellFormed) {way : List NodeId}
    (hway : way.IsChain fun node above => forest.parent? node = some above)
    (hlast : ∀ last ∈ way.getLast?, last ∈ (forest.retain held).ids) :
    (∀ node ∈ way, node ∈ (forest.retain held).ids) ∧
      way.IsChain fun node above => (forest.retain held).parent? node = some above := by
  induction way with
  | nil => simp
  | cons node way ih =>
      cases way with
      | nil => simpa using hlast
      | cons above way =>
          obtain ⟨hparent, hway⟩ := List.isChain_cons_cons.mp hway
          obtain ⟨hleft, hkept⟩ := ih hway (by simpa using hlast)
          have habove := hleft above List.mem_cons_self
          have hnode := hforest.mem_ids_retain_of_parent? habove hparent
          exact ⟨List.forall_mem_cons.mpr ⟨hnode, hleft⟩,
            List.isChain_cons_cons.mpr
              ⟨(hforest.parent?_retain_iff hnode).mpr ⟨hparent, habove⟩, hkept⟩⟩

/-- With the last node on the way up of a node the whole way is left. -/
theorem parentChain_retain (hforest : forest.WellFormed) {chain : List NodeId}
    (hchain : ParentChain forest.parent? id chain)
    (htop : ∀ top ∈ chain.getLast?, top ∈ (forest.retain held).ids) :
    id ∈ (forest.retain held).ids ∧ ParentChain (forest.retain held).parent? id chain := by
  induction hchain with
  | @top node hnone =>
      have hnode := htop node rfl
      exact ⟨hnode, .top (hforest.parent?_retain_of_none hnode hnone)⟩
  | @step node above rest hparent hrest ih =>
      obtain ⟨habove, hkept⟩ := ih fun top hlast => htop top (by
        rw [List.getLast?_cons, Option.mem_def.mp hlast]
        rfl)
      have hnode := hforest.mem_ids_retain_of_parent? habove hparent
      exact ⟨hnode, .step ((hforest.parent?_retain_iff hnode).mpr ⟨hparent, habove⟩) hkept⟩

/-- The chain of a node that is left is the one it had, as far as that is left. -/
theorem parentChain_retain_takeWhile (hforest : forest.WellFormed) {chain : List NodeId}
    (hchain : ParentChain forest.parent? id chain) (hid : id ∈ (forest.retain held).ids) :
    ParentChain (forest.retain held).parent? id
      (chain.takeWhile (· ∈ (forest.retain held).ids)) := by
  induction hchain with
  | @top node hnone =>
      rw [List.takeWhile_cons, if_pos (decide_eq_true hid), List.takeWhile_nil]
      exact .top (hforest.parent?_retain_of_none hid hnone)
  | @step node above rest hparent hrest ih =>
      rw [List.takeWhile_cons, if_pos (decide_eq_true hid)]
      by_cases habove : above ∈ (forest.retain held).ids
      · exact .step ((hforest.parent?_retain_iff hid).mpr ⟨hparent, habove⟩) (ih habove)
      · -- The way up ends here, since the one node that was above is gone.
        rw [hrest.eq_cons_tail, List.takeWhile_cons, if_neg (by simpa using habove)]
        apply ParentChain.top
        rw [Option.eq_none_iff_forall_ne_some]
        intro other hother
        obtain ⟨hbefore, hleft⟩ := (hforest.parent?_retain_iff hid).mp hother
        obtain rfl := Option.some.inj (hparent.symm.trans hbefore)
        exact habove hleft

/-- The chain of a node that is left is an initial part of the one it had. -/
theorem exists_parentChain_retain (hforest : forest.WellFormed) {chain : List NodeId}
    (hchain : ParentChain forest.parent? id chain) (hid : id ∈ (forest.retain held).ids) :
    ∃ left, ParentChain (forest.retain held).parent? id left ∧ left <+: chain :=
  ⟨_, hforest.parentChain_retain_takeWhile hchain hid, List.takeWhile_prefix _⟩

/-- The owner document of a node stays if it is left. -/
theorem ownerDocument?_retain (hforest : forest.WellFormed) {document : NodeId}
    (howner : forest.ownerDocument? id = some document)
    (hleft : document ∈ (forest.retain held).ids) :
    (forest.retain held).ownerDocument? id = some document := by
  obtain ⟨chain, hchain⟩ := hforest.exists_parentChain id
  obtain ⟨hinner, htop, hdocument⟩ := (ownerDocument?_eq_some_iff hchain).mp howner
  obtain ⟨hid, hkept⟩ := hforest.parentChain_retain hchain (by
    rw [htop]
    simpa using hleft)
  have hkeeps := hforest.keeps_retain held
  apply (ownerDocument?_eq_some_iff hkept).mpr
  rw [← hkeeps.isDocument_iff hid, ← hkeeps.isDocument_iff hleft]
  exact ⟨hinner, htop, hdocument⟩

end WellFormed

end XPathTree.Forest

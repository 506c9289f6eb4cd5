import XPathTree.Proofs.Forest.Retain
import XPathTree.Proofs.Session.Holdings
import XPathTree.Session.Basic

/-! # Owning links

What keeps what in being: a node of the tree its attributes and children, a namespace node
its parent, and a result the node inside it. The nodes that a session's values lead to by
such links are the ones that are left when it settles.
-/

namespace XPathTree

/-- Whether the node that the value owns, if it owns any, is there. -/
def Value.Grounded (forest : Forest) (value : Value NodeId) : Prop :=
  ∀ owner, value.owned? = some owner → owner ∈ forest.ids

namespace Forest

variable {forest : Forest} {id above : NodeId} {value : Value NodeId}

/-- The links by which one value keeps another in being. -/
inductive Owns (forest : Forest) : Value NodeId → Value NodeId → Prop
  | below {above id : NodeId} (hid : id ∈ forest.below above) :
      Owns forest (.treeNode above) (.treeNode id)
  | parent (parent : NodeId) (pfx uri : String) :
      Owns forest (.namespaceNode ⟨some parent, pfx, uri⟩) (.treeNode parent)
  | wrapped (node : ResultNode NodeId) : Owns forest (.result node) (.ofResult node)

/-- Whether owning links lead from the value to the node. -/
def Reaches (forest : Forest) (value : Value NodeId) (id : NodeId) : Prop :=
  Relation.ReflTransGen forest.Owns value (.treeNode id)

theorem WellFormed.owns_of_below (hforest : forest.WellFormed) {tree inner : Tree Node}
    (htree : tree ∈ forest.trees.subtrees)
    (hinner : inner ∈ tree.attributes.trees ∨ inner ∈ tree.children.trees) :
    forest.Owns (.treeNode tree.root.id) (.treeNode inner.root.id) := by
  refine .below ?_
  rw [below_of_tree? (tree?_of_mem hforest.nodup htree)]
  apply List.mem_map_of_mem
  exact List.mem_append.mpr (hinner.imp List.mem_map_of_mem List.mem_map_of_mem)

/-- Every node of a row that is part of the forest is reached from the top of the row. -/
theorem WellFormed.exists_reaches (hforest : forest.WellFormed) {row : Hedge Node}
    (hrow : ∀ tree ∈ row.trees, tree ∈ forest.trees.subtrees) {inner : Tree Node}
    (hinner : inner ∈ row.subtrees) :
    ∃ top ∈ row.trees, forest.Reaches (.treeNode top.root.id) inner.root.id := by
  induction row with
  | nil => simp at hinner
  | cons root attributes children rest ihattributes ihchildren ihrest =>
      obtain ⟨hroot, hrest⟩ := List.forall_mem_cons.mp hrow
      have hunder : ∀ top : Tree Node, top ∈ attributes.trees ∨ top ∈ children.trees →
          top ∈ forest.trees.subtrees := fun top htop => Hedge.mem_subtrees_of_top hroot htop
      simp only [Hedge.subtrees, List.mem_cons, List.mem_append] at hinner
      rcases hinner with rfl | (hattributes | hchildren) | hinner
      · exact ⟨_, List.mem_cons_self, .refl⟩
      · obtain ⟨top, htop, hreaches⟩ :=
          ihattributes (fun tree htree => hunder tree (Or.inl htree)) hattributes
        exact ⟨_, List.mem_cons_self, .head (hforest.owns_of_below hroot (Or.inl htop)) hreaches⟩
      · obtain ⟨top, htop, hreaches⟩ :=
          ihchildren (fun tree htree => hunder tree (Or.inr htree)) hchildren
        exact ⟨_, List.mem_cons_self, .head (hforest.owns_of_below hroot (Or.inr htop)) hreaches⟩
      · obtain ⟨top, htop, hreaches⟩ := ihrest hrest hinner
        exact ⟨top, List.mem_cons_of_mem _ htop, hreaches⟩

/-- From a node of the tree links lead to nodes of the tree only, all of them in its tree. -/
theorem WellFormed.within_of_owns (hforest : forest.WellFormed) (habove : above ∈ forest.ids)
    (hlinks : Relation.ReflTransGen forest.Owns (.treeNode above) value) :
    ∃ id ∈ forest.idsWithin above, value = .treeNode id := by
  induction hlinks with
  | refl => exact ⟨above, self_mem_idsWithin habove, rfl⟩
  | tail _ hlink ih =>
      obtain ⟨id, hid, rfl⟩ := ih
      cases hlink with
      | below hinner => exact ⟨_, hforest.mem_idsWithin_of_below hid hinner, rfl⟩

theorem WellFormed.reaches_treeNode_iff (hforest : forest.WellFormed)
    (habove : above ∈ forest.ids) :
    forest.Reaches (.treeNode above) id ↔ id ∈ forest.idsWithin above := by
  constructor
  · intro hreaches
    obtain ⟨other, hother, hsame⟩ := hforest.within_of_owns habove hreaches
    cases hsame
    exact hother
  · intro hid
    obtain ⟨tree, hfound, hwithin⟩ := mem_idsWithin_iff.mp hid
    obtain ⟨htree, rfl⟩ := mem_subtrees_of_tree? hfound
    obtain ⟨inner, hinner, rfl⟩ := Hedge.mem_ids_iff.mp hwithin
    have hrow : ∀ top ∈ tree.toHedge.trees, top ∈ forest.trees.subtrees := by
      simpa [Tree.toHedge] using htree
    obtain ⟨top, htop, hreaches⟩ := hforest.exists_reaches hrow hinner
    obtain rfl : top = tree := by simpa [Tree.toHedge] using htop
    exact hreaches

theorem reaches_namespaceNode_iff (node : NamespaceNode NodeId) :
    forest.Reaches (.namespaceNode node) id ↔
      ∃ owner, node.parent = some owner ∧ forest.Reaches (.treeNode owner) id := by
  constructor
  · intro hreaches
    rcases hreaches.cases_head with hsame | ⟨_, hlink, hreaches⟩
    · cases hsame
    · cases hlink with
      | parent owner pfx uri => exact ⟨owner, rfl, hreaches⟩
  · rintro ⟨owner, hparent, hreaches⟩
    obtain ⟨_, pfx, uri⟩ := node
    obtain rfl := hparent
    exact .head (.parent owner pfx uri) hreaches

theorem reaches_result_iff (node : ResultNode NodeId) :
    forest.Reaches (.result node) id ↔ forest.Reaches (.ofResult node) id := by
  constructor
  · intro hreaches
    rcases hreaches.cases_head with hsame | ⟨_, hlink, hreaches⟩
    · cases hsame
    · cases hlink
      exact hreaches
  · exact fun hreaches => .head (.wrapped node) hreaches

/-- What a value reaches is the tree of the node that it owns. -/
theorem WellFormed.reaches_iff (hforest : forest.WellFormed) (hvalue : value.Grounded forest) :
    forest.Reaches value id ↔ ∃ owner, value.owned? = some owner ∧ id ∈ forest.idsWithin owner := by
  have howned : forest.Reaches value id ↔
      ∃ owner, value.owned? = some owner ∧ forest.Reaches (.treeNode owner) id := by
    cases value with
    | treeNode node => simp [Value.owned?, Value.toResult]
    | namespaceNode node => exact reaches_namespaceNode_iff node
    | result node =>
        rw [reaches_result_iff]
        cases node with
        | host node => simp [Value.owned?, Value.toResult, Value.ofResult]
        | namespaceNode node => exact reaches_namespaceNode_iff node
  rw [howned]
  exact exists_congr fun owner => and_congr_right fun hthere =>
    hforest.reaches_treeNode_iff (hvalue owner hthere)

end Forest

namespace Session

variable {session : Session Forest} {id : NodeId}

/-- Whether owning links lead from some held value to the node. -/
def Reaches (session : Session Forest) (id : NodeId) : Prop :=
  ∃ entry ∈ session.holdings.entries, session.source.Reaches entry.2 id

/-- Whether the nodes that are owned are there. -/
def Grounded (session : Session Forest) : Prop :=
  ∀ entry ∈ session.holdings.entries, entry.2.Grounded session.source

theorem Grounded.mem_ids (hgrounded : session.Grounded) (hid : id ∈ session.holdings.owned) :
    id ∈ session.source.ids := by
  obtain ⟨entry, hentry, howned⟩ := Holdings.mem_owned_iff.mp hid
  exact hgrounded entry hentry id howned

theorem reaches_iff (hforest : session.source.WellFormed) (hgrounded : session.Grounded) :
    session.Reaches id ↔ ∃ owner ∈ session.holdings.owned, id ∈ session.source.idsWithin owner := by
  constructor
  · rintro ⟨entry, hentry, hreaches⟩
    obtain ⟨owner, howned, hid⟩ := (hforest.reaches_iff (hgrounded entry hentry)).mp hreaches
    exact ⟨owner, Holdings.mem_owned_iff.mpr ⟨entry, hentry, howned⟩, hid⟩
  · rintro ⟨owner, howner, hid⟩
    obtain ⟨entry, hentry, howned⟩ := Holdings.mem_owned_iff.mp howner
    exact ⟨entry, hentry, (hforest.reaches_iff (hgrounded entry hentry)).mpr ⟨owner, howned, hid⟩⟩

/-- What is left when a session settles is what its values reach. -/
theorem mem_ids_settle_iff (hforest : session.source.WellFormed) (hgrounded : session.Grounded) :
    id ∈ session.settle.source.ids ↔ session.Reaches id := by
  rw [reaches_iff hforest hgrounded]
  exact hforest.mem_ids_retain_iff

theorem grounded_settle (hforest : session.source.WellFormed) (hgrounded : session.Grounded) :
    session.settle.Grounded := fun entry hentry owner howned =>
  hforest.mem_ids_retain_of_held (Holdings.mem_owned_iff.mpr ⟨entry, hentry, howned⟩)
    (hgrounded entry hentry owner howned)

/-- Settling does not change what the values reach. -/
theorem reaches_settle_iff (hforest : session.source.WellFormed) (hgrounded : session.Grounded) :
    session.settle.Reaches id ↔ session.Reaches id := by
  rw [reaches_iff (hforest.retain _) (grounded_settle hforest hgrounded),
    reaches_iff hforest hgrounded]
  have hkeeps := hforest.keeps_retain session.holdings.owned
  refine exists_congr fun owner => and_congr_right fun howner => ?_
  rw [hkeeps.idsWithin_eq (hforest.mem_ids_retain_of_held howner (hgrounded.mem_ids howner))]
  rfl

end Session

end XPathTree

import Mathlib.Algebra.BigOperators.Group.Finset.Basic
import XPathTree.NodeSet
import XPathTree.Proofs.Axis
import XPathTree.Proofs.Coherence
import XPathTree.Proofs.Forest.Reachable

/-! # Merged axes

The namespace nodes of different elements are different nodes, also where the elements
have the same namespaces in scope. So when axes are put into one node set, each element
adds its whole axis the first time, and nothing when it comes again.
-/

namespace XPathTree

universe u v

/-! ## Nodes of two axes -/

namespace Host

variable {N : Type u} (host : Host N)

/-- A node of an axis has the element that was asked as its parent. -/
theorem parent_of_mem_namespaceAxis {element : N} {node : NamespaceNode N}
    (hnode : node ∈ host.namespaceAxis element) : node.parent = some element := by
  unfold namespaceAxis at hnode
  split at hnode
  next =>
    obtain ⟨binding, _, rfl⟩ := List.mem_map.mp hnode
    rfl
  next => cases hnode

/-- Equality of nodes of two axes asks the host about the elements, and nothing else. -/
theorem equal_iff_of_mem_namespaceAxis {a b : N} {x y : NamespaceNode N}
    (hx : x ∈ host.namespaceAxis a) (hy : y ∈ host.namespaceAxis b) :
    x.equal host y = true ↔ host.equal a b = true ∧ x.pfx = y.pfx ∧ x.uri = y.uri := by
  rw [NamespaceNode.equal_iff, host.parent_of_mem_namespaceAxis hx,
    host.parent_of_mem_namespaceAxis hy, bothOrNeither]

theorem nodup_namespaceAxis {element : N} {chain : List N}
    (hchain : ParentChain host.parent element chain) : (host.namespaceAxis element).Nodup := by
  unfold namespaceAxis
  split
  next =>
    apply List.Nodup.of_map NamespaceNode.pfx
    rw [map_pfx_ofBinding]
    exact host.nodup_axisBindings hchain
  next => exact List.nodup_nil

end Host

/-! ## Sets over a forest -/

/-- Over a forest results are equal only to themselves. -/
theorem ResultNode.equal_forest_iff {forest : Forest} {a b : ResultNode NodeId} :
    a.equal forest.host b = true ↔ a = b := by
  have hoption : ∀ p q : Option NodeId,
      bothOrNeither forest.host.equal p q = true ↔ p = q := by
    intro p q
    cases p <;> cases q <;> simp [bothOrNeither, Forest.host]
  rcases a with a | ⟨p, pfx, uri⟩ <;> rcases b with b | ⟨q, other, target⟩
  · simp [equal, Forest.host]
  · simp [equal]
  · simp [equal]
  · simp only [equal, NamespaceNode.equal_iff, hoption, ResultNode.namespaceNode.injEq,
      NamespaceNode.mk.injEq]

/-- Key by key, as many values as its batch has nodes: whether the key comes for the first
time. -/
def freshness {κ : Type v} [DecidableEq κ] (size : κ → Nat) (keys : List κ) : List Bool :=
  keys.zipIdx.flatMap fun (key, place) =>
    List.replicate (size key) (decide (key ∉ keys.take place))

theorem freshness_append_singleton {κ : Type v} [DecidableEq κ] (size : κ → Nat)
    (keys : List κ) (key : κ) :
    freshness size (keys ++ [key]) =
      freshness size keys ++ List.replicate (size key) (decide (key ∉ keys)) := by
  have hlast : freshness size (keys ++ [key]) =
      (keys.zipIdx.flatMap fun (entry, place) =>
        List.replicate (size entry) (decide (entry ∉ (keys ++ [key]).take place))) ++
          List.replicate (size key) (decide (key ∉ keys)) := by
    simp [freshness, List.zipIdx_append]
  rw [hlast]
  refine congrArg (· ++ _) (List.flatMap_congr fun entry hentry => ?_)
  have hplace : entry.2 ≤ keys.length := by
    have := (List.mem_zipIdx hentry).2.1
    omega
  dsimp only
  rw [List.take_append_of_le_length hplace]

namespace NodeSet

theorem insertAll_append {N : Type u} (tree : Host N) (set : NodeSet N)
    (first second : List (ResultNode N)) :
    set.insertAll tree (first ++ second) =
      ((set.insertAll tree first).1 ++ ((set.insertAll tree first).2.insertAll tree second).1,
        ((set.insertAll tree first).2.insertAll tree second).2) := by
  induction first generalizing set with
  | nil => rfl
  | cons node rest ih => simp only [List.cons_append, insertAll, ih]

variable {forest : Forest} {set : NodeSet NodeId}

theorem contains_iff {node : ResultNode NodeId} :
    set.contains forest.host node = true ↔ node ∈ set.members := by
  simp [contains, ResultNode.equal_forest_iff]

/-- Nodes that are all there already add nothing. -/
theorem insertAll_of_subset {nodes : List (ResultNode NodeId)}
    (hnodes : ∀ node ∈ nodes, node ∈ set.members) :
    set.insertAll forest.host nodes = (List.replicate nodes.length false, set) := by
  induction nodes with
  | nil => rfl
  | cons node rest ih =>
      obtain ⟨hnode, hrest⟩ := List.forall_mem_cons.mp hnodes
      simp only [insertAll, insert, if_pos (contains_iff.mpr hnode), ih hrest,
        List.length_cons, List.replicate_succ]

/-- Different nodes none of which is there are all added. -/
theorem insertAll_of_disjoint {nodes : List (ResultNode NodeId)} (hnodup : nodes.Nodup)
    (hnodes : ∀ node ∈ nodes, node ∉ set.members) :
    set.insertAll forest.host nodes =
      (List.replicate nodes.length true, ⟨set.members ++ nodes⟩) := by
  induction nodes generalizing set with
  | nil => simp [insertAll]
  | cons node rest ih =>
      obtain ⟨hnode, hrest⟩ := List.forall_mem_cons.mp hnodes
      obtain ⟨hhead, htail⟩ := List.nodup_cons.mp hnodup
      have hnew : ∀ other ∈ rest, other ∉ set.members ++ [node] := by
        intro other hother hmem
        rcases List.mem_append.mp hmem with hthere | hsame
        · exact hrest other hother hthere
        · exact hhead (List.mem_singleton.mp hsame ▸ hother)
      simp only [insertAll, insert, if_neg (contains_iff.not.mpr hnode), ih htail hnew,
        List.length_cons, List.replicate_succ, List.append_assoc, List.singleton_append]

/-- Batches that have no node in common are added whole when they first come, and not at
all when they come again. -/
theorem insertAll_batches {κ : Type v} [DecidableEq κ] {batch : κ → List (ResultNode NodeId)}
    (hnodup : ∀ key, (batch key).Nodup)
    (hapart : ∀ a b, a ≠ b → ∀ node ∈ batch a, node ∉ batch b) (keys : List κ) :
    NodeSet.empty.insertAll forest.host (keys.flatMap batch) =
      (freshness (fun key => (batch key).length) keys, ⟨(firsts id keys).flatMap batch⟩) := by
  induction keys using List.reverseRecOn with
  | nil => rfl
  | append_singleton keys key ih =>
      have hmem : ∀ node ∈ batch key, node ∈ (firsts id keys).flatMap batch ↔ key ∈ keys := by
        intro node hnode
        refine List.mem_flatMap.trans ⟨?_, fun hkey => ⟨key, (mem_firsts_id _ _).mpr hkey, hnode⟩⟩
        rintro ⟨other, hother, hthere⟩
        by_cases heq : key = other
        · exact heq ▸ (mem_firsts_id _ _).mp hother
        · exact absurd hthere (hapart key other heq node hnode)
      rw [List.flatMap_append, List.flatMap_singleton, insertAll_append, ih,
        freshness_append_singleton, firsts_append, List.flatMap_append]
      by_cases hkey : key ∈ keys
      · have hstep : insertAll forest.host ⟨(firsts id keys).flatMap batch⟩ (batch key) = _ :=
          insertAll_of_subset fun node hnode => (hmem node hnode).mpr hkey
        simp [hstep, firsts_cons, hkey]
      · have hstep : insertAll forest.host ⟨(firsts id keys).flatMap batch⟩ (batch key) = _ :=
          insertAll_of_disjoint (hnodup key) fun node hnode => (hmem node hnode).not.mpr hkey
        simp [hstep, firsts_cons, hkey]

end NodeSet

/-! ## Elements and their axes -/

/-- What an element adds to a set: itself, or the nodes of its axis. -/
inductive Share
  | itself (element : NodeId)
  | axis (element : NodeId)
deriving DecidableEq

namespace Share

def nodes (host : Host NodeId) : Share → List (ResultNode NodeId)
  | .itself element => [.host element]
  | .axis element => (host.namespaceAxis element).map .namespaceNode

/-- The element, where it is the axis that is added. -/
def axisOf? : Share → Option NodeId
  | .itself _ => none
  | .axis element => some element

theorem nodup_nodes {forest : Forest} (hforest : forest.WellFormed) (share : Share) :
    (share.nodes forest.host).Nodup := by
  cases share with
  | itself element => exact List.nodup_singleton _
  | axis element =>
      obtain ⟨chain, hchain⟩ := hforest.exists_parentChain element
      exact (forest.host.nodup_namespaceAxis hchain).map fun a b hab => by simpa using hab

/-- Different shares have no node in common: a node tells whose share it is in. -/
theorem nodes_apart (host : Host NodeId) {a b : Share} (hne : a ≠ b) :
    ∀ node ∈ a.nodes host, node ∉ b.nodes host := by
  intro node ha hb
  refine hne ?_
  cases a with
  | itself element =>
      obtain rfl := List.mem_singleton.mp ha
      cases b with
      | itself other => simpa [nodes] using hb
      | axis other => simp [nodes] at hb
  | axis element =>
      obtain ⟨inner, hinner, rfl⟩ := List.mem_map.mp ha
      cases b with
      | itself other => simp [nodes] at hb
      | axis other =>
          obtain ⟨same, hsame, heq⟩ := List.mem_map.mp hb
          obtain rfl : same = inner := by simpa using heq
          have hparent := (host.parent_of_mem_namespaceAxis hinner).symm.trans
            (host.parent_of_mem_namespaceAxis hsame)
          exact congrArg Share.axis (Option.some.inj hparent)

/-- An element with its axis. -/
def whole (host : Host NodeId) (element : NodeId) : List (ResultNode NodeId) :=
  (itself element).nodes host ++ (axis element).nodes host

theorem nodup_whole {forest : Forest} (hforest : forest.WellFormed) (element : NodeId) :
    (whole forest.host element).Nodup := by
  refine List.nodup_append.mpr ⟨nodup_nodes hforest _, nodup_nodes hforest _, ?_⟩
  rintro node hself _ haxis rfl
  exact nodes_apart forest.host (by simp) node hself haxis

theorem whole_apart (host : Host NodeId) {a b : NodeId} (hne : a ≠ b) :
    ∀ node ∈ whole host a, node ∉ whole host b := by
  intro node ha hb
  rcases List.mem_append.mp ha with ha | ha <;> rcases List.mem_append.mp hb with hb | hb <;>
    exact nodes_apart host (by simp [hne]) node ha hb

end Share

/-- Shares in which the axes are those of a list of elements, in that order, and the
elements themselves come anywhere among them and any number of times. -/
structure Interleaves (shares : List Share) (elements : List NodeId) : Prop where
  axes : shares.filterMap Share.axisOf? = elements
  selves : ∀ element, .itself element ∈ shares ↔ element ∈ elements

theorem Interleaves.mem_axis_iff {shares : List Share} {elements : List NodeId}
    (hshares : Interleaves shares elements) {element : NodeId} :
    .axis element ∈ shares ↔ element ∈ elements := by
  rw [← hshares.axes, List.mem_filterMap]
  constructor
  · exact fun hmem => ⟨_, hmem, rfl⟩
  · rintro ⟨share, hmem, hshare⟩
    cases share <;> simp [Share.axisOf?] at hshare
    exact hshare ▸ hmem

/-- Added up over the different shares: one for each element, and its axis. -/
theorem Interleaves.sum_shares {shares : List Share} {elements : List NodeId}
    (hshares : Interleaves shares elements) (host : Host NodeId) :
    ∑ share ∈ shares.toFinset, (share.nodes host).length =
      elements.toFinset.card +
        ∑ element ∈ elements.toFinset, (host.namespaceAxis element).length := by
  have hsplit : shares.toFinset =
      elements.toFinset.image .itself ∪ elements.toFinset.image .axis := by
    ext share
    cases share <;> simp [hshares.selves, hshares.mem_axis_iff]
  have hdisjoint : Disjoint (elements.toFinset.image Share.itself)
      (elements.toFinset.image Share.axis) := by
    simp [Finset.disjoint_left]
  rw [hsplit, Finset.sum_union hdisjoint, Finset.sum_image (by simp), Finset.sum_image (by simp)]
  simp [Share.nodes]

/-- What comes of a set into which elements and their axes are put. -/
structure Forest.Merges (forest : Forest) (elements : List NodeId) (shares : List Share) :
    Prop where
  size_eq :
    (NodeSet.empty.insertAll forest.host (shares.flatMap (·.nodes forest.host))).2.size =
      elements.toFinset.card +
        ∑ element ∈ elements.toFinset, (forest.host.namespaceAxis element).length
  members_eq :
    (NodeSet.empty.insertAll forest.host (shares.flatMap (·.nodes forest.host))).2.members =
      (firsts id shares).flatMap (·.nodes forest.host)
  /-- Each node of a share is new just when this share has not come before. -/
  fresh_eq :
    (NodeSet.empty.insertAll forest.host (shares.flatMap (·.nodes forest.host))).1 =
      freshness (fun share => (share.nodes forest.host).length) shares
  /-- Where each element is put in with its axis, all of it is new just when the element
  has not come before. -/
  fresh_in_turn :
    (NodeSet.empty.insertAll forest.host (elements.flatMap (Share.whole forest.host))).1 =
      freshness (fun element => 1 + (forest.host.namespaceAxis element).length) elements

/-- Whatever elements repeat and whatever their axes share, no node is lost and none is
counted twice, since nodes of two axes are equal only where the elements are. -/
theorem Forest.Reachable.merges {forest : Forest} (hforest : forest.Reachable)
    {elements : List NodeId} {shares : List Share} (hshares : Interleaves shares elements) :
    forest.Merges elements shares ∧
      ∀ {N : Type u} (host : Host N) (a b : N),
        ∀ x ∈ host.namespaceAxis a, ∀ y ∈ host.namespaceAxis b,
          (x.equal host y = true ↔ host.equal a b = true ∧ x.pfx = y.pfx ∧ x.uri = y.uri) := by
  have hrun : NodeSet.empty.insertAll forest.host (shares.flatMap (Share.nodes forest.host)) = _ :=
    NodeSet.insertAll_batches (Share.nodup_nodes hforest.wellFormed)
      (fun _ _ => Share.nodes_apart forest.host) shares
  refine ⟨⟨?_, ?_, ?_, ?_⟩, fun host a b x hx y hy => host.equal_iff_of_mem_namespaceAxis hx hy⟩
  · have hfirsts : (firsts id shares).Nodup := by simpa using nodup_firsts id shares
    have hthere : (firsts id shares).toFinset = shares.toFinset := by
      ext share
      simp [mem_firsts_id]
    rw [hrun, NodeSet.size, List.length_flatMap, ← List.sum_toFinset _ hfirsts, hthere,
      hshares.sum_shares]
  · rw [hrun]
  · rw [hrun]
  · rw [NodeSet.insertAll_batches (Share.nodup_whole hforest.wellFormed)
      fun _ _ => Share.whole_apart forest.host]
    simp [Share.whole, Share.nodes, Nat.add_comm]

/-- An element that declares `a`, and in it one that declares nothing. -/
def inheritingForest : Forest :=
  let sown := (Forest.empty.sow (.ofAttribute "xmlns:a" "urn:a")).2
  let inner := ((Builder.mk (.ofElement "b") [] []).build sown).2
  ((Builder.mk (.ofElement "e") [0] [1]).build inner).2

/-- The axes of both elements hold the same two bindings, and come to four nodes. Where
elements share a key, nodes of their axes are equal. -/
theorem merges_inheriting :
    inheritingForest.Reachable ∧
      Interleaves [.itself 1, .axis 1, .axis 2, .itself 2, .axis 1] [1, 2, 1] ∧
      inheritingForest.Merges [1, 2, 1] [.itself 1, .axis 1, .axis 2, .itself 2, .axis 1] ∧
      (let merged := NodeSet.empty.insertAll inheritingForest.host
          ([.itself 1, .axis 1, .axis 2, .itself 2, .axis 1].flatMap
            (Share.nodes inheritingForest.host));
        merged.1 = [true, true, true, true, true, true, false, false] ∧ merged.2.size = 6) ∧
      NamespaceNode.equal sharingTable.host ⟨some 0, xmlPrefix, xmlUri⟩
        ⟨some 1, xmlPrefix, xmlUri⟩ = true := by
  have hreachable : inheritingForest.Reachable :=
    (((Forest.Reachable.empty.sow _).build _).build _)
  have hshares : Interleaves [.itself 1, .axis 1, .axis 2, .itself 2, .axis 1] [1, 2, 1] :=
    { axes := rfl
      selves := fun element => by grind }
  obtain ⟨hmerges, hequal⟩ := hreachable.merges hshares
  refine ⟨hreachable, hshares, hmerges, ⟨hmerges.fresh_eq.trans ?_, hmerges.size_eq.trans ?_⟩, ?_⟩
  · decide +kernel
  · decide +kernel
  · exact (hequal sharingTable.host 0 1 _ (by decide +kernel) _ (by decide +kernel)).mpr
      ⟨by decide +kernel, rfl, rfl⟩

end XPathTree

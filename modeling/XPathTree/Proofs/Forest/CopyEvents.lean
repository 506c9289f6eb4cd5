import XPathTree.Proofs.Forest.Attempts
import XPathTree.Proofs.Forest.Reachable

/-! # What happens in a copy

The events of a copy, read node by node. Every node of the tree is copied once, in the order in
which the tree is listed. Every copied node below the root is linked by the first attempt to do
so, and there is no other attempt: none on the root of the copy and none on what was there.
-/

namespace XPathTree

namespace AttachEvent

/-- The node that is copied, with its copy. -/
def copied? : AttachEvent → Option (NodeId × NodeId)
  | begun source copy => some (source, copy)
  | linked _ _ | refused _ _ => none

/-- The node whose link is to be made. -/
def attempted? : AttachEvent → Option NodeId
  | begun _ _ => none
  | linked id _ | refused id _ => some id

/-- The nodes that are copied, each with its copy. -/
def copies (events : List AttachEvent) : List (NodeId × NodeId) := events.filterMap copied?

/-- The attempts to make the link of a node. -/
def attemptsOn (id : NodeId) (events : List AttachEvent) : List AttachEvent :=
  events.filter (·.attempted? = some id)

@[simp] theorem copies_begun (source copy : NodeId) (events : List AttachEvent) :
    copies (.begun source copy :: events) = (source, copy) :: copies events := rfl

@[simp] theorem copies_linked (id above : NodeId) (events : List AttachEvent) :
    copies (.linked id above :: events) = copies events := rfl

@[simp] theorem copies_append (first second : List AttachEvent) :
    copies (first ++ second) = copies first ++ copies second := List.filterMap_append

end AttachEvent

open AttachEvent

/-- The event in which the link of a node is made. -/
def Node.linking? (node : Node) : Option AttachEvent := node.link.map (.linked node.id)

namespace Hedge

/-! ## What is copied -/

/-- Each node of a row is copied once, in order. -/
theorem copies_copyEvents (above next : NodeId) (row : Hedge Node) :
    copies (row.copyEvents above next) = row.ids.zip (row.copy next).ids := by
  induction row generalizing above next with
  | nil => rfl
  | cons root attributes children rest ihattributes ihchildren ihrest =>
      have hevents : copies ((cons root attributes children rest).copyEvents above next) =
          (root.id, next) :: (copies (attributes.copyEvents next (next + 1)) ++
            copies (children.copyEvents next (next + 1 + attributes.size)) ++
            copies (rest.copyEvents above (next + 1 + attributes.size + children.size))) := by
        simp [copyEvents]
      rw [hevents, ihattributes, ihchildren, ihrest, copy, ids_cons, ids_cons, ids_linkRoots,
        ids_linkRoots, List.zip_cons_cons, List.zip_append, List.zip_append]
      · exact (length_ids_copy _ _).symm
      · rw [List.length_append, List.length_append, length_ids_copy, length_ids_copy]

/-! ## What is attempted -/

/-- The attempts are those that made the links of the row of copies, each once. -/
theorem attempts_copyEvents_perm (above next : NodeId) (row : Hedge Node) :
    ((row.copyEvents above next).filter (·.attempted?.isSome)).Perm
      (((row.copy next).linkRoots above).labels.filterMap Node.linking?) := by
  induction row generalizing above next with
  | nil => exact .nil
  | cons root attributes children rest ihattributes ihchildren ihrest =>
      have hevents : ((cons root attributes children rest).copyEvents above next).filter
          (·.attempted?.isSome) =
          (attributes.copyEvents next (next + 1)).filter (·.attempted?.isSome) ++
            (children.copyEvents next (next + 1 + attributes.size)).filter
              (·.attempted?.isSome) ++
            .linked next above ::
              (rest.copyEvents above (next + 1 + attributes.size + children.size)).filter
                (·.attempted?.isSome) := by
        simp [copyEvents, attempted?]
      have hlinks : ((((cons root attributes children rest).copy next).linkRoots
          above).labels).filterMap Node.linking? =
          .linked next above :: (((attributes.copy (next + 1)).linkRoots next).labels.filterMap
              Node.linking? ++
            ((children.copy (next + 1 + attributes.size)).linkRoots next).labels.filterMap
              Node.linking? ++
            ((rest.copy (next + 1 + attributes.size + children.size)).linkRoots
              above).labels.filterMap Node.linking?) := by
        simp [copy, linkRoots, Node.linking?, Node.linkTo]
      rw [hevents, hlinks]
      exact List.perm_middle.trans
        (.cons _ (((ihattributes _ _).append (ihchildren _ _)).append (ihrest _ _)))

end Hedge

namespace Tree

variable (tree : Tree Node) (next : NodeId)

theorem copyEvents_toHedge (above : NodeId) :
    tree.toHedge.copyEvents above next = tree.copyEvents next ++ [.linked next above] :=
  (Hedge.copyEvents_cons _ _ _ _ _ _).trans (List.append_nil _)

theorem copies_copyEvents : copies (tree.copyEvents next) =
    tree.toHedge.ids.zip (tree.toHedge.copy next).ids := by
  have hrow := tree.toHedge.copies_copyEvents 0 next
  rw [copyEvents_toHedge, copies_append] at hrow
  exact (List.append_nil _).symm.trans hrow

/-- The attempts are those that made the links below the root of the copy, each once. -/
theorem attempts_copyEvents_perm : ((tree.copyEvents next).filter (·.attempted?.isSome)).Perm
    ((tree.toHedge.copy next).labels.filterMap Node.linking?) := by
  have hevents : (tree.copyEvents next).filter (·.attempted?.isSome) =
      (tree.attributes.copyEvents next (next + 1)).filter (·.attempted?.isSome) ++
        (tree.children.copyEvents next (next + 1 + tree.attributes.size)).filter
          (·.attempted?.isSome) := by
    simp [copyEvents, attempted?]
  have hlinks : (tree.toHedge.copy next).labels.filterMap Node.linking? =
      ((tree.attributes.copy (next + 1)).linkRoots next).labels.filterMap Node.linking? ++
        ((tree.children.copy (next + 1 + tree.attributes.size)).linkRoots
          next).labels.filterMap Node.linking? := by
    simp [toHedge, Hedge.copy, Node.linking?, List.filterMap_cons]
  rw [hevents, hlinks]
  exact (Hedge.attempts_copyEvents_perm _ _ _).append (Hedge.attempts_copyEvents_perm _ _ _)

theorem attemptsOn_copyEvents_perm (id : NodeId) : (attemptsOn id (tree.copyEvents next)).Perm
    (((tree.toHedge.copy next).labels.filter (·.id = id)).filterMap Node.linking?) := by
  have hattempts : attemptsOn id (tree.copyEvents next) =
      ((tree.copyEvents next).filter (·.attempted?.isSome)).filter (·.attempted? = some id) := by
    rw [attemptsOn, List.filter_filter]
    apply List.filter_congr
    intro event _
    cases event.attempted? <;> simp
  have hlinks : ((tree.toHedge.copy next).labels.filter (·.id = id)).filterMap Node.linking? =
      ((tree.toHedge.copy next).labels.filterMap Node.linking?).filter
        (·.attempted? = some id) := by
    rw [List.filter_filterMap, List.filterMap_filter]
    apply List.filterMap_congr
    intro node _
    by_cases hid : node.id = id
    · cases hlink : node.link <;> simp [Node.linking?, attempted?, Option.filter_some, hlink, hid]
    · cases hlink : node.link <;> simp [Node.linking?, attempted?, Option.filter_some, hlink, hid]
  rw [hattempts, hlinks]
  exact (tree.attempts_copyEvents_perm next).filter _

/-- On a node of the copy there is just the attempt that made its link, if that is made. -/
theorem attemptsOn_copyEvents {node : Node} (hnode : node ∈ (tree.toHedge.copy next).labels) :
    attemptsOn node.id (tree.copyEvents next) = node.linking?.toList := by
  have hnodup : ((tree.toHedge.copy next).labels.map (·.id)).Nodup := by
    rw [← Hedge.ids, Hedge.ids_copy]
    exact List.nodup_range'
  have hperm := tree.attemptsOn_copyEvents_perm next node.id
  rw [filter_eq_singleton_of_mem (fun node : Node => node.id) hnodup hnode] at hperm
  cases hlink : node.linking? with
  | none =>
    rw [List.filterMap_cons_none hlink] at hperm
    exact hperm.eq_nil
  | some event =>
    rw [List.filterMap_cons_some hlink] at hperm
    exact hperm.eq_singleton

theorem attemptsOn_copyEvents_of_not_mem {id : NodeId} (hid : id ∉ (tree.toHedge.copy next).ids) :
    attemptsOn id (tree.copyEvents next) = [] := by
  have hperm := tree.attemptsOn_copyEvents_perm next id
  rw [List.filter_eq_nil_iff.mpr] at hperm
  · exact hperm.eq_nil
  · intro node hnode hsame
    exact hid (of_decide_eq_true hsame ▸ Hedge.mem_ids_of_mem_labels hnode)

end Tree

/-- The identities of paired nodes, pair by pair. -/
def pairedIds (nodes : List (Node × Node)) : List (NodeId × NodeId) :=
  nodes.map fun pair => (pair.1.id, pair.2.id)

theorem zip_ids_eq_pairedIds (nodes : List (Node × Node)) :
    ((nodes.map Prod.fst).map Node.id).zip ((nodes.map Prod.snd).map Node.id) =
      pairedIds nodes := by
  rw [List.map_map, List.map_map, List.zip_map', pairedIds]
  rfl

namespace Forest

variable {forest : Forest} {id : NodeId} {tree : Tree Node}

/-- What copying a node comes to: the copy and the forest with it, and the events on the way. -/
structure CopiedOnce (before : Forest) (id : NodeId) (events : List AttachEvent) (copy : NodeId)
    (after : Forest) : Prop where
  link_copy : after.link? copy = none
  contents_copy : after.contents? copy = before.contents? id
  /-- Every node that is listed in the copy was linked to the node that lists it by the first
  attempt, and there was no other. -/
  linked_once : ∀ copied ∈ after.idsWithin copy, ∀ inner ∈ after.below copied,
    after.parent? inner = some copied ∧ attemptsOn inner events = [.linked inner copied]
  /-- No attempt was made on the link of the copy, nor on that of any node that was there. -/
  not_attempted : ∀ other, other = copy ∨ other ∈ before.ids → attemptsOn other events = []
  links_kept : ∀ other ∈ before.ids, after.link? other = before.link? other
  /-- There are as many new nodes as stand in the tree of the node, itself included. -/
  ids_eq : after.ids = before.ids ++ after.idsWithin copy
  nodup : after.ids.Nodup
  length_eq : (after.idsWithin copy).length = (before.idsWithin id).length
  /-- Each of these was copied just once. -/
  copies_eq : copies events = (before.idsWithin id).zip (after.idsWithin copy)
  /-- What is listed under the copy of a node are the copies of what is listed under the node. -/
  below_copied : ∀ source copied, (source, copied) ∈ copies events →
    (before.below source).zip (after.below copied) ⊆ copies events

namespace WellFormed

variable (hforest : forest.WellFormed)

include hforest

theorem idsWithin_copy (tree : Tree Node) :
    (forest.copy tree).2.idsWithin forest.next = (tree.toHedge.copy forest.next).ids := by
  obtain ⟨copied, hcopied, _, _, hids⟩ := tree?_copy_next hforest tree
  rw [idsWithin_of_tree? hcopied, hids, Hedge.ids_copy]

/-- The trees of a copy are found in the forest. -/
theorem mem_subtrees_copy {copied : Tree Node}
    (hcopied : copied ∈ (tree.toHedge.copy forest.next).subtrees) :
    copied ∈ (forest.copy tree).2.trees.subtrees ∧
      (forest.copy tree).2.tree? copied.root.id = some copied := by
  have hmem : copied ∈ (forest.copy tree).2.trees.subtrees := by
    rw [Forest.copy, Hedge.subtrees_append]
    exact List.mem_append_right _ hcopied
  exact ⟨hmem, tree?_of_mem (hforest.copy tree).nodup hmem⟩

/-- Copying a node makes one copy of each node in its tree, and it makes every link in the copy
at the first attempt. -/
theorem copiedOnce (htree : forest.tree? id = some tree) :
    forest.CopiedOnce id (tree.copyEvents forest.next) forest.next (forest.copy tree).2 := by
  have hbefore := idsWithin_of_tree? htree
  have hafter := hforest.idsWithin_copy tree
  obtain ⟨copied, hcopied, _, hcontents, _⟩ := tree?_copy_next hforest tree
  refine {
    link_copy := link?_copy_next hforest tree
    contents_copy := by
      rw [contents?, contents?, hcopied, htree, Option.map_some, Option.map_some, hcontents]
    linked_once := ?linked_once
    not_attempted := ?not_attempted
    links_kept := fun other hother => link?_copy tree hother
    ids_eq := by rw [hafter, ids_copy, Hedge.ids_copy]
    nodup := (hforest.copy tree).nodup
    length_eq := by rw [hafter, hbefore, Hedge.length_ids_copy]
    copies_eq := by rw [hafter, hbefore, Tree.copies_copyEvents]
    below_copied := ?below_copied }
  case linked_once =>
    intro copied hcopied inner hinner
    rw [hafter] at hcopied
    obtain ⟨found, hfound, rfl⟩ := Hedge.mem_ids_iff.mp hcopied
    obtain ⟨hthere, hread⟩ := hforest.mem_subtrees_copy hfound
    rw [below_of_tree? hread] at hinner
    obtain ⟨node, hnode, rfl⟩ := List.mem_map.mp hinner
    refine ⟨(hforest.copy tree).parent?_of_below hthere hnode, ?_⟩
    rw [tree.attemptsOn_copyEvents _ (Hedge.mem_labels_of_below hfound hnode), Node.linking?,
      Hedge.linked_copy _ _ found hfound node hnode]
    rfl
  case not_attempted =>
    rintro other (rfl | hother)
    · have hroot : ⟨forest.next, tree.root.content, none⟩ ∈
          (tree.toHedge.copy forest.next).labels := by
        rw [Tree.toHedge, Hedge.copy, Hedge.labels_cons]
        exact List.mem_cons_self
      exact tree.attemptsOn_copyEvents _ hroot
    · apply tree.attemptsOn_copyEvents_of_not_mem
      rw [Hedge.ids_copy, List.mem_range'_1]
      exact fun hnew => Nat.not_le_of_lt (hforest.lt_next other hother) hnew.1
  case below_copied =>
    intro source copied hsource pair hpair
    obtain ⟨pairs, hfirst, hsecond⟩ :=
      Hedge.exists_zip (tree.toHedge.map_content_copy forest.next).symm
    -- The copies are told pair by pair in the order in which the two trees are listed.
    have hcopies : copies (tree.copyEvents forest.next) = pairedIds pairs.labels := by
      rw [tree.copies_copyEvents, ← hsecond, ← hfirst, Hedge.ids, Hedge.ids, Hedge.labels_map,
        Hedge.labels_map, zip_ids_eq_pairedIds]
    rw [hcopies] at hsource ⊢
    obtain ⟨nodes, hnodes, hsame⟩ := List.mem_map.mp hsource
    obtain ⟨rfl, rfl⟩ := Prod.mk.inj hsame
    obtain ⟨found, hfound, rfl⟩ := Hedge.mem_labels_iff.mp hnodes
    have hfirstTree : forest.tree? found.root.1.id = some (found.map Prod.fst) := by
      have hmem := List.mem_map_of_mem (f := Tree.map Prod.fst) hfound
      rw [← Hedge.subtrees_map, hfirst, Hedge.subtrees_toHedge] at hmem
      exact tree?_of_mem hforest.nodup
        ((Hedge.sublist_of_mem_subtrees (mem_subtrees_of_tree? htree).1).subset hmem)
    have hsecondTree : (forest.copy tree).2.tree? found.root.2.id =
        some (found.map Prod.snd) := by
      have hmem := List.mem_map_of_mem (f := Tree.map Prod.snd) hfound
      rw [← Hedge.subtrees_map, hsecond] at hmem
      exact (hforest.mem_subtrees_copy hmem).2
    rw [below_of_tree? hfirstTree, below_of_tree? hsecondTree, Hedge.below_map, Hedge.below_map,
      zip_ids_eq_pairedIds] at hpair
    obtain ⟨inner, hinner, rfl⟩ := List.mem_map.mp hpair
    exact List.mem_map_of_mem (Hedge.mem_labels_of_below hfound hinner)

end WellFormed

/-- What attaching a node by a copy comes to. -/
structure AttachesCopy (before : Forest) (above id : NodeId) (copying : List AttachEvent)
    (copy : NodeId) (copied after : Forest) : Prop where
  copies : ∀ depth, 2 * (before.idsWithin id).length ≤ depth →
    before.tryCopy depth id = some (copying, copy, copied)
  copied_once : before.CopiedOnce id copying copy copied
  /-- To attach the copy one attempt is enough, so this goes no deeper. -/
  attaches_copy : ∀ depth,
    copied.tryAttach (depth + 1) above copy = some ([.linked copy above], copy, after)
  attaches : ∀ depth, 2 * (before.idsWithin id).length < depth →
    before.tryAttach depth above id =
      some (.refused id above :: (copying ++ [.linked copy above]), copy, after)
  link_copy : after.link? copy = some above
  ids_eq : after.ids = before.ids ++ after.idsWithin copy
  length_eq : (after.idsWithin copy).length = (before.idsWithin id).length
  links_kept : ∀ other ∈ before.ids, after.link? other = before.link? other

/-- What attaching comes to in a forest, whatever the node and wherever it is to stand. -/
structure AttachesAtOnce (forest : Forest) : Prop where
  /-- Copying comes to an end, with what `copy` makes. -/
  copies : ∀ id ∈ forest.ids, ∃ tree events, forest.tree? id = some tree ∧
    (∀ depth, 2 * (forest.idsWithin id).length ≤ depth →
      forest.tryCopy depth id = some (events, forest.copy tree)) ∧
    forest.CopiedOnce id events (forest.copy tree).1 (forest.copy tree).2
  /-- Attaching comes to an end, with what `attach` makes. -/
  attaches : ∀ above, ∀ id ∈ forest.ids, ∃ events entry after,
    (∀ depth, 2 * (forest.idsWithin id).length < depth →
      forest.tryAttach depth above id = some (events, entry, after)) ∧
    forest.attach above id = (some entry, after)
  attaches_itself : ∀ above, ∀ id ∈ forest.ids, forest.link? id = none → ∀ depth,
    forest.tryAttach (depth + 1) above id = some ([.linked id above], id, forest.link above id)
  attaches_copy : ∀ above, ∀ id ∈ forest.ids, forest.link? id ≠ none →
    ∃ copying copy copied after, forest.AttachesCopy above id copying copy copied after

namespace WellFormed

variable (hforest : forest.WellFormed)

include hforest

theorem attachesCopy (htree : forest.tree? id = some tree) (hlink : forest.link? id ≠ none)
    (above : NodeId) :
    forest.AttachesCopy above id (tree.copyEvents forest.next) forest.next
      (forest.copy tree).2 ((forest.copy tree).2.link above forest.next) := by
  have honce := hforest.copiedOnce htree
  have hnext := next_mem_ids_copy hforest tree
  have hwithin := (grows_link (forest.copy tree).2 above forest.next).keeps.idsWithin_eq hnext
  refine {
    copies := fun _ hdepth => hforest.tryCopy_eq htree hdepth
    copied_once := honce
    attaches_copy := fun depth => tryAttach_of_unlinked honce.link_copy depth above
    attaches := fun _ hdepth => hforest.tryAttach_of_linked htree hlink hdepth above
    link_copy := by rw [link?_link hnext, if_pos rfl]
    ids_eq := by rw [ids_link, hwithin, honce.ids_eq]
    length_eq := by rw [hwithin, honce.length_eq]
    links_kept := ?links_kept }
  case links_kept =>
    intro other hother
    -- The one link that is made outside the copy is that of its root, which is new.
    have hne : other ≠ forest.next := Nat.ne_of_lt (hforest.lt_next other hother)
    rw [link?_link hnext, if_neg hne, honce.links_kept other hother]

theorem attaches : forest.AttachesAtOnce where
  copies id hid := by
    obtain ⟨tree, htree⟩ := mem_ids_iff.mp hid
    exact ⟨tree, _, htree, fun _ hdepth => hforest.tryCopy_eq htree hdepth,
      hforest.copiedOnce htree⟩
  attaches above id hid := hforest.exists_tryAttach hid above
  attaches_itself above _ _ hlink depth := tryAttach_of_unlinked hlink depth above
  attaches_copy above id hid hlink := by
    obtain ⟨tree, htree⟩ := mem_ids_iff.mp hid
    exact ⟨_, _, _, _, hforest.attachesCopy htree hlink above⟩

end WellFormed

/-- Attaching ends after one copy at most, in every forest that can be reached and at every
point of a build in it, whatever was attached before. -/
theorem Reachable.attachesAtOnce (hforest : forest.Reachable) (handed : List NodeId) :
    forest.AttachesAtOnce ∧
      (forest.reserve.2.attachAll forest.next handed).2.AttachesAtOnce := by
  have hbuilding := hforest.wellFormed.awaits_reserve.attachAll handed
  exact ⟨hforest.wellFormed.attaches, hbuilding.wellFormed.attaches⟩

/-- A document over an element with an attribute and another element, which has a text. -/
def nestedForest : Forest :=
  let sown := (Forest.empty.sow (.ofAttribute "a" "1")).2
  let sown := (sown.sow (.text "t")).2
  let inner := ((Builder.mk (.ofElement "f") [] [1]).build sown).2
  let outer := ((Builder.mk (.ofElement "e") [0] [2]).build inner).2
  ((Builder.mk .document [] [3]).build outer).2

/-- The outer element is handed to another builder twice, and this is what happens when it comes
for the second time. -/
theorem attachesAtOnce_nested :
    nestedForest.Reachable ∧ nestedForest.AttachesAtOnce ∧
      (nestedForest.reserve.2.attachAll nestedForest.next [3]).2.AttachesAtOnce ∧
      ((nestedForest.reserve.2.attachAll nestedForest.next [3]).2.tryAttach 9 5 3).map Prod.fst =
        some [.refused 3 5, .begun 3 10, .begun 0 11, .linked 11 10, .begun 2 12, .begun 1 13,
          .linked 13 12, .linked 12 10, .linked 10 5] := by
  have hreachable : nestedForest.Reachable :=
    ((((Reachable.empty.sow _).sow _).build _).build _).build _
  obtain ⟨hreached, hbuilding⟩ := hreachable.attachesAtOnce [3]
  exact ⟨hreachable, hreached, hbuilding, by decide +kernel⟩

end Forest

end XPathTree

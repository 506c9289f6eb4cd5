import XPathTree.Proofs.Forest.Reachable

/-! # What building does to identities

Which nodes stand under a node that was built, and what has become of the others: a
node moves under the new one at most once and only if it was never put under any. In
all its other places there are copies, and nothing else changes.
-/

namespace XPathTree

open Forest

variable {forest : Forest}

/-- What a builder hands over, attributes before children. -/
def Builder.handed (builder : Builder) : List NodeId := builder.attributes ++ builder.children

/-- The effect of a build that leads from one forest to another and makes `root`. -/
structure Builder.Effect (builder : Builder) (before : Forest) (root : NodeId) (after : Forest) :
    Prop where
  root_new : root ∉ before.ids
  root_content : after.content? root = some builder.container.content
  root_loose : after.parent? root = none
  length_attributes : (after.attributes root).length = builder.attributes.length
  length_children : (after.children root).length = builder.children.length
  /-- A node is put in place itself if its link was not made before the build and the node
  did not come earlier. -/
  placed : ∀ (place : Nat) (id entry : NodeId), builder.handed[place]? = some id →
    (after.below root)[place]? = some entry → before.link? id = none →
      id ∉ builder.handed.take place → entry = id
  /-- Otherwise a copy is, and all of its nodes are new. -/
  copied : ∀ (place : Nat) (id entry : NodeId), builder.handed[place]? = some id →
    (after.below root)[place]? = some entry →
      before.link? id ≠ none ∨ id ∈ builder.handed.take place →
        after.contents? entry = before.contents? id ∧
          ∀ inner ∈ after.idsWithin entry, inner ∉ before.ids
  /-- What stands in one place has no node in common with what stands in another. -/
  apart : (after.below root).Pairwise fun first second =>
    (after.idsWithin first).Disjoint (after.idsWithin second)
  content_kept : ∀ id ∈ before.ids, after.content? id = before.content? id
  attributes_kept : ∀ id ∈ before.ids, after.attributes id = before.attributes id
  children_kept : ∀ id ∈ before.ids, after.children id = before.children id
  parent_eq : ∀ id ∈ before.ids, after.parent? id =
    if id ∈ builder.handed ∧ before.link? id = none then some root else before.parent? id
  /-- A node whose former parent is gone stays without one. -/
  orphan_left : ∀ id ∈ before.ids, before.link? id ≠ none → before.parent? id = none →
    after.parent? id = none ∧ id ∉ after.below root

namespace Builder

theorem content?_build_self (builder : Builder) (hforest : forest.WellFormed) :
    (builder.build forest).2.content? forest.next = some builder.container.content := by
  rw [build_eq, content?, (builder.awaits_attached hforest).tree?_assemble_self]
  rfl

/-- The link of the new node is still to be made. -/
theorem parent?_build_self (builder : Builder) (hforest : forest.WellFormed) :
    (builder.build forest).2.parent? forest.next = none := by
  rw [build_eq, parent?, link?, (builder.awaits_attached hforest).tree?_assemble_self]
  rfl

theorem attributes_build (builder : Builder) (hforest : forest.WellFormed) :
    (builder.build forest).2.attributes forest.next = (builder.attachedAttributes forest).1 :=
  (builder.awaits_attached hforest).attributes_assemble _

theorem children_build (builder : Builder) (hforest : forest.WellFormed) :
    (builder.build forest).2.children forest.next = (builder.attachedChildren forest).1 :=
  (builder.awaits_attached hforest).children_assemble _

theorem link?_build (builder : Builder) (hforest : forest.WellFormed) {id : NodeId}
    (hid : id ∈ forest.ids) :
    (builder.build forest).2.link? id =
      if id ∈ builder.handed ∧ forest.link? id = none then some forest.next
      else forest.link? id := by
  have hattached := hforest.awaits_reserve.link?_attachAll
    (builder.attributes ++ builder.children) hid
  rw [attachAll_handed] at hattached
  have hthere := (builder.grows_attached forest).keeps.mem_ids hid
  rw [build_eq, (builder.awaits_attached hforest).link?_assemble hthere, hattached]
  rfl

/-- A parent changes only for a node that is put in place itself. -/
theorem parent?_build (builder : Builder) (hforest : forest.WellFormed) {id : NodeId}
    (hid : id ∈ forest.ids) :
    (builder.build forest).2.parent? id =
      if id ∈ builder.handed ∧ forest.link? id = none then some forest.next
      else forest.parent? id := by
  have hlink := builder.link?_build hforest hid
  split at hlink
  next hmoved =>
    have hroot : forest.next ∈ (builder.build forest).2.ids :=
      ((builder.awaits_attached hforest).ids_assemble_perm _).mem_iff.mpr List.mem_cons_self
    rw [if_pos hmoved]
    exact parent?_iff_linked.mpr ⟨hlink, hroot⟩
  next hstays =>
    rw [if_neg hstays]
    exact (builder.grows_build hforest).parent?_eq hforest hlink

/-- Each node that was handed over has its place, in the order of the handing over. -/
theorem placed_build (builder : Builder) (hforest : forest.WellFormed)
    (hhanded : ∀ id ∈ builder.handed, id ∈ forest.ids) (place : Nat) {id entry : NodeId}
    (hid : builder.handed[place]? = some id)
    (hentry : ((builder.build forest).2.below forest.next)[place]? = some entry) :
    Placed forest.reserve.2 (builder.build forest).2 (builder.handed.take place) id entry := by
  have hawaits := builder.awaits_attached hforest
  have hplaced := (hforest.awaits_reserve.placed_attachAll
    (builder.attributes ++ builder.children) hhanded).2
  rw [attachAll_handed] at hplaced
  rw [below, builder.attributes_build hforest, builder.children_build hforest] at hentry
  apply (hplaced place id entry hid hentry).keeps _ (hawaits.keeps_assemble _)
  apply mem_ids_of_link?
  exact (hawaits.linked_iff entry).mpr (List.mem_of_getElem? hentry)

/-- Nothing that was handed over is left out. -/
theorem length_build (builder : Builder) (hforest : forest.WellFormed)
    (hhanded : ∀ id ∈ builder.handed, id ∈ forest.ids) :
    ((builder.build forest).2.attributes forest.next).length = builder.attributes.length ∧
      ((builder.build forest).2.children forest.next).length = builder.children.length := by
  obtain ⟨hattributes, hchildren⟩ := List.forall_mem_append.mp hhanded
  have hawaits := hforest.awaits_reserve.attachAll builder.attributes
  have hgrows := grows_attachAll forest.reserve.2 forest.next builder.attributes
  rw [builder.attributes_build hforest, builder.children_build hforest]
  refine ⟨(hforest.awaits_reserve.placed_attachAll builder.attributes hattributes).1, ?_⟩
  apply (hawaits.placed_attachAll builder.children _).1
  exact fun id hid => hgrows.keeps.mem_ids (hchildren id hid)

end Builder

/-- Building over nodes that are there moves those that were never put under any, once
each, copies the others, and leaves everything else as it is. -/
theorem Forest.Reachable.effect_build (hforest : forest.Reachable) (builder : Builder)
    (hhanded : ∀ id ∈ builder.attributes ++ builder.children, id ∈ forest.ids) :
    builder.Effect forest (builder.build forest).1 (builder.build forest).2 := by
  have hbefore := hforest.wellFormed
  have hafter := builder.wellFormed_build hbefore
  have hgrows := builder.grows_build hbefore
  have hlengths := builder.length_build hbefore hhanded
  have hnew : ∀ id ∈ forest.ids, id < forest.next := hbefore.lt_next
  refine {
    root_new := fun hold => Nat.lt_irrefl _ (hnew _ hold)
    root_content := builder.content?_build_self hbefore
    root_loose := builder.parent?_build_self hbefore
    length_attributes := hlengths.1
    length_children := hlengths.2
    placed := ?placed
    copied := ?copied
    apart := (List.nodup_flatMap.mp (hafter.nodup_idsWithin _)).2
    content_kept := fun id hid => hgrows.keeps.content?_eq hid
    attributes_kept := fun id hid => hgrows.keeps.attributes_eq hid
    children_kept := fun id hid => hgrows.keeps.children_eq hid
    parent_eq := fun id hid => builder.parent?_build hbefore hid
    orphan_left := ?orphan_left }
  case placed =>
    intro place id entry hid hentry hlink hfirst
    exact (builder.placed_build hbefore hhanded place hid hentry).eq_self hlink hfirst
  case copied =>
    intro place id entry hid hentry hagain
    obtain ⟨hcontents, hids⟩ :=
      (builder.placed_build hbefore hhanded place hid hentry).is_copy hagain
    refine ⟨hcontents, fun inner hinner hold => ?_⟩
    -- The copies are numbered after the root, and the root after all that was there.
    exact Nat.lt_asymm (hids inner hinner) (hnew inner hold)
  case orphan_left =>
    intro id hid hlink hparent
    have hstays : (builder.build forest).2.parent? id = none := by
      rw [builder.parent?_build hbefore hid, if_neg fun hmoved => hlink hmoved.2, hparent]
    refine ⟨hstays, ?_⟩
    intro hbelow
    rw [hafter.parent?_eq_some_iff.mpr hbelow] at hstays
    simp at hstays

/-- An attribute and an element that were never handed over, and a text that has lost
the element it was under. -/
def orphaningForest : Forest :=
  let sown := (Forest.empty.sow (.ofAttribute "a" "1")).2
  let sown := (sown.sow (.text "t")).2
  let built := ((Builder.mk (.ofElement "e") [] [1]).build sown).2
  let orphaned := built.retain [0, 1]
  ((Builder.mk (.ofElement "f") [] [1]).build orphaned).2

/-- Hands over the attribute and the element twice each, and the text between. -/
def repeatingBuilder : Builder := ⟨.ofElement "g", [0, 0], [3, 1, 3]⟩

theorem effect_build_repeating :
    orphaningForest.Reachable ∧
      (repeatingBuilder.build orphaningForest).2.below 5 = [0, 6, 3, 7, 8] ∧
      repeatingBuilder.Effect orphaningForest (repeatingBuilder.build orphaningForest).1
        (repeatingBuilder.build orphaningForest).2 := by
  have hreachable : orphaningForest.Reachable :=
    ((((Reachable.empty.sow _).sow _).build _).retain _).build _
  refine ⟨hreachable, ?_, hreachable.effect_build repeatingBuilder ?_⟩
  · decide +kernel
  · decide +kernel

end XPathTree

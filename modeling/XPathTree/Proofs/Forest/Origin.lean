import XPathTree.Proofs.Forest.Ways

/-! # Where nodes come from

Building adds the new node and the nodes of the copies that stand under it, and no others. So
each node that is there afterwards was there before, is the new one, or stands where the node
that it is a copy of stood within what was handed over.
-/

namespace XPathTree

namespace Forest

variable {forest : Forest} {above id inner : NodeId} {attached : List NodeId}

/-- What attaching a node adds is within the copy that it attaches. -/
theorem WellFormed.mem_ids_attach (hforest : forest.WellFormed)
    (hinner : inner ∈ (forest.attach above id).2.ids) :
    inner ∈ forest.ids ∨ ∃ entry, (forest.attach above id).1 = some entry ∧
      inner ∈ (forest.attach above id).2.idsWithin entry := by
  rcases forest.attach_cases above id with ⟨_, hattach⟩ | ⟨_, _, hattach⟩ | ⟨tree, _, _, hattach⟩
  · rw [hattach] at hinner
    exact Or.inl hinner
  · rw [hattach, ids_link] at hinner
    exact Or.inl hinner
  · rw [hattach, ids_link, ids_copy] at hinner
    rcases List.mem_append.mp hinner with hold | hnew
    · exact Or.inl hold
    · obtain ⟨copied, hcopied, _, _, hids⟩ := tree?_copy_next hforest tree
      have hkeeps := (grows_link (forest.copy tree).2 above forest.next).keeps
      rw [hattach]
      refine Or.inr ⟨forest.next, rfl, ?_⟩
      rw [hkeeps.idsWithin_eq (next_mem_ids_copy hforest tree)]
      exact mem_idsWithin_iff.mpr ⟨copied, hcopied, hids ▸ hnew⟩

/-- What is added one after another is within one of the entries. -/
theorem Awaits.mem_ids_attachAll (hawaits : forest.Awaits above attached) (ids : List NodeId)
    (hinner : inner ∈ (forest.attachAll above ids).2.ids) :
    inner ∈ forest.ids ∨ ∃ entry ∈ (forest.attachAll above ids).1,
      inner ∈ (forest.attachAll above ids).2.idsWithin entry := by
  induction ids generalizing forest attached with
  | nil => exact Or.inl hinner
  | cons id ids ih =>
      rw [attachAll_cons] at hinner ⊢
      rcases ih (hawaits.attach id) hinner with hmiddle | ⟨entry, hentry, hwithin⟩
      · rcases hawaits.wellFormed.mem_ids_attach hmiddle with hold | ⟨entry, hentry, hwithin⟩
        · exact Or.inl hold
        · -- The copy was made in this step and is left as it is by those that follow.
          obtain ⟨tree, htree, _⟩ := mem_idsWithin_iff.mp hwithin
          have hthere := mem_ids_iff.mpr ⟨tree, htree⟩
          rw [← (grows_attachAll _ above ids).keeps.idsWithin_eq hthere] at hwithin
          exact Or.inr ⟨entry, List.mem_append_left _ (by simp [hentry]), hwithin⟩
      · exact Or.inr ⟨entry, List.mem_append_right _ hentry, hwithin⟩

end Forest

namespace Builder

open Forest

variable {forest : Forest} {id inner source copy : NodeId}

theorem mem_ids_build (builder : Builder) (hforest : forest.WellFormed)
    (hinner : inner ∈ (builder.build forest).2.ids) :
    inner ∈ forest.ids ∨ inner = forest.next ∨
      ∃ entry ∈ (builder.build forest).2.below forest.next,
        inner ∈ (builder.build forest).2.idsWithin entry := by
  have hawaits := builder.awaits_attached hforest
  rw [build_eq] at hinner
  rcases List.mem_cons.mp ((hawaits.ids_assemble_perm _).mem_iff.mp hinner) with rfl | hinner
  · exact Or.inr (Or.inl rfl)
  · have hrun := builder.attachAll_handed forest
    have hthere : inner ∈ (forest.reserve.2.attachAll forest.next
        (builder.attributes ++ builder.children)).2.ids := by
      rw [hrun]
      exact hinner
    have hattached := hforest.awaits_reserve.mem_ids_attachAll _ hthere
    rw [hrun] at hattached
    rcases hattached with hold | ⟨entry, hentry, hwithin⟩
    · exact Or.inl hold
    · refine Or.inr (Or.inr ⟨entry, ?_, ?_⟩)
      · rwa [below, builder.attributes_build hforest, builder.children_build hforest]
      · obtain ⟨tree, htree, _⟩ := mem_idsWithin_iff.mp hwithin
        rw [build_eq, (hawaits.keeps_assemble _).idsWithin_eq (mem_ids_iff.mpr ⟨tree, htree⟩)]
        exact hwithin

/-- A build makes `copy` as a copy of `source`: the two stand in the same position, below what
was handed over and below what has its place under the new node. -/
def Copies (builder : Builder) (before : Forest) (source copy : NodeId) : Prop :=
  copy ∉ before.ids ∧ ∃ (place : Nat) (id entry : NodeId) (path : List Hop),
    builder.handed[place]? = some id ∧
      ((builder.build before).2.below (builder.build before).1)[place]? = some entry ∧
      (∀ hop ∈ path, hop.Descends) ∧ Source.walk? before id path = some source ∧
      Source.walk? (builder.build before).2 entry path = some copy

/-- A copy has the shape of what it is a copy of. -/
theorem Copies.contents?_eq {builder : Builder} (hcopy : builder.Copies forest source copy)
    (hforest : forest.WellFormed) (hhanded : ∀ id ∈ builder.handed, id ∈ forest.ids) :
    (builder.build forest).2.contents? copy = forest.contents? source := by
  obtain ⟨_, place, id, entry, path, hplace, hentry, hdown, hsource, hcopy⟩ := hcopy
  obtain ⟨counterpart, hcounterpart, hshape⟩ :=
    exists_getElem?_of_map_eq (builder.map_contents?_build hforest hhanded) hplace
  obtain rfl := Option.some.inj (hentry.symm.trans hcounterpart)
  obtain ⟨reached, _, _, hreached, hcontents, _⟩ :=
    exists_walk?_of_contents? hforest (builder.wellFormed_build hforest) hdown hshape hsource
  obtain rfl := Option.some.inj (hcopy.symm.trans hreached)
  exact hcontents

/-- A node that is there after a build was there before, is the new one, or is a copy. -/
theorem exists_origin (builder : Builder) (hforest : forest.WellFormed)
    (hhanded : ∀ id ∈ builder.handed, id ∈ forest.ids)
    (hinner : inner ∈ (builder.build forest).2.ids) :
    inner ∈ forest.ids ∨ inner = forest.next ∨
      ∃ source ∈ forest.ids, builder.Copies forest source inner := by
  by_cases hold : inner ∈ forest.ids
  · exact Or.inl hold
  have hafter := builder.wellFormed_build hforest
  rcases builder.mem_ids_build hforest hinner with hthere | hroot | ⟨entry, hentry, hwithin⟩
  · exact absurd hthere hold
  · exact Or.inr (Or.inl hroot)
  · obtain ⟨place, hplace⟩ := List.getElem?_of_mem hentry
    obtain ⟨id, hid, hshape⟩ :=
      exists_getElem?_of_map_eq (builder.map_contents?_build hforest hhanded).symm hplace
    obtain ⟨path, hdown, hwalk⟩ :=
      hafter.exists_walk?_of_mem_idsWithin (hafter.mem_ids_of_mem_below hentry) hwithin
    obtain ⟨source, _, _, hsource, hsame, _⟩ :=
      exists_walk?_of_contents? hafter hforest hdown hshape hwalk
    obtain ⟨shape, hinnerShape⟩ := exists_contents? hinner
    have hthere := mem_ids_of_contents? (hsame.trans hinnerShape)
    exact Or.inr (Or.inr ⟨source, hthere, hold, place, id, entry, path, hid, hplace, hdown,
      hsource, hwalk⟩)

end Builder

end XPathTree

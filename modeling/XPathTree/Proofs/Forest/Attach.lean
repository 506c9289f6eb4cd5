import XPathTree.Proofs.Forest.Grows

/-! # Attaching nodes

What becomes of the nodes that are handed over for a new one, one after another: a link
is made only where there was none, and a copy is made otherwise. The invariant of the
run is `Forest.Awaits`: exactly the nodes attached so far are linked to the one that is
still to be made.
-/

namespace XPathTree.Forest

variable {forest before middle after : Forest} {id above entry : NodeId}

/-! ## Attaching one node -/

/-- What attaching can do: nothing where there is no such node, a link where none was
made before, and else a copy with its link made. -/
theorem attach_cases (forest : Forest) (above id : NodeId) :
    (id ∉ forest.ids ∧ forest.attach above id = (none, forest)) ∨
      (id ∈ forest.ids ∧ forest.link? id = none ∧
        forest.attach above id = (some id, forest.link above id)) ∨
      ∃ tree, forest.tree? id = some tree ∧ forest.link? id ≠ none ∧
        forest.attach above id =
          (some forest.next, (forest.copy tree).2.link above forest.next) := by
  cases htree : forest.tree? id with
  | none => exact Or.inl ⟨tree?_eq_none_iff.mp htree, by simp [attach, htree]⟩
  | some tree =>
      right
      cases hlink : tree.root.link with
      | none =>
          left
          exact ⟨mem_ids_iff.mpr ⟨tree, htree⟩, by simp [link?, htree, hlink],
            by simp [attach, htree, hlink]⟩
      | some other =>
          right
          exact ⟨tree, rfl, by simp [link?, htree, hlink], by simp [attach, htree, hlink, copy]⟩

theorem grows_attach (forest : Forest) (above id : NodeId) :
    forest.Grows (forest.attach above id).2 := by
  rcases forest.attach_cases above id with ⟨_, hattach⟩ | ⟨_, _, hattach⟩ | ⟨tree, _, _, hattach⟩
  · rw [hattach]
    exact .refl forest
  · rw [hattach]
    exact grows_link forest above id
  · rw [hattach]
    exact (grows_copy forest tree).trans (grows_link _ above _)

/-- The node `above` is still to be made, and it is the one that exactly the nodes of
`attached` are linked to. -/
structure Awaits (forest : Forest) (above : NodeId) (attached : List NodeId) : Prop where
  wellFormed : forest.WellFormed
  absent : above ∉ forest.ids
  reserved : above < forest.next
  nodup : attached.Nodup
  linked_iff : ∀ id, forest.link? id = some above ↔ id ∈ attached

variable {attached : List NodeId}

/-- Making the link of a node that has none attaches it. -/
theorem Awaits.link (hawaits : forest.Awaits above attached) (hid : id ∈ forest.ids)
    (hlink : forest.link? id = none) :
    (forest.link above id).Awaits above (attached ++ [id]) where
  wellFormed := hawaits.wellFormed.link hlink hawaits.absent hawaits.reserved
  absent := by
    rw [ids_link]
    exact hawaits.absent
  reserved := hawaits.reserved
  nodup := by
    apply List.nodup_append.mpr
    refine ⟨hawaits.nodup, List.nodup_singleton id, ?_⟩
    intro other hother last hlast hsame
    rw [List.mem_singleton] at hlast
    subst hlast
    subst hsame
    rw [(hawaits.linked_iff other).mpr hother] at hlink
    simp at hlink
  linked_iff other := by
    rw [link?_link hid, List.mem_append, List.mem_singleton, ← hawaits.linked_iff other]
    by_cases hsame : other = id <;> simp [hsame]

/-- A copy is linked to nothing, and no link inside it leads out of it. -/
theorem Awaits.copy (hawaits : forest.Awaits above attached) (tree : Tree Node) :
    (forest.copy tree).2.Awaits above attached := by
  have hcopy := hawaits.wellFormed.copy tree
  have habsent : above ∉ (forest.copy tree).2.ids := by
    rw [ids_copy]
    intro hmem
    rcases List.mem_append.mp hmem with hold | hnew
    · exact hawaits.absent hold
    · exact Nat.not_le_of_lt hawaits.reserved (List.mem_range'_1.mp hnew).1
  refine ⟨hcopy, habsent, Nat.lt_of_lt_of_le hawaits.reserved (Nat.le_add_right _ _),
    hawaits.nodup, ?_⟩
  intro id
  rw [← hawaits.linked_iff id]
  constructor
  · -- The node above is not there, so whatever is linked to it is a root, and no copied
    -- root has a link.
    intro hlink
    obtain ⟨node, hnode, rfl, habove⟩ := exists_node_of_link? hlink
    have hroot := hcopy.mem_roots_of_unlinked hnode fun other hother hlinkOther =>
      habsent (Option.some.inj (habove.symm.trans hlinkOther) ▸ hother)
    rw [Forest.copy, Hedge.roots_append] at hroot
    rcases List.mem_append.mp hroot with hold | hnew
    · rw [hawaits.wellFormed.link?_eq (Hedge.mem_labels_of_mem_roots hold), habove]
    · simp [Hedge.roots_copy _ _ node hnew] at habove
  · intro hlink
    rw [link?_copy _ (mem_ids_of_link? hlink), hlink]

/-- Attaching a node keeps what is awaited, with that node or its copy attached. -/
theorem Awaits.attach (hawaits : forest.Awaits above attached) (id : NodeId) :
    (forest.attach above id).2.Awaits above
      (attached ++ (forest.attach above id).1.toList) := by
  rcases forest.attach_cases above id with ⟨_, hattach⟩ | ⟨hid, hlink, hattach⟩ |
    ⟨tree, _, _, hattach⟩
  · rw [hattach]
    simpa using hawaits
  · rw [hattach]
    exact hawaits.link hid hlink
  · rw [hattach]
    exact (hawaits.copy tree).link (next_mem_ids_copy hawaits.wellFormed tree)
      (link?_copy_next hawaits.wellFormed tree)

theorem link?_attach (hforest : forest.WellFormed) (above id : NodeId) {other : NodeId}
    (hother : other ∈ forest.ids) :
    (forest.attach above id).2.link? other =
      if other = id ∧ forest.link? other = none then some above else forest.link? other := by
  rcases forest.attach_cases above id with ⟨habsent, hattach⟩ | ⟨hid, hlink, hattach⟩ |
    ⟨tree, _, hlink, hattach⟩
  · have hne : other ≠ id := by
      rintro rfl
      exact habsent hother
    rw [hattach, if_neg fun hsame => hne hsame.1]
  · rw [hattach, link?_link hid]
    by_cases hsame : other = id
    · simp [hsame, hlink]
    · simp [hsame]
  · -- The link that is made is that of the copy, which is none of the nodes that were there.
    have hne : other ≠ forest.next := Nat.ne_of_lt (hforest.lt_next other hother)
    rw [hattach, link?_link (next_mem_ids_copy hforest tree), if_neg hne,
      link?_copy tree hother, if_neg]
    rintro ⟨rfl, hnone⟩
    exact hlink hnone

/-! ## Attaching one after another -/

@[simp] theorem attachAll_nil (forest : Forest) (above : NodeId) :
    forest.attachAll above [] = ([], forest) := rfl

theorem attachAll_cons (forest : Forest) (above id : NodeId) (ids : List NodeId) :
    forest.attachAll above (id :: ids) =
      ((forest.attach above id).1.toList ++
          ((forest.attach above id).2.attachAll above ids).1,
        ((forest.attach above id).2.attachAll above ids).2) := rfl

theorem attachAll_append (forest : Forest) (above : NodeId) (first second : List NodeId) :
    forest.attachAll above (first ++ second) =
      ((forest.attachAll above first).1 ++
          ((forest.attachAll above first).2.attachAll above second).1,
        ((forest.attachAll above first).2.attachAll above second).2) := by
  induction first generalizing forest with
  | nil => rfl
  | cons id ids ih =>
      rw [List.cons_append, attachAll_cons, attachAll_cons, ih]
      simp

theorem grows_attachAll (forest : Forest) (above : NodeId) (ids : List NodeId) :
    forest.Grows (forest.attachAll above ids).2 := by
  induction ids generalizing forest with
  | nil => exact .refl forest
  | cons id ids ih => exact (grows_attach forest above id).trans (ih _)

theorem Awaits.attachAll (hawaits : forest.Awaits above attached) (ids : List NodeId) :
    (forest.attachAll above ids).2.Awaits above
      (attached ++ (forest.attachAll above ids).1) := by
  induction ids generalizing forest attached with
  | nil =>
      rw [attachAll_nil, List.append_nil]
      exact hawaits
  | cons id ids ih =>
      rw [attachAll_cons, ← List.append_assoc]
      exact ih (hawaits.attach id)

/-- A link that was made stays. One that was not is made when its node comes. -/
theorem Awaits.link?_attachAll (hawaits : forest.Awaits above attached) (ids : List NodeId)
    {other : NodeId} (hother : other ∈ forest.ids) :
    (forest.attachAll above ids).2.link? other =
      if other ∈ ids ∧ forest.link? other = none then some above else forest.link? other := by
  induction ids generalizing forest attached with
  | nil => simp
  | cons id ids ih =>
      have hmiddle := (grows_attach forest above id).keeps.mem_ids hother
      rw [attachAll_cons, ih (hawaits.attach id) hmiddle,
        link?_attach hawaits.wellFormed above id hother]
      by_cases hsame : other = id
      · subst hsame
        by_cases hlink : forest.link? other = none <;> simp [hlink]
      · simp [hsame]

/-! ## What is attached -/

/-- What takes the place of a node: the node itself if its link was not made before and
it did not come earlier, and else a copy made of new nodes. -/
def Placed (before after : Forest) (earlier : List NodeId) (id entry : NodeId) : Prop :=
  if before.link? id = none ∧ id ∉ earlier then entry = id
  else after.contents? entry = before.contents? id ∧
    ∀ inner ∈ after.idsWithin entry, before.next ≤ inner

theorem Placed.eq_self {earlier : List NodeId} (hplaced : Placed before after earlier id entry)
    (hlink : before.link? id = none) (hfirst : id ∉ earlier) : entry = id := by
  rwa [Placed, if_pos ⟨hlink, hfirst⟩] at hplaced

theorem Placed.is_copy {earlier : List NodeId} (hplaced : Placed before after earlier id entry)
    (hagain : before.link? id ≠ none ∨ id ∈ earlier) :
    after.contents? entry = before.contents? id ∧
      ∀ inner ∈ after.idsWithin entry, before.next ≤ inner := by
  rwa [Placed, if_neg] at hplaced
  rintro ⟨hlink, hfirst⟩
  rcases hagain with hlinked | hearlier
  · exact hlinked hlink
  · exact hfirst hearlier

theorem Placed.keeps {earlier : List NodeId} (hplaced : Placed before middle earlier id entry)
    (hentry : entry ∈ middle.ids) (hkeeps : middle.Keeps after) :
    Placed before after earlier id entry := by
  unfold Placed at hplaced ⊢
  rw [hkeeps.contents?_eq hentry, hkeeps.idsWithin_eq hentry]
  exact hplaced

/-- A node that comes later finds itself linked if it came before, and all else as it was. -/
theorem Placed.attach (hbefore : before.WellFormed) {first : NodeId} (hid : id ∈ before.ids)
    {earlier : List NodeId}
    (hplaced : Placed (before.attach above first).2 after earlier id entry) :
    Placed before after (first :: earlier) id entry := by
  have hgrows := grows_attach before above first
  unfold Placed at hplaced ⊢
  rw [link?_attach hbefore above first hid, hgrows.keeps.contents?_eq hid] at hplaced
  -- The link was made in this step just if the node itself was the one that came.
  have hiff : ((if id = first ∧ before.link? id = none then some above
      else before.link? id) = none ∧ id ∉ earlier) ↔
      (before.link? id = none ∧ id ∉ first :: earlier) := by
    by_cases hsame : id = first
    · subst hsame
      by_cases hlink : before.link? id = none <;> simp [hlink]
    · simp [hsame]
  rw [if_congr hiff rfl rfl] at hplaced
  split
  next hitself =>
    rw [if_pos hitself] at hplaced
    exact hplaced
  next hcopied =>
    rw [if_neg hcopied] at hplaced
    exact ⟨hplaced.1, fun inner hinner => Nat.le_trans hgrows.next_le (hplaced.2 inner hinner)⟩

/-- A node that is there is attached, in the place that is its due. -/
theorem placed_attach (hforest : forest.WellFormed) (hid : id ∈ forest.ids) (above : NodeId) :
    ∃ entry, (forest.attach above id).1 = some entry ∧
      Placed forest (forest.attach above id).2 [] id entry := by
  rcases forest.attach_cases above id with ⟨habsent, _⟩ | ⟨_, hlink, hattach⟩ |
    ⟨tree, htree, hlink, hattach⟩
  · exact absurd hid habsent
  · refine ⟨id, by rw [hattach], ?_⟩
    rw [Placed, if_pos ⟨hlink, List.not_mem_nil⟩]
  · obtain ⟨copied, hcopied, _, hcontents, hids⟩ := tree?_copy_next hforest tree
    have hnext := next_mem_ids_copy hforest tree
    have hkeeps := (grows_link (forest.copy tree).2 above forest.next).keeps
    refine ⟨forest.next, by rw [hattach], ?_⟩
    rw [Placed, if_neg fun hitself => hlink hitself.1, hattach, hkeeps.contents?_eq hnext,
      hkeeps.idsWithin_eq hnext]
    constructor
    · rw [contents?, contents?, hcopied, htree, Option.map_some, Option.map_some, hcontents]
    · intro inner hinner
      rw [idsWithin_of_tree? hcopied, hids] at hinner
      exact (List.mem_range'_1.mp hinner).1

/-- Every node that is there is attached, each in the place that is its due. -/
theorem Awaits.placed_attachAll (hawaits : forest.Awaits above attached) (ids : List NodeId)
    (hids : ∀ id ∈ ids, id ∈ forest.ids) :
    (forest.attachAll above ids).1.length = ids.length ∧
      ∀ (place : Nat) (id entry : NodeId), ids[place]? = some id →
        (forest.attachAll above ids).1[place]? = some entry →
          Placed forest (forest.attachAll above ids).2 (ids.take place) id entry := by
  induction ids generalizing forest attached with
  | nil => simp
  | cons first ids ih =>
      obtain ⟨hfirst, hids⟩ := List.forall_mem_cons.mp hids
      have hgrows := grows_attach forest above first
      have hnext := hawaits.attach first
      obtain ⟨hlength, hplaced⟩ := ih hnext fun id hid => hgrows.keeps.mem_ids (hids id hid)
      obtain ⟨entry, hattached, hentry⟩ := placed_attach hawaits.wellFormed hfirst above
      rw [attachAll_cons, hattached, Option.toList_some, List.singleton_append]
      refine ⟨congrArg (· + 1) hlength, ?_⟩
      intro place id other hid hother
      cases place with
      | zero =>
          -- The first entry is settled at once and only has to last through the run.
          obtain rfl := Option.some.inj hid
          obtain rfl := Option.some.inj hother
          apply hentry.keeps _ (grows_attachAll _ above ids).keeps
          apply mem_ids_of_link?
          apply (hnext.linked_iff entry).mpr
          simp [hattached]
      | succ place =>
          rw [List.getElem?_cons_succ] at hid hother
          exact (hplaced place id other hid hother).attach hawaits.wellFormed
            (hids id (List.mem_of_getElem? hid))

end XPathTree.Forest

import XPathTree.Proofs.Forest.Identity
import XPathTree.Proofs.Forest.Retain

/-! # Later forests

What is known of a forest from one that came before it, when nodes were made and let go
of in between. No node comes back and no link is changed; a link that is made in between
leads to a node that is made in between.
-/

namespace XPathTree

namespace Forest

variable {forest before middle after : Forest} {id above : NodeId}

/-- Whether the second forest can come about after the first. -/
structure Follows (before after : Forest) : Prop where
  next_le : before.next ≤ after.next
  old : ∀ id ∈ after.ids, id < before.next → id ∈ before.ids
  link_kept : ∀ id ∈ after.ids, ∀ above, before.link? id = some above →
    after.link? id = some above
  link_new : ∀ id ∈ before.ids, before.link? id = none →
    ∀ above, after.link? id = some above → before.next ≤ above

theorem Follows.refl (forest : Forest) : forest.Follows forest where
  next_le := Nat.le_refl _
  old _ hid _ := hid
  link_kept _ _ _ hlink := hlink
  link_new _ _ hnone _ hlink := by
    rw [hnone] at hlink
    cases hlink

theorem Follows.trans (hbefore : before.WellFormed) (hfirst : before.Follows middle)
    (hsecond : middle.Follows after) : before.Follows after where
  next_le := Nat.le_trans hfirst.next_le hsecond.next_le
  old id hid hlt :=
    hfirst.old id (hsecond.old id hid (Nat.lt_of_lt_of_le hlt hfirst.next_le)) hlt
  link_kept := by
    intro id hid above hlink
    -- A node that was there and is there afterwards was there all the time.
    have hlt := Nat.lt_of_lt_of_le (hbefore.lt_next id (mem_ids_of_link? hlink)) hfirst.next_le
    have hmiddle := hsecond.old id hid hlt
    exact hsecond.link_kept id hid above (hfirst.link_kept id hmiddle above hlink)
  link_new := by
    intro id hid hnone above hlink
    have hafter := mem_ids_of_link? hlink
    have hlt := Nat.lt_of_lt_of_le (hbefore.lt_next id hid) hfirst.next_le
    have hmiddle := hsecond.old id hafter hlt
    cases hbetween : middle.link? id with
    | none => exact Nat.le_trans hfirst.next_le (hsecond.link_new id hmiddle hbetween above hlink)
    | some other =>
        have hother := hsecond.link_kept id hafter other hbetween
        obtain rfl := Option.some.inj (hother.symm.trans hlink)
        exact hfirst.link_new id hid hnone other hbetween

/-- A growing forest follows if the links it makes lead to new nodes. -/
theorem Grows.follows (hgrows : before.Grows after)
    (hlink : ∀ id ∈ before.ids, after.link? id = before.link? id ∨
      before.link? id = none ∧ after.link? id = some before.next) : before.Follows after where
  next_le := hgrows.next_le
  old := hgrows.old
  link_kept := by
    intro id _ above hbefore
    rcases hlink id (mem_ids_of_link? hbefore) with hsame | ⟨hnone, _⟩
    · rw [hsame, hbefore]
    · rw [hnone] at hbefore
      cases hbefore
  link_new := by
    intro id hid hnone above hafter
    rcases hlink id hid with hsame | ⟨_, hnew⟩
    · rw [hsame, hnone] at hafter
      cases hafter
    · exact Nat.le_of_eq (Option.some.inj (hnew.symm.trans hafter))

theorem follows_sow (forest : Forest) (content : Content) :
    forest.Follows (forest.sow content).2 := by
  refine (grows_sow forest content).follows fun id hid => Or.inl ?_
  rw [sow_eq_copy, link?_copy _ hid]

theorem WellFormed.follows_build (hforest : forest.WellFormed) (builder : Builder) :
    forest.Follows (builder.build forest).2 := by
  refine (builder.grows_build hforest).follows fun id hid => ?_
  rw [builder.link?_build hforest hid]
  split
  next hmoved => exact Or.inr ⟨hmoved.2, rfl⟩
  next => exact Or.inl rfl

theorem WellFormed.follows_retain (hforest : forest.WellFormed) (held : List NodeId) :
    forest.Follows (forest.retain held) where
  next_le := Nat.le_refl _
  old id hid _ := (forest.ids_retain_sublist held).subset hid
  link_kept id hid above hlink := by rw [hforest.link?_retain hid, hlink]
  link_new := by
    intro id _ hnone above hlink
    rw [hforest.link?_retain (mem_ids_of_link? hlink), hnone] at hlink
    cases hlink

/-- Whatever a plan makes before it ends or fails, the forest follows. -/
theorem WellFormed.follows_carryOut (hforest : forest.WellFormed) (holdings : Holdings NodeId)
    (plan : Plan) : forest.Follows (forest.carryOut holdings plan).2 := by
  let property (later : Forest) : Prop := later.WellFormed ∧ forest.Follows later
  have hrun : (plan.run holdings).Preserves property := by
    refine plan.preserves_run ⟨?_, ?_⟩ holdings
    · rintro later content ⟨hlater, hfollows⟩
      exact ⟨hlater.sow content, hfollows.trans hforest (follows_sow later content)⟩
    · rintro later builder ⟨hlater, hfollows⟩
      exact ⟨builder.wellFormed_build hlater, hfollows.trans hforest (hlater.follows_build builder)⟩
  exact (hrun forest ⟨hforest, .refl forest⟩).2

end Forest

end XPathTree

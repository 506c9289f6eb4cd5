import XPathTree.Proofs.Axis
import XPathTree.Proofs.Forest.Declarations
import XPathTree.Proofs.Forest.Follows

/-! # Links that are made

A link that is made to a node which then goes leaves hardly a trace: the parent was absent
and stays so, and with the parents all that is read on the way up stays. What tells is the
next builder, which copies the node instead of moving it.
-/

namespace XPathTree

/-! ## The axis and the way up -/

/-- An axis depends on the kind of its element and on what is declared along the chain. -/
theorem Host.namespaceAxis_eq_of_declarationsAlong {N : Type} {host other : Host N} {node : N}
    {chain way : List N} (hchain : ParentChain host.parent node chain)
    (hway : ParentChain other.parent node way) (hkind : host.kind node = other.kind node)
    (hdeclarations : host.declarationsAlong chain = other.declarationsAlong way) :
    host.namespaceAxis node = other.namespaceAxis node := by
  have hscope : host.scope node = other.scope node := by
    rw [host.scope_eq_firsts hchain, other.scope_eq_firsts hway, hdeclarations]
  rw [namespaceAxis, namespaceAxis, hkind, axisBindings, axisBindings, bindingsInUse,
    bindingsInUse, hscope]

namespace Forest

variable {before middle after : Forest} {id : NodeId}

section SameParents

variable (hparents : ∀ id ∈ before.ids, after.parent? id = before.parent? id)

include hparents

theorem parentChain_of_parents (hid : id ∈ before.ids) {chain : List NodeId}
    (hchain : ParentChain before.parent? id chain) : ParentChain after.parent? id chain := by
  induction hchain with
  | top hnone => exact .top ((hparents _ hid).trans hnone)
  | step hparent _ ih =>
      exact .step ((hparents _ hid).trans hparent) (ih (before.mem_ids_of_parent? hparent))

variable (hbefore : before.WellFormed) (hkeeps : before.Keeps after) (hid : id ∈ before.ids)

include hbefore hkeeps hid

theorem ownerDocument?_of_parents : after.ownerDocument? id = before.ownerDocument? id := by
  obtain ⟨chain, hchain⟩ := hbefore.exists_parentChain id
  have hkept := parentChain_of_parents hparents hid hchain
  ext document
  rw [ownerDocument?_eq_some_iff hkept, ownerDocument?_eq_some_iff hchain,
    hkeeps.isDocument_iff hid]
  refine and_congr_right fun _ => and_congr_right fun hlast => ?_
  rw [hkeeps.isDocument_iff (mem_ids_of_parentChain hid hchain _ (List.mem_of_getLast? hlast))]

theorem namespaceAxis_of_parents (hafter : after.WellFormed) :
    after.host.namespaceAxis id = before.host.namespaceAxis id := by
  obtain ⟨chain, hchain⟩ := hbefore.exists_parentChain id
  exact Host.namespaceAxis_eq_of_declarationsAlong (parentChain_of_parents hparents hid hchain)
    hchain (kind_eq_of_contents? (hkeeps.contents?_eq hid))
    (hkeeps.declarationsAlong_eq hbefore hafter hid hchain)

end SameParents

/-- Where the same nodes are there later, they have the same parents: what was linked in
between was linked to nodes that are gone. -/
theorem Follows.parent?_eq (hfollows : before.Follows after) (hbefore : before.WellFormed)
    (hids : ∀ id, id ∈ after.ids ↔ id ∈ before.ids) (hid : id ∈ before.ids) :
    after.parent? id = before.parent? id := by
  cases hlink : before.link? id with
  | some above =>
      rw [parent?, parent?, hlink, hfollows.link_kept id ((hids id).mpr hid) above hlink]
      simp only [Option.filter_some, hids]
  | none =>
      have hnone : before.parent? id = none := by rw [parent?, hlink, Option.filter_none]
      rw [hnone, Option.eq_none_iff_forall_ne_some]
      intro above hparent
      obtain ⟨hnew, habove⟩ := parent?_iff_linked.mp hparent
      have hle := hfollows.link_new id hid hlink above hnew
      exact Nat.not_le_of_lt (hbefore.lt_next above ((hids above).mp habove)) hle

/-! ## Which links are made -/

/-- Whether, of the old nodes that had no link yet, just those listed have theirs made. -/
def Links (before : Forest) (old spent : List NodeId) (after : Forest) : Prop :=
  ∀ id ∈ old, after.link? id = none ↔ before.link? id = none ∧ id ∉ spent

variable {old spent others : List NodeId}

theorem Links.refl (forest : Forest) (old : List NodeId) : forest.Links old [] forest := by
  intro id _
  simp

theorem Links.trans (hfirst : before.Links old spent middle)
    (hsecond : middle.Links old others after) : before.Links old (spent ++ others) after := by
  intro id hid
  rw [hsecond id hid, hfirst id hid, List.mem_append, not_or, and_assoc]

/-- Of the nodes listed only the old ones matter. -/
theorem Links.congr (hlinks : before.Links old spent after)
    (hspent : ∀ id ∈ old, id ∈ spent ↔ id ∈ others) : before.Links old others after := by
  intro id hid
  rw [hlinks id hid, hspent id hid]

variable {forest : Forest}

theorem links_sow (hold : ∀ id ∈ old, id ∈ forest.ids) (content : Content) :
    forest.Links old [] (forest.sow content).2 := by
  intro id hid
  rw [sow_eq_copy, link?_copy _ (hold id hid)]
  simp

theorem WellFormed.links_build (hforest : forest.WellFormed)
    (hold : ∀ id ∈ old, id ∈ forest.ids) (builder : Builder) :
    forest.Links old builder.handed (builder.build forest).2 := by
  intro id hid
  rw [builder.link?_build hforest (hold id hid)]
  by_cases hlink : forest.link? id = none <;> by_cases hhanded : id ∈ builder.handed <;>
    simp [hlink, hhanded]

end Forest

/-! ## Copies -/

namespace Builder

variable {forest : Forest} (builder : Builder) (hforest : forest.WellFormed)
variable (hhanded : ∀ id ∈ builder.handed, id ∈ forest.ids)
variable {place : Nat} {id entry : NodeId} (hid : builder.handed[place]? = some id)

include hforest hhanded hid

/-- A node that has its link, or was handed over before, has a copy of new nodes in its place. -/
theorem copied_build
    (hentry : ((builder.build forest).2.below (builder.build forest).1)[place]? = some entry)
    (hagain : forest.link? id ≠ none ∨ id ∈ builder.handed.take place) :
    (builder.build forest).2.contents? entry = forest.contents? id ∧
      ∀ inner ∈ (builder.build forest).2.idsWithin entry, inner ∉ forest.ids := by
  obtain ⟨hshape, hnew⟩ :=
    (builder.placed_build hforest hhanded place hid hentry).is_copy hagain
  refine ⟨hshape, fun inner hinner hold => ?_⟩
  exact Nat.lt_asymm (hnew inner hinner) (hforest.lt_next inner hold)

/-- A node stands under the new one itself just if it was handed over with its link still to
be made, and not handed over before. -/
theorem getElem?_below_build_iff :
    ((builder.build forest).2.below (builder.build forest).1)[place]? = some id ↔
      forest.link? id = none ∧ id ∉ builder.handed.take place := by
  constructor
  · intro hplace
    by_contra hagain
    rw [not_and_or, not_not, ← ne_eq] at hagain
    -- Had a copy been put there, the node would be one of the new ones.
    obtain ⟨_, hnew⟩ := builder.copied_build hforest hhanded hid hplace hagain
    have hold := hhanded id (List.mem_of_getElem? hid)
    have hthere := (builder.grows_build hforest).keeps.mem_ids hold
    exact hnew id (Forest.self_mem_idsWithin hthere) hold
  · rintro ⟨hlink, hfirst⟩
    obtain ⟨hattributes, hchildren⟩ := builder.length_build hforest hhanded
    have hlength : ((builder.build forest).2.below (builder.build forest).1).length =
        builder.handed.length := by
      rw [Forest.below, List.length_append, handed, List.length_append]
      exact congrArg₂ (· + ·) hattributes hchildren
    obtain ⟨hlt, _⟩ := List.getElem?_eq_some_iff.mp hid
    have hentry := List.getElem?_eq_getElem (hlength ▸ hlt)
    rw [hentry, (builder.placed_build hforest hhanded place hid hentry).eq_self hlink hfirst]

end Builder

end XPathTree

import XPathTree.Proofs.Forest.Follows
import XPathTree.Proofs.Session.Owning
import XPathTree.Proofs.Session.Shape
import XPathTree.Session.Walk

/-! # Steps of a session

What can be done on a forest: making nodes, holding what can be got from held values, and
letting go. A session settles after every step, so between the steps exactly the nodes are
there that the held values reach.
-/

namespace XPathTree

/-! ## Walks -/

namespace Forest

variable {forest : Forest} {id above : NodeId}

theorem mem_ids_of_ownerDocument? {document : NodeId}
    (howner : forest.ownerDocument? id = some document) : document ∈ forest.ids := by
  unfold ownerDocument? at howner
  split at howner
  next => cases howner
  next =>
    have hdocument := of_decide_eq_true (Option.filter_eq_some_iff.mp howner).2
    obtain ⟨content, hcontent, _⟩ := Option.map_eq_some_iff.mp hdocument
    exact mem_ids_of_content? hcontent

/-- A hop leads to a node that is there. -/
theorem mem_ids_of_hop? (hforest : forest.WellFormed) {hop : Hop} {next : NodeId}
    (hhop : Source.hop? forest id hop = some next) : next ∈ forest.ids := by
  rcases hop with _ | _ | index | index
  · exact forest.mem_ids_of_parent? hhop
  · exact mem_ids_of_ownerDocument? hhop
  · exact hforest.mem_ids_of_mem_below (List.mem_append_left _ (List.mem_of_getElem? hhop))
  · exact hforest.mem_ids_of_mem_below (List.mem_append_right _ (List.mem_of_getElem? hhop))

theorem mem_ids_of_walk? (hforest : forest.WellFormed) {path : List Hop} {last : NodeId}
    (hid : id ∈ forest.ids) (hwalk : Source.walk? forest id path = some last) :
    last ∈ forest.ids := by
  induction path generalizing id with
  | nil =>
      obtain rfl := Option.some.inj hwalk
      exact hid
  | cons hop path ih =>
      obtain ⟨next, hhop, hwalk⟩ := Option.bind_eq_some_iff.mp hwalk
      exact ih (mem_ids_of_hop? hforest hhop) hwalk

end Forest

namespace Session

open Forest

variable {session before after : Session Forest} {value reached : Value NodeId}

/-- The first hop is one from a node of the tree, or leads up. -/
theorem leave?_cases {hop : Hop} {next : NodeId} (hleave : session.leave? value hop = some next) :
    (∃ node, value = .treeNode node ∧ Source.hop? session.source node hop = some next) ∨
      value.toResult.parent session.host = some next ∨
      value.toResult.ownerDocument session.host = some next := by
  unfold leave? at hleave
  split at hleave
  next => exact Or.inl ⟨_, rfl, hleave⟩
  next => exact Or.inr (Or.inl hleave)
  next => exact Or.inr (Or.inr hleave)
  next => cases hleave

/-- From a value whose node is there the way up leads to nodes that are there. -/
theorem mem_ids_of_upward (hvalue : value.Grounded session.source) {next : NodeId}
    (hnext : value.toResult.parent session.host = some next ∨
      value.toResult.ownerDocument session.host = some next) : next ∈ session.source.ids := by
  unfold Value.Grounded Value.owned? at hvalue
  cases hresult : value.toResult with
  | host node =>
      rw [hresult] at hnext
      rcases hnext with hparent | howner
      · exact session.source.mem_ids_of_parent? hparent
      · exact mem_ids_of_ownerDocument? howner
  | namespaceNode node =>
      rw [hresult] at hnext hvalue
      rcases hnext with hparent | howner
      · exact hvalue next hparent
      · obtain ⟨parent, _, howner⟩ := Option.bind_eq_some_iff.mp howner
        exact mem_ids_of_ownerDocument? howner

/-- A walk from a value whose node is there leads to such a value. -/
theorem grounded_of_walk? (hforest : session.source.WellFormed)
    (hvalue : value.Grounded session.source) {path : List Hop}
    (hwalk : session.walk? value path = some reached) : reached.Grounded session.source := by
  cases path with
  | nil =>
      obtain rfl := Option.some.inj hwalk
      exact hvalue
  | cons hop path =>
      obtain ⟨last, hlast, rfl⟩ := Option.map_eq_some_iff.mp hwalk
      obtain ⟨next, hleave, hwalk⟩ := Option.bind_eq_some_iff.mp hlast
      intro owner howner
      obtain rfl := Option.some.inj howner
      refine Forest.mem_ids_of_walk? hforest ?_ hwalk
      rcases leave?_cases hleave with ⟨node, _, hhop⟩ | hup
      · exact mem_ids_of_hop? hforest hhop
      · exact mem_ids_of_upward hvalue hup

/-- What can be got from the values of a session: these themselves, where walks from them
lead, namespace nodes on nodes so got or on none, and results made of them or opened. -/
inductive Offers (session : Session Forest) : Value NodeId → Prop
  | held {name : String} {value : Value NodeId}
      (hentry : (name, value) ∈ session.holdings.entries) : Offers session value
  | walk {value reached : Value NodeId} {path : List Hop} (hvalue : Offers session value)
      (hwalk : session.walk? value path = some reached) : Offers session reached
  | namespaceNode {parent : NodeId} (hparent : Offers session (.treeNode parent))
      (pfx uri : String) : Offers session (.namespaceNode ⟨some parent, pfx, uri⟩)
  | detached (pfx uri : String) : Offers session (.namespaceNode ⟨none, pfx, uri⟩)
  | wrap {value : Value NodeId} (hvalue : Offers session value) :
      Offers session (.result value.toResult)
  | unwrap {node : ResultNode NodeId} (hnode : Offers session (.result node)) :
      Offers session (.ofResult node)

/-- One step, and what it leaves when the session settles. -/
inductive Step (before : Session Forest) : Session Forest → Prop
  /-- Carries out a plan and holds a node that it made. -/
  | build (plan : Plan) (name : String) {made : List NodeId} {id : NodeId}
      (hmade : (before.build plan).1 = .ok made) (hid : id ∈ made) :
      Step before ((before.build plan).2.hold name (.treeNode id)).settle
  /-- Carries out a plan, to its end or to a failure, and holds nothing of it. -/
  | discard (plan : Plan) : Step before (before.build plan).2.settle
  | hold (name : String) {value : Value NodeId} (hvalue : before.Offers value) :
      Step before (before.hold name value).settle
  | release (name : String) : Step before (before.release name).settle

/-- The sessions that steps lead to from nothing. -/
inductive Reachable : Session Forest → Prop
  | start : Reachable (start Forest.empty)
  | step {before after : Session Forest} (hbefore : Reachable before)
      (hstep : Step before after) : Reachable after

/-- Whether the session is as a step leaves it. -/
structure Settled (session : Session Forest) : Prop where
  wellFormed : session.source.WellFormed
  grounded : session.Grounded
  mem_ids_iff : ∀ id, id ∈ session.source.ids ↔ session.Reaches id

/-- What a session offers owns no node that is gone. -/
theorem Offers.grounded (hforest : session.source.WellFormed) (hgrounded : session.Grounded)
    (hvalue : session.Offers value) : value.Grounded session.source := by
  induction hvalue with
  | held hentry => exact hgrounded _ hentry
  | walk _ hwalk ih => exact grounded_of_walk? hforest ih hwalk
  | namespaceNode _ pfx uri ih => exact ih
  | detached pfx uri =>
      intro owner howner
      cases howner
  | wrap _ ih => exact ih
  | @unwrap node _ ih => cases node <;> exact ih

theorem Grounded.hold {name : String} (hgrounded : session.Grounded)
    (hvalue : value.Grounded session.source) : (session.hold name value).Grounded := by
  intro entry hentry
  rcases Holdings.mem_entries_insert hentry with rfl | hentry
  · exact hvalue
  · exact hgrounded entry hentry

theorem Grounded.release (hgrounded : session.Grounded) (name : String) :
    (session.release name).Grounded := fun entry hentry =>
  hgrounded entry (Holdings.mem_entries_erase hentry)

/-! ## What steps keep -/

theorem settled_start : (start Forest.empty).Settled where
  wellFormed := .empty
  grounded := fun _ hentry => nomatch hentry
  mem_ids_iff _ := by simp [start, Forest.empty, Forest.ids, Reaches, Holdings.empty]

theorem settled_settle (hforest : session.source.WellFormed) (hgrounded : session.Grounded) :
    session.settle.Settled where
  wellFormed := hforest.retain _
  grounded := grounded_settle hforest hgrounded
  mem_ids_iff _ :=
    (mem_ids_settle_iff hforest hgrounded).trans (reaches_settle_iff hforest hgrounded).symm

/-- What a plan makes is there when it has been carried out, with all that was there. -/
theorem Settled.build (hsession : session.Settled) (plan : Plan) :
    (session.build plan).2.source.WellFormed ∧ (session.build plan).2.Grounded ∧
      ∀ made, (session.build plan).1 = .ok made → ∀ id ∈ made,
        id ∈ (session.build plan).2.source.ids := by
  have hcomes : session.source.Comes Forest.Shows
      (plan.shapes (session.source.shapeHeld session.holdings)) (session.build plan).1
      (session.build plan).2.source :=
    comes_carryOut hsession.wellFormed (fun id hid => hsession.grounded.mem_ids hid) plan
  refine ⟨hcomes.wellFormed, ?_, ?_⟩
  · intro entry hentry owner howned
    exact hcomes.grows.keeps.mem_ids (hsession.grounded entry hentry owner howned)
  intro made hmade id hid
  obtain ⟨row, _, hshows⟩ := hcomes.exists_said made hmade
  exact hshows.mem_ids hid

/-- A step is some change that keeps what was there, and then the settling. -/
theorem Step.exists_settle (hbefore : before.Settled) (hstep : Step before after) :
    ∃ middle : Session Forest, after = middle.settle ∧ middle.source.WellFormed ∧
      middle.Grounded ∧ before.source.Follows middle.source := by
  cases hstep with
  | build plan name hmade hid =>
      obtain ⟨hforest, hgrounded, hthere⟩ := hbefore.build plan
      refine ⟨_, rfl, hforest, hgrounded.hold ?_, hbefore.wellFormed.follows_carryOut _ plan⟩
      intro owner howner
      obtain rfl := Option.some.inj howner
      exact hthere _ hmade _ hid
  | discard plan =>
      obtain ⟨hforest, hgrounded, _⟩ := hbefore.build plan
      exact ⟨_, rfl, hforest, hgrounded, hbefore.wellFormed.follows_carryOut _ plan⟩
  | hold name hvalue =>
      exact ⟨_, rfl, hbefore.wellFormed,
        hbefore.grounded.hold (hvalue.grounded hbefore.wellFormed hbefore.grounded), .refl _⟩
  | release name => exact ⟨_, rfl, hbefore.wellFormed, hbefore.grounded.release name, .refl _⟩

theorem Step.settled (hbefore : before.Settled) (hstep : Step before after) : after.Settled := by
  obtain ⟨middle, rfl, hforest, hgrounded, _⟩ := hstep.exists_settle hbefore
  exact settled_settle hforest hgrounded

theorem Step.follows (hbefore : before.Settled) (hstep : Step before after) :
    before.source.Follows after.source := by
  obtain ⟨middle, rfl, hforest, _, hfollows⟩ := hstep.exists_settle hbefore
  exact hfollows.trans hbefore.wellFormed (hforest.follows_retain _)

/-- The forest of a session comes about step by step, so all that is known of such forests
is known of it. -/
theorem Reachable.source (hsession : session.Reachable) : session.source.Reachable := by
  induction hsession with
  | start => exact .empty
  | step _ hstep ih =>
      cases hstep with
      | build plan name => exact reachable_settle (reachable_build ih plan)
      | discard plan => exact reachable_settle (reachable_build ih plan)
      | hold name => exact reachable_settle ih
      | release name => exact reachable_settle ih

theorem Reachable.settled (hsession : session.Reachable) : session.Settled := by
  induction hsession with
  | start => exact settled_start
  | step _ hstep ih => exact hstep.settled ih

end Session

end XPathTree

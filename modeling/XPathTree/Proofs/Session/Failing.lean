import Mathlib.Data.List.TakeWhile
import XPathTree.Proofs.Session.Spending
import XPathTree.Proofs.Session.Steps

/-! # Plans that fail

A plan fails where a builder is handed an attribute that is none, and what was made for it
goes. The nodes that were there stay as they were in all that is read of them. Only those
that some builder had already put under the node it made have their links now, and will be
copied from then on.
-/

namespace XPathTree

open Forest

namespace Session

/-! ## What a failure leaves -/

variable {before after : Session Forest} {plan : Plan} {id : NodeId}

/-- Why an act fails on what the session holds, if it does. -/
def failure? (session : Session Forest) (act : Plan.Act) : Option PlanError :=
  act.failure? session.source session.holdings

/-- The kinds of the nodes that a plan lists. -/
def kinds (session : Session Forest) (plan : Plan) : List (Option NodeKind) :=
  plan.kinds session.source session.holdings

/-- The held nodes that were put under others before a plan ended or failed. -/
def spent (session : Session Forest) (plan : Plan) : List NodeId :=
  Plan.Act.spent session.source session.holdings plan.acts

/-- Whether a plan gets to an act, with none before it that fails. -/
def GetsTo (session : Session Forest) (plan : Plan) (act : Plan.Act) : Prop :=
  ∃ earlier later, plan.acts = earlier ++ act :: later ∧
    ∀ other ∈ earlier, session.failure? other = none

/-- When a plan fails, and what is spent by then. -/
structure Fails (session : Session Forest) (plan : Plan) : Prop where
  /-- The first act that fails ends the plan with its failure. -/
  error_iff : ∀ reason, (session.build plan).1 = .error reason ↔
    ∃ act, session.GetsTo plan act ∧ session.failure? act = some reason
  /-- Where all names are held it fails just if it gets to the handing over of an attribute
  that is none. -/
  fails_iff : (∀ name, .lookUp name ∈ plan.acts → ∃ id, session.holdings.treeNode name = .ok id) →
    ((∃ reason, (session.build plan).1 = .error reason) ↔
      ∃ attributes, session.GetsTo plan (.handOver attributes) ∧
        ∃ kind ∈ session.kinds attributes, kind ≠ some .attribute)
  /-- A held node is spent just if the plan gets to the building of a builder that some call
  has handed it to. -/
  mem_spent_iff : ∀ id, id ∈ session.spent plan ↔
    ∃ calls, session.GetsTo plan (.build calls) ∧ id ∈ calls.listed session.holdings

/-- What changes when nothing is held of what a plan made: of some nodes the links are used. -/
structure OnlySpends (before : Session Forest) (spent : List NodeId) (after : Session Forest) :
    Prop where
  holdings_eq : after.holdings = before.holdings
  reaches_iff : ∀ id, after.Reaches id ↔ before.Reaches id
  content_eq : ∀ id, before.Reaches id → after.source.content? id = before.source.content? id
  parent_eq : ∀ id, before.Reaches id → after.source.parent? id = before.source.parent? id
  ownerDocument_eq : ∀ id, before.Reaches id →
    after.source.ownerDocument? id = before.source.ownerDocument? id
  attributes_eq : ∀ id, before.Reaches id →
    after.source.attributes id = before.source.attributes id
  children_eq : ∀ id, before.Reaches id → after.source.children id = before.source.children id
  stringValue_eq : ∀ id, before.Reaches id →
    after.source.stringValue id = before.source.stringValue id
  namespaceAxis_eq : ∀ id, before.Reaches id →
    after.source.host.namespaceAxis id = before.source.host.namespaceAxis id
  unlinked_iff : ∀ id, before.Reaches id →
    (after.source.link? id = none ↔ before.source.link? id = none ∧ id ∉ spent)
  /-- A builder takes the same nodes themselves as it would have before, but for those spent. -/
  taken_iff : ∀ builder : Builder, (∀ id ∈ builder.handed, before.Reaches id) →
    ∀ (place : Nat) (id : NodeId), builder.handed[place]? = some id →
      (((builder.build after.source).2.below (builder.build after.source).1)[place]? = some id ↔
        ((builder.build before.source).2.below (builder.build before.source).1)[place]? =
          some id ∧ id ∉ spent)
  /-- And of those spent, however much later, it takes copies. -/
  copied_later : ∀ later, Relation.ReflTransGen Step after later →
    ∀ builder : Builder, (∀ id ∈ builder.handed, later.Reaches id) →
      ∀ (place : Nat) (id entry : NodeId), builder.handed[place]? = some id → id ∈ spent →
        ((builder.build later.source).2.below (builder.build later.source).1)[place]? =
            some entry →
          (builder.build later.source).2.contents? entry = later.source.contents? id ∧
            ∀ inner ∈ (builder.build later.source).2.idsWithin entry, ¬ later.Reaches inner

/-- Building does the acts of the plan. -/
theorem Reachable.does_build (hbefore : before.Reachable) (plan : Plan) :
    before.source.Does before.holdings plan.acts
      (before.source.Lists (plan.kinds before.source before.holdings)
        (plan.listed before.holdings)) before.source (before.build plan).1
      (before.build plan).2.source :=
  plan.does_run hbefore.settled.wellFormed (fun _ hid => hbefore.settled.grounded.mem_ids hid)
    (.refl before.source) hbefore.settled.wellFormed

/-- An act that does not fail is done just if the plan gets to it. -/
theorem mem_takeWhile_iff_getsTo {act : Plan.Act} (hact : before.failure? act = none) :
    act ∈ plan.acts.takeWhile (before.failure? · = none) ↔ before.GetsTo plan act := by
  constructor
  · intro hmem
    obtain ⟨earlier, later, hsplit⟩ := List.append_of_mem hmem
    refine ⟨earlier, later ++ plan.acts.dropWhile (before.failure? · = none), ?_, ?_⟩
    · rw [← List.cons_append, ← List.append_assoc, ← hsplit, List.takeWhile_append_dropWhile]
    · intro other hother
      have hdone : other ∈ plan.acts.takeWhile (before.failure? · = none) := by
        rw [hsplit]
        exact List.mem_append_left _ hother
      simpa using List.mem_takeWhile_imp hdone
  · rintro ⟨earlier, later, hacts, hearlier⟩
    rw [hacts, List.takeWhile_append_of_pos (by simpa using hearlier),
      List.takeWhile_cons_of_pos (by simpa using hact)]
    simp

theorem mem_spent_iff : id ∈ before.spent plan ↔
    ∃ calls, before.GetsTo plan (.build calls) ∧ id ∈ calls.listed before.holdings := by
  constructor
  · intro hid
    obtain ⟨act, hact, hhanded⟩ := List.mem_flatMap.mp hid
    cases act with
    | lookUp name => cases hhanded
    | handOver attributes => cases hhanded
    | build calls => exact ⟨calls, (mem_takeWhile_iff_getsTo rfl).mp hact, hhanded⟩
  · rintro ⟨calls, hgets, hid⟩
    exact List.mem_flatMap.mpr ⟨_, (mem_takeWhile_iff_getsTo rfl).mpr hgets, hid⟩

/-- A plan fails with the failure of the act that it gets to. -/
theorem Reachable.build_eq_error_iff (hbefore : before.Reachable) {reason : PlanError} :
    (before.build plan).1 = .error reason ↔
      ∃ act, before.GetsTo plan act ∧ before.failure? act = some reason := by
  have hdoes := hbefore.does_build plan
  trans Plan.Act.firstFailure? before.source before.holdings plan.acts = some reason
  · cases hmade : (before.build plan).1 with
    | ok ids => simp [(hdoes.ok ids hmade).1]
    | error other => simp [hdoes.error other hmade]
  · rw [Plan.Act.firstFailure?, List.findSome?_eq_some_iff]
    constructor
    · rintro ⟨earlier, act, later, hacts, hact, hearlier⟩
      exact ⟨act, ⟨earlier, later, hacts, hearlier⟩, hact⟩
    · rintro ⟨act, ⟨earlier, later, hacts, hearlier⟩, hact⟩
      exact ⟨earlier, act, later, hacts, hact, hearlier⟩

theorem failure?_lookUp {name : String} (hnode : before.holdings.treeNode name = .ok id) :
    before.failure? (.lookUp name) = none := by
  rw [failure?, Plan.Act.failure?, hnode]

theorem failure?_handOver_eq_none_iff {attributes : Plan} :
    before.failure? (.handOver attributes) = none ↔
      ∀ kind ∈ before.kinds attributes, kind = some .attribute := by
  rw [failure?, Plan.Act.failure?]
  split
  next hall => exact iff_of_true rfl hall
  next hnot => exact iff_of_false (Option.some_ne_none _) hnot

theorem Reachable.fails (hbefore : before.Reachable) (plan : Plan) : before.Fails plan where
  error_iff reason := hbefore.build_eq_error_iff
  mem_spent_iff id := mem_spent_iff
  fails_iff := by
    intro hnames
    constructor
    · rintro ⟨reason, hreason⟩
      obtain ⟨act, hgets, hact⟩ := hbefore.build_eq_error_iff.mp hreason
      cases act with
      | lookUp name =>
          obtain ⟨earlier, later, hacts, _⟩ := hgets
          obtain ⟨id, hnode⟩ := hnames name (hacts ▸ List.mem_append_right _ List.mem_cons_self)
          rw [failure?_lookUp hnode] at hact
          cases hact
      | handOver attributes =>
          have hnot : before.failure? (.handOver attributes) ≠ none := by simp [hact]
          rw [ne_eq, failure?_handOver_eq_none_iff] at hnot
          exact ⟨attributes, hgets, by simpa only [not_forall, exists_prop] using hnot⟩
      | build calls => cases hact
    · rintro ⟨attributes, hgets, kind, hkind, hne⟩
      have hfailed : before.failure? (.handOver attributes) ≠ none := fun hnone =>
        hne (failure?_handOver_eq_none_iff.mp hnone kind hkind)
      obtain ⟨reason, hreason⟩ := Option.ne_none_iff_exists'.mp hfailed
      exact ⟨reason, hbefore.build_eq_error_iff.mpr ⟨_, hgets, hreason⟩⟩

/-- What follows a session step by step follows it in its forest. -/
theorem Reachable.follows_steps (hbefore : before.Reachable)
    (hsteps : Relation.ReflTransGen Step before after) :
    after.Reachable ∧ before.source.Follows after.source := by
  induction hsteps with
  | refl => exact ⟨hbefore, .refl _⟩
  | tail _ hstep ih =>
      obtain ⟨hreachable, hfollows⟩ := ih
      exact ⟨.step hreachable hstep,
        hfollows.trans hbefore.settled.wellFormed (hstep.follows hreachable.settled)⟩

/-- Without what a plan made there are the nodes that were there before. -/
theorem Reachable.reaches_discarded_iff (hbefore : before.Reachable) (plan : Plan) :
    (before.build plan).2.settle.Reaches id ↔ before.Reaches id := by
  obtain ⟨hforest, hgrounded, _⟩ := hbefore.settled.build plan
  rw [reaches_settle_iff hforest hgrounded, reaches_iff hforest hgrounded,
    reaches_iff hbefore.settled.wellFormed hbefore.settled.grounded]
  refine exists_congr fun owner => and_congr_right fun howner => ?_
  rw [(hbefore.does_build plan).grows.keeps.idsWithin_eq (hbefore.settled.grounded.mem_ids howner)]

/-- Those nodes have all below them that they had. -/
theorem Reachable.keeps_discarded (hbefore : before.Reachable) (plan : Plan) :
    before.source.Keeps (before.build plan).2.settle.source := by
  obtain ⟨hforest, hgrounded, _⟩ := hbefore.settled.build plan
  intro id hid
  have hleft : id ∈ (before.build plan).2.settle.source.ids :=
    (mem_ids_settle_iff hforest hgrounded).mpr <|
      (reaches_settle_iff hforest hgrounded).mp <|
        (hbefore.reaches_discarded_iff plan).mpr ((hbefore.settled.mem_ids_iff id).mp hid)
  exact (hforest.keeps_retain _ id hleft).symm.trans ((hbefore.does_build plan).grows.keeps id hid)

theorem Reachable.links_discarded (hbefore : before.Reachable) (plan : Plan) :
    before.source.Links before.source.ids (before.spent plan)
      (before.build plan).2.settle.source := by
  have hforest := (hbefore.settled.build plan).1
  intro id hid
  have hlink : (before.build plan).2.settle.source.link? id =
      (before.build plan).2.source.link? id :=
    hforest.link?_retain ((hbefore.keeps_discarded plan).mem_ids hid)
  rw [hlink]
  exact (hbefore.does_build plan).links id hid

/-- A plan fails at the first act that does. Whether it fails or not, when nothing is held of
what it made, all that is read of the session is as before, and just those held nodes that a
builder had put to use will be copied where they would have been taken themselves. -/
theorem Reachable.discarded_build (hbefore : before.Reachable) (plan : Plan) :
    before.Fails plan ∧
      before.OnlySpends (before.spent plan) (before.build plan).2.settle := by
  have hstep : before.Step (before.build plan).2.settle := .discard plan
  have hafter : (before.build plan).2.settle.Reachable := .step hbefore hstep
  have hforest := hbefore.settled.wellFormed
  have hids : ∀ id, id ∈ (before.build plan).2.settle.source.ids ↔ id ∈ before.source.ids :=
    fun id => by rw [hafter.settled.mem_ids_iff, hbefore.settled.mem_ids_iff,
      hbefore.reaches_discarded_iff plan]
  have hthere : ∀ {id}, before.Reaches id → id ∈ before.source.ids :=
    fun {id} hid => (hbefore.settled.mem_ids_iff id).mpr hid
  have hkeeps := hbefore.keeps_discarded plan
  have hlinks := hbefore.links_discarded plan
  -- What the plan linked nodes to is gone, so they have the parents they had.
  have hparents : ∀ id ∈ before.source.ids,
      (before.build plan).2.settle.source.parent? id = before.source.parent? id :=
    fun id hid => (hstep.follows hbefore.settled).parent?_eq hforest hids hid
  refine ⟨hbefore.fails plan, {
    holdings_eq := rfl
    reaches_iff := fun id => hbefore.reaches_discarded_iff plan
    content_eq := fun id hid => hkeeps.content?_eq (hthere hid)
    parent_eq := fun id hid => hparents id (hthere hid)
    ownerDocument_eq := fun id hid => ownerDocument?_of_parents hparents hforest hkeeps (hthere hid)
    attributes_eq := fun id hid => hkeeps.attributes_eq (hthere hid)
    children_eq := fun id hid => hkeeps.children_eq (hthere hid)
    stringValue_eq := fun id hid => hkeeps.stringValue_eq (hthere hid)
    namespaceAxis_eq := fun id hid =>
      namespaceAxis_of_parents hparents hforest hkeeps (hthere hid) hafter.settled.wellFormed
    unlinked_iff := fun id hid => hlinks id (hthere hid)
    taken_iff := ?taken_iff
    copied_later := ?copied_later }⟩
  case taken_iff =>
    intro builder hhanded place id hplace
    have hmem : ∀ id ∈ builder.handed, id ∈ before.source.ids := fun id hid =>
      hthere (hhanded id hid)
    rw [builder.getElem?_below_build_iff hafter.settled.wellFormed
        (fun id hid => (hids id).mpr (hmem id hid)) hplace,
      builder.getElem?_below_build_iff hforest hmem hplace,
      hlinks id (hmem id (List.mem_of_getElem? hplace)), and_right_comm]
  case copied_later =>
    intro later hsteps builder hhanded place id entry hplace hspent hentry
    obtain ⟨hlater, hfollows⟩ := hafter.follows_steps hsteps
    have hmem : ∀ id ∈ builder.handed, id ∈ later.source.ids :=
      fun id hid => (hlater.settled.mem_ids_iff id).mpr (hhanded id hid)
    have hlinked : later.source.link? id ≠ none := by
      have hid := hbefore.settled.grounded.mem_ids (Plan.Act.mem_owned_of_spent hspent)
      have hused := (hlinks id hid).not.mpr fun hfree => hfree.2 hspent
      obtain ⟨above, habove⟩ := Option.ne_none_iff_exists'.mp hused
      rw [hfollows.link_kept id (hmem id (List.mem_of_getElem? hplace)) above habove]
      exact Option.some_ne_none above
    obtain ⟨hshape, hnew⟩ := builder.copied_build hlater.settled.wellFormed hmem hplace hentry
      (Or.inl hlinked)
    exact ⟨hshape, fun inner hinner hreaches =>
      hnew inner hinner ((hlater.settled.mem_ids_iff inner).mpr hreaches)⟩

/-- An attribute and two texts, each held and under nothing. -/
def looseSession : Session Forest :=
  let made := (((start Forest.empty).build (.leaf (.ofAttribute "a" "1") .done)).2.hold "a"
    (.treeNode 0)).settle
  let made := ((made.build (.leaf (.text "t") .done)).2.hold "t" (.treeNode 1)).settle
  ((made.build (.leaf (.text "u") .done)).2.hold "u" (.treeNode 2)).settle

/-- An element over the second text, over an element with the attribute and the first text,
and over one that is handed the first text as an attribute and would then be handed what a
builder builds over the second text. -/
def misplacingPlan : Plan :=
  let inner := Calls.addChildren (.addAttributes (.opened (.ofElement "f")) (.held "a" .done))
    (.nodes (.held "t" .done) .done)
  let misplacing := Calls.addAttributes
    (.addAttributes (.opened (.ofElement "g")) (.held "t" .done))
    (.build (.addChildren (.opened (.ofElement "h")) (.nodes (.held "u" .done) .done)) .done)
  let begun := Calls.addChildren (.opened (.ofElement "e")) (.nodes (.held "u" .done) .done)
  .build (.addChildren (.addChildren begun (.builder inner .done)) (.builder misplacing .done)) .done

/-- The plan fails where it first hands over a text as an attribute. The attribute and the first
text have been put to use by then. The second text has not, though it was handed to a builder
and is to be handed to another, so the next builder takes only this one itself. -/
theorem discarded_build_misplacing :
    looseSession.Reachable ∧ looseSession.Fails misplacingPlan ∧
      looseSession.OnlySpends [0, 1] (looseSession.build misplacingPlan).2.settle ∧
      (looseSession.build misplacingPlan).1 = .error (.build .notAnAttribute) ∧
      (looseSession.build misplacingPlan).2.settle.source.parent? 1 = none ∧
      ((Builder.mk (.ofElement "h") [] [1, 2]).build
        (looseSession.build misplacingPlan).2.settle.source).2.below 4 = [5, 2] := by
  have hreachable : looseSession.Reachable :=
    .step (.step (.step .start (.build _ "a" (by rfl) List.mem_cons_self))
      (.build _ "t" (by rfl) List.mem_cons_self)) (.build _ "u" (by rfl) List.mem_cons_self)
  obtain ⟨hfails, hspends⟩ := hreachable.discarded_build misplacingPlan
  have hspent : looseSession.spent misplacingPlan = [0, 1] := by decide +kernel
  have hgets : looseSession.GetsTo misplacingPlan (.handOver (.held "t" .done)) :=
    ⟨[.lookUp "u", .lookUp "a", .handOver (.held "a" .done), .lookUp "t",
      .build (.addChildren (.addAttributes (.opened (.ofElement "f")) (.held "a" .done))
        (.nodes (.held "t" .done) .done)), .lookUp "t"], _, rfl, by decide +kernel⟩
  refine ⟨hreachable, hfails, hspent ▸ hspends, ?_, ?_, ?_⟩
  · exact (hfails.error_iff _).mpr ⟨_, hgets, by decide +kernel⟩
  · exact (hspends.parent_eq 1 ⟨("t", .treeNode 1), by decide +kernel, .refl⟩).trans
      (by decide +kernel)
  · decide +kernel

end Session

end XPathTree

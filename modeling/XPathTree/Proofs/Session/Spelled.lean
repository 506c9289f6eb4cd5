import XPathTree.Proofs.Forest.Making
import XPathTree.Proofs.Session.Building
import XPathTree.Proofs.Session.Holdings

/-! # Plans by calls

A plan may list any contents. Where all of them are those that the calls make, whatever the plan
makes is made by the calls, also if it fails: an attribute that passed for one is still one when
its builder builds, whatever has been made since.
-/

namespace XPathTree

open Forest

mutual

/-- Whether the nodes of a plan are made by the calls. -/
def Plan.Spelled : Plan → Prop
  | .done => True
  | .leaf content rest => (∃ call : Leaf, call.content = content) ∧ rest.Spelled
  | .held _ rest => rest.Spelled
  | .build calls rest => calls.Spelled ∧ rest.Spelled

def Calls.Spelled : Calls → Prop
  | .opened container => ∃ call : Opening, call.container = container
  | .addAttributes earlier nodes => earlier.Spelled ∧ nodes.Spelled
  | .addChildren earlier offers => earlier.Spelled ∧ offers.Spelled

def Offers.Spelled : Offers → Prop
  | .done => True
  | .nodes plan rest => plan.Spelled ∧ rest.Spelled
  | .builder calls rest => calls.Spelled ∧ rest.Spelled

end

variable {before middle after : Forest}

/-! ## Builders that can build -/

/-- Whether the nodes that a builder has are there, and its attributes are attributes. -/
structure Builder.Ready (forest : Forest) (builder : Builder) : Prop where
  opened : ∃ call : Opening, call.container = builder.container
  attributes : ∀ id ∈ builder.attributes, forest.IsAttribute id
  handed : ∀ id ∈ builder.handed, id ∈ forest.ids

def Offer.Ready (forest : Forest) : Offer → Prop
  | made id => id ∈ forest.ids
  | pending builder => builder.Ready forest

theorem Builder.Ready.of_keeps {builder : Builder} (hready : builder.Ready before)
    (hkeeps : before.Keeps after) : builder.Ready after where
  opened := hready.opened
  attributes id hid := by
    have hthere := hready.handed id (List.mem_append_left _ hid)
    rw [IsAttribute, hkeeps.content?_eq hthere]
    exact hready.attributes id hid
  handed id hid := hkeeps.mem_ids (hready.handed id hid)

theorem Offer.Ready.of_keeps {offer : Offer} (hready : offer.Ready before)
    (hkeeps : before.Keeps after) : offer.Ready after := by
  cases offer with
  | made id => exact hkeeps.mem_ids hready
  | pending builder => exact Builder.Ready.of_keeps hready hkeeps

/-- Building over nodes that are there is a step by a call. -/
theorem Builder.Ready.step {builder : Builder} (hready : builder.Ready before) :
    before.Step (builder.build before).2 := by
  obtain ⟨container, attributes, children⟩ := builder
  obtain ⟨⟨call, rfl⟩, hattributes, hhanded⟩ := hready
  exact .opening call (called_of_isAttribute call attributes children hattributes hhanded)

/-! ## Work by calls -/

/-- What work leaves that makes nodes by the calls: a forest that they lead to, with what was
there before, and a result as is asked for. -/
structure Forest.Yields {α : Type} (before : Forest) (asked : Forest → α → Prop)
    (ended : Except PlanError α) (after : Forest) : Prop where
  made : after.Made
  grows : before.Grows after
  ok : ∀ result, ended = .ok result → asked after result

namespace Building

variable {α β : Type} {forest : Forest} {asked : Forest → α → Prop}
  {further : Forest → β → Prop}

theorem yields_pure {result : α} (hforest : forest.Made) (hasked : asked forest result) :
    (pure result : Building α).Meets forest (forest.Yields asked) where
  made := hforest
  grows := .refl forest
  ok _ hother := Except.ok.inj hother ▸ hasked

theorem Meets.yields_bind {work : Building α} {next : α → Building β}
    (hwork : work.Meets forest (forest.Yields asked))
    (hnext : ∀ result middle, forest.Grows middle → middle.Made → asked middle result →
      (next result).Meets middle (middle.Yields further)) :
    (work >>= next).Meets forest (forest.Yields further) := by
  refine hwork.bind ?_ ?_
  · intro result middle hmiddle
    have hyields := hnext result middle hmiddle.grows hmiddle.made (hmiddle.ok result rfl)
    exact { hyields with grows := hmiddle.grows.trans hyields.grows }
  · intro reason middle hmiddle
    exact ⟨hmiddle.made, hmiddle.grows, fun _ hresult => nomatch hresult⟩

theorem yields_make {step : Forest → NodeId × Forest} (hgrows : forest.Grows (step forest).2)
    (hmade : (step forest).2.Made) (hid : (step forest).1 ∈ (step forest).2.ids) :
    (make step).Meets forest (forest.Yields fun after id => id ∈ after.ids) where
  made := hmade
  grows := hgrows
  ok _ hother := Except.ok.inj hother ▸ hid

theorem yields_check {ε : Type} {failed : ε → PlanError} {result : Except ε α}
    (hforest : forest.Made) (hok : ∀ value, result = .ok value → asked forest value) :
    (check failed result).Meets forest (forest.Yields asked) := by
  cases result with
  | ok value => exact yields_pure hforest (hok value rfl)
  | error reason => exact ⟨hforest, .refl forest, fun _ hother => nomatch hother⟩

theorem yields_make_sow (hforest : forest.Made) (call : Leaf) :
    (make fun forest => forest.sow call.content).Meets forest
      (forest.Yields fun after id => id ∈ after.ids) :=
  yields_make (grows_sow forest call.content) (hforest.step (.leaf call))
    (mem_ids_of_contents? (contents?_sow hforest.wellFormed call.content))

theorem yields_make_build (hforest : forest.Made) {builder : Builder}
    (hready : builder.Ready forest) :
    (make builder.build).Meets forest (forest.Yields fun after id => id ∈ after.ids) := by
  obtain ⟨shape, hshape, _⟩ := builder.contents?_build hforest.wellFormed hready.handed
  exact yields_make (builder.grows_build hforest.wellFormed) (hforest.step hready.step)
    (mem_ids_of_contents? hshape)

/-- One node and then others. -/
theorem Meets.yields_cons {work : Building NodeId} {rest : Building (List NodeId)}
    (hwork : work.Meets forest (forest.Yields fun after id => id ∈ after.ids))
    (hrest : ∀ middle, forest.Grows middle → middle.Made →
      rest.Meets middle (middle.Yields fun after ids => ∀ id ∈ ids, id ∈ after.ids)) :
    (work >>= fun id => rest >>= fun ids => pure (id :: ids)).Meets forest
      (forest.Yields fun after ids => ∀ id ∈ ids, id ∈ after.ids) := by
  refine hwork.yields_bind fun id first hgrows hfirst hid => ?_
  refine (hrest first hgrows hfirst).yields_bind fun ids second hgrows' hsecond hids => ?_
  exact yields_pure hsecond (List.forall_mem_cons.mpr ⟨hgrows'.keeps.mem_ids hid, hids⟩)

theorem yields_buildAll (hforest : forest.Made) {offered : List Offer}
    (hready : ∀ offer ∈ offered, offer.Ready forest) :
    (buildAll offered).Meets forest
      (forest.Yields fun after ids => ∀ id ∈ ids, id ∈ after.ids) := by
  induction offered generalizing forest with
  | nil => exact yields_pure hforest nofun
  | cons offer offered ih =>
      obtain ⟨hoffer, hoffered⟩ := List.forall_mem_cons.mp hready
      refine Meets.yields_cons ?_ fun middle hgrows hmiddle =>
        ih hmiddle fun other hother => (hoffered other hother).of_keeps hgrows.keeps
      cases offer with
      | made id => exact yields_make (.refl forest) hforest hoffer
      | pending builder => exact yields_make_build hforest hoffer

end Building

section Run

variable {base : Forest} {holdings : Holdings NodeId}

mutual

/-- Whatever such a plan makes before it ends or fails is made by the calls. -/
theorem Plan.yields_run (hheld : ∀ id ∈ holdings.owned, id ∈ base.ids) (plan : Plan)
    (hspelled : plan.Spelled) {forest : Forest} (hforest : forest.Made)
    (hkeeps : base.Keeps forest) :
    (plan.run holdings).Meets forest
      (forest.Yields fun after ids => ∀ id ∈ ids, id ∈ after.ids) := by
  cases plan with
  | done => exact Building.yields_pure hforest nofun
  | leaf content rest =>
      obtain ⟨⟨call, rfl⟩, hrest⟩ := hspelled
      refine (Building.yields_make_sow hforest call).yields_cons fun middle hgrows hmiddle => ?_
      exact rest.yields_run hheld hrest hmiddle (hkeeps.trans hgrows.keeps)
  | held name rest =>
      refine Building.Meets.yields_cons (Building.yields_check hforest fun id hnode => ?_)
        fun middle hgrows hmiddle =>
          rest.yields_run hheld hspelled hmiddle (hkeeps.trans hgrows.keeps)
      exact hkeeps.mem_ids (hheld id (Holdings.mem_owned_of_treeNode hnode))
  | build calls rest =>
      obtain ⟨hcalls, hrest⟩ := hspelled
      refine (calls.yields_run hheld hcalls hforest hkeeps).yields_bind
        fun builder first hgrows hfirst hready => ?_
      refine (Building.yields_make_build hfirst hready).yields_cons
        fun second hgrows' hsecond => ?_
      exact rest.yields_run hheld hrest hsecond ((hkeeps.trans hgrows.keeps).trans hgrows'.keeps)

theorem Calls.yields_run (hheld : ∀ id ∈ holdings.owned, id ∈ base.ids) (calls : Calls)
    (hspelled : calls.Spelled) {forest : Forest} (hforest : forest.Made)
    (hkeeps : base.Keeps forest) :
    (calls.run holdings).Meets forest (forest.Yields Builder.Ready) := by
  cases calls with
  | opened container => exact Building.yields_pure hforest ⟨hspelled, nofun, nofun⟩
  | addAttributes earlier nodes =>
      obtain ⟨hearlier, hnodes⟩ := hspelled
      refine (earlier.yields_run hheld hearlier hforest hkeeps).yields_bind
        fun builder first hgrows hfirst hready => ?_
      refine (nodes.yields_run hheld hnodes hfirst (hkeeps.trans hgrows.keeps)).yields_bind
        fun attributes second hgrows' hsecond hattributes => ?_
      refine Building.meets_get_bind (Building.yields_check hsecond fun called hcalled => ?_)
      obtain ⟨hall, rfl⟩ := Builder.addAttributes_eq_ok_iff.mp hcalled
      obtain ⟨hopened, hearlier, hhanded⟩ := hready.of_keeps hgrows'.keeps
      refine ⟨hopened, List.forall_mem_append.mpr ⟨hearlier, hall⟩, ?_⟩
      obtain ⟨hbefore, hchildren⟩ := List.forall_mem_append.mp hhanded
      exact List.forall_mem_append.mpr
        ⟨List.forall_mem_append.mpr ⟨hbefore, hattributes⟩, hchildren⟩
  | addChildren earlier offers =>
      obtain ⟨hearlier, hoffers⟩ := hspelled
      refine (earlier.yields_run hheld hearlier hforest hkeeps).yields_bind
        fun builder first hgrows hfirst hready => ?_
      refine (offers.yields_run hheld hoffers hfirst (hkeeps.trans hgrows.keeps)).yields_bind
        fun offered second hgrows' hsecond hoffered => ?_
      refine (Building.yields_buildAll hsecond hoffered).yields_bind
        fun children third hgrows'' hthird hchildren => ?_
      rw [Builder.addChildren_eq]
      obtain ⟨hopened, hattributes, hhanded⟩ :=
        (hready.of_keeps hgrows'.keeps).of_keeps hgrows''.keeps
      refine Building.yields_pure hthird ⟨hopened, hattributes, ?_⟩
      rw [Builder.handed, ← List.append_assoc]
      exact List.forall_mem_append.mpr ⟨hhanded, hchildren⟩

theorem Offers.yields_run (hheld : ∀ id ∈ holdings.owned, id ∈ base.ids) (offers : Offers)
    (hspelled : offers.Spelled) {forest : Forest} (hforest : forest.Made)
    (hkeeps : base.Keeps forest) :
    (offers.run holdings).Meets forest
      (forest.Yields fun after offered => ∀ offer ∈ offered, offer.Ready after) := by
  cases offers with
  | done => exact Building.yields_pure hforest nofun
  | nodes plan rest =>
      obtain ⟨hplan, hrest⟩ := hspelled
      refine (plan.yields_run hheld hplan hforest hkeeps).yields_bind
        fun ids first hgrows hfirst hids => ?_
      refine (rest.yields_run hheld hrest hfirst (hkeeps.trans hgrows.keeps)).yields_bind
        fun offered second hgrows' hsecond hoffered => ?_
      refine Building.yields_pure hsecond (List.forall_mem_append.mpr ⟨?_, hoffered⟩)
      exact List.forall_mem_map.mpr fun id hid => hgrows'.keeps.mem_ids (hids id hid)
  | builder calls rest =>
      obtain ⟨hcalls, hrest⟩ := hspelled
      refine (calls.yields_run hheld hcalls hforest hkeeps).yields_bind
        fun builder first hgrows hfirst hready => ?_
      refine (rest.yields_run hheld hrest hfirst (hkeeps.trans hgrows.keeps)).yields_bind
        fun offered second hgrows' hsecond hoffered => ?_
      exact Building.yields_pure hsecond
        (List.forall_mem_cons.mpr ⟨hready.of_keeps hgrows'.keeps, hoffered⟩)

end

end Run

/-- A plan whose nodes are made by the calls leads from forests of such nodes to such forests. -/
theorem Forest.Made.carryOut {forest : Forest} (hforest : forest.Made)
    {holdings : Holdings NodeId} (hheld : ∀ id ∈ holdings.owned, id ∈ forest.ids) {plan : Plan}
    (hspelled : plan.Spelled) : (forest.carryOut holdings plan).2.Made :=
  Forest.Yields.made (plan.yields_run hheld hspelled hforest (.refl forest))

theorem Session.made_build {session : Session Forest} (hsource : session.source.Made)
    (hgrounded : session.Grounded) {plan : Plan} (hspelled : plan.Spelled) :
    (session.build plan).2.source.Made :=
  hsource.carryOut (fun _ hid => hgrounded.mem_ids hid) hspelled

theorem Session.made_settle {session : Session Forest} (hsource : session.source.Made) :
    session.settle.source.Made := hsource.step (.retain session.holdings.owned)

end XPathTree

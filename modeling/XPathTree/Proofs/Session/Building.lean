import XPathTree.Proofs.Forest.Calls
import XPathTree.Session.Plan

/-! # Work on a forest

What is known of some work is said of the way it ends: with a result or a failure, and
with a forest in either case. Work is followed from step to step by `Meets.bind`. A
property of forests that making one node keeps is kept by every plan.
-/

namespace XPathTree

namespace Building

variable {α β : Type} {forest : Forest} {asked : Except PlanError α → Forest → Prop}

/-- Whether the work, begun on a forest, ends as is asked for. -/
def Meets (work : Building α) (forest : Forest) (asked : Except PlanError α → Forest → Prop) :
    Prop :=
  asked (work.run.run forest).1 (work.run.run forest).2

theorem meets_pure {result : α} (hasked : asked (.ok result) forest) :
    (pure result : Building α).Meets forest asked := hasked

/-- What comes second goes on from where the first ended, unless that failed. -/
theorem Meets.bind {work : Building α} {next : α → Building β}
    {asked : Except PlanError β → Forest → Prop} {between : Except PlanError α → Forest → Prop}
    (hwork : work.Meets forest between)
    (hok : ∀ result middle, between (.ok result) middle → (next result).Meets middle asked)
    (herror : ∀ reason middle, between (.error reason) middle → asked (.error reason) middle) :
    (work >>= next).Meets forest asked := by
  have hrun : (work >>= next).run.run forest =
      match work.run.run forest with
      | (.ok result, middle) => (next result).run.run middle
      | (.error reason, middle) => (.error reason, middle) := by
    rw [ExceptT.run_bind, StateT.run_bind]
    rcases work.run.run forest with ⟨_ | _, _⟩ <;> rfl
  unfold Meets at hwork ⊢
  rw [hrun]
  rcases hended : work.run.run forest with ⟨reason | result, middle⟩
  · rw [hended] at hwork
    exact herror reason middle hwork
  · rw [hended] at hwork
    exact hok result middle hwork

theorem meets_get_bind {next : Forest → Building α} (hnext : (next forest).Meets forest asked) :
    (get >>= next).Meets forest asked := hnext

theorem meets_make_bind {step : Forest → NodeId × Forest} {next : NodeId → Building α}
    (hnext : (next (step forest).1).Meets (step forest).2 asked) :
    (make step >>= next).Meets forest asked := hnext

/-- Work that keeps a property of forests, also when it fails. -/
def Preserves (work : Building α) (property : Forest → Prop) : Prop :=
  ∀ forest, property forest → work.Meets forest fun _ after => property after

variable {property : Forest → Prop}

theorem preserves_pure (result : α) : (pure result : Building α).Preserves property :=
  fun _ hforest => hforest

theorem preserves_get : (get : Building Forest).Preserves property := fun _ hforest => hforest

theorem preserves_check {ε : Type} (failed : ε → PlanError) (result : Except ε α) :
    (check failed result).Preserves property := by
  intro forest hforest
  cases result with
  | ok value => exact hforest
  | error reason => exact hforest

theorem preserves_make {step : Forest → NodeId × Forest}
    (hstep : ∀ forest, property forest → property (step forest).2) :
    (make step).Preserves property := hstep

theorem Preserves.bind {work : Building α} {next : α → Building β}
    (hwork : work.Preserves property) (hnext : ∀ result, (next result).Preserves property) :
    (work >>= next).Preserves property := fun forest hforest =>
  (hwork forest hforest).bind (fun result middle hmiddle => hnext result middle hmiddle)
    fun _ _ hmiddle => hmiddle

theorem Preserves.map {work : Building α} (hwork : work.Preserves property) (f : α → β) :
    (work >>= fun result => pure (f result)).Preserves property :=
  hwork.bind fun _ => preserves_pure _

end Building

/-- Whether a property of forests is kept whenever a node is made. -/
structure Forest.KeptByMaking (property : Forest → Prop) : Prop where
  sow : ∀ (forest : Forest) (content : Content),
    property forest → property (forest.sow content).2
  build : ∀ (forest : Forest) (builder : Builder),
    property forest → property (builder.build forest).2

open Forest

variable {property : Forest → Prop}

theorem Building.preserves_make_offer (hkept : KeptByMaking property) (offer : Offer) :
    (make offer.build).Preserves property := by
  apply preserves_make
  intro forest hforest
  cases offer with
  | made id => exact hforest
  | pending builder => exact hkept.build forest builder hforest

theorem Building.preserves_buildAll (hkept : KeptByMaking property) (offers : List Offer) :
    (buildAll offers).Preserves property := by
  induction offers with
  | nil => exact preserves_pure []
  | cons offer offers ih =>
      exact (preserves_make_offer hkept offer).bind fun id => ih.map (id :: ·)

mutual

/-- Such a property is kept by every plan. -/
theorem Plan.preserves_run (hkept : KeptByMaking property) (holdings : Holdings NodeId)
    (plan : Plan) : (plan.run holdings).Preserves property := by
  cases plan with
  | done => exact Building.preserves_pure []
  | leaf content rest =>
      apply (Building.preserves_make fun forest => hkept.sow forest content).bind
      exact fun id => (rest.preserves_run hkept holdings).map (id :: ·)
  | held name rest =>
      apply (Building.preserves_check .lookup (holdings.treeNode name)).bind
      exact fun id => (rest.preserves_run hkept holdings).map (id :: ·)
  | build calls rest =>
      apply (calls.preserves_run hkept holdings).bind
      intro builder
      apply (Building.preserves_make fun forest => hkept.build forest builder).bind
      exact fun id => (rest.preserves_run hkept holdings).map (id :: ·)

theorem Calls.preserves_run (hkept : KeptByMaking property) (holdings : Holdings NodeId)
    (calls : Calls) : (calls.run holdings).Preserves property := by
  cases calls with
  | opened container => exact Building.preserves_pure _
  | addAttributes earlier nodes =>
      apply (earlier.preserves_run hkept holdings).bind
      intro builder
      apply (nodes.preserves_run hkept holdings).bind
      intro attributes
      exact Building.preserves_get.bind fun forest => Building.preserves_check .build _
  | addChildren earlier offers =>
      apply (earlier.preserves_run hkept holdings).bind
      intro builder
      apply (offers.preserves_run hkept holdings).bind
      exact fun offered => (Building.preserves_buildAll hkept offered).map builder.addChildren

theorem Offers.preserves_run (hkept : KeptByMaking property) (holdings : Holdings NodeId)
    (offers : Offers) : (offers.run holdings).Preserves property := by
  cases offers with
  | done => exact Building.preserves_pure []
  | nodes plan rest =>
      apply (plan.preserves_run hkept holdings).bind
      exact fun ids => (rest.preserves_run hkept holdings).map (ids.map Offer.made ++ ·)
  | builder calls rest =>
      apply (calls.preserves_run hkept holdings).bind
      exact fun builder => (rest.preserves_run hkept holdings).map (Offer.pending builder :: ·)

end

end XPathTree

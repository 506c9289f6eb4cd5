import XPathTree.Proofs.Forest.Calls
import XPathTree.Proofs.Forest.Shape
import XPathTree.Proofs.Session.Building
import XPathTree.Proofs.Session.Holdings

/-! # The shapes that plans make

A plan says the shapes of what it makes, and whether it can be carried out, as soon as
the shapes of the held nodes are known. Which of its nodes are moved and which are copied
does not show in the shapes, nor does it show whether a builder builds before the call that
hands it over or in that call. Plans, calls and offers are followed together, each beside
what it says.
-/

namespace XPathTree

open Forest

section Shapes

variable (shapeOf : String → Except LookupError (Tree Content))

mutual

/-- The shapes of what a plan makes, from the shapes of the nodes that are held. -/
def Plan.shapes : Plan → Except PlanError (Hedge Content)
  | .done => return .nil
  | .leaf content rest => do
      return .cons content .nil .nil (← rest.shapes)
  | .held name rest => do
      let shape ← (shapeOf name).mapError .lookup
      return .cons shape.root shape.attributes shape.children (← rest.shapes)
  | .build calls rest => do
      let shape ← calls.shape
      return .cons shape.root shape.attributes shape.children (← rest.shapes)

/-- The shape of what a builder builds after the calls. -/
def Calls.shape : Calls → Except PlanError (Tree Content)
  | .opened container => return ⟨container.content, .nil, .nil⟩
  | .addAttributes earlier nodes => do
      let shape ← earlier.shape
      let row ← nodes.shapes
      if ∀ content ∈ row.roots, content.kind = .attribute then
        return { shape with attributes := shape.attributes ++ row }
      else throw (.build .notAnAttribute)
  | .addChildren earlier offers => do
      let shape ← earlier.shape
      return { shape with children := shape.children ++ (← offers.shapes) }

def Offers.shapes : Offers → Except PlanError (Hedge Content)
  | .done => return .nil
  | .nodes plan rest => do
      let row ← plan.shapes
      return row ++ (← rest.shapes)
  | .builder calls rest => do
      let shape ← calls.shape
      return .cons shape.root shape.attributes shape.children (← rest.shapes)

end

end Shapes

namespace Forest

/-- The shape of the node that a name leads to. -/
def shapeHeld (forest : Forest) (holdings : Holdings NodeId) (name : String) :
    Except LookupError (Tree Content) := do
  match forest.contents? (← holdings.treeNode name) with
  | some shape => return shape
  | none => throw (.notHeld name)

end Forest

/-! ## What shows a shape -/

variable {before middle after : Forest} {ids : List NodeId} {row : Hedge Content}
  {shape : Tree Content}

/-- Whether the nodes have the shapes of the row. -/
def Forest.Shows (forest : Forest) (ids : List NodeId) (row : Hedge Content) : Prop :=
  ids.map forest.contents? = row.trees.map some

/-- Whether a builder would build a node of that shape. -/
structure Builder.Shows (forest : Forest) (builder : Builder) (shape : Tree Content) : Prop where
  root_eq : shape.root = builder.container.content
  attributes : forest.Shows builder.attributes shape.attributes
  children : forest.Shows builder.children shape.children

def Offer.Shows (forest : Forest) : Offer → Tree Content → Prop
  | made id, shape => forest.contents? id = some shape
  | pending builder, shape => builder.Shows forest shape

namespace Forest

variable {forest : Forest} {id : NodeId}

theorem shows_nil (forest : Forest) : forest.Shows [] .nil := rfl

theorem Shows.cons (hid : forest.contents? id = some shape) (hids : forest.Shows ids row) :
    forest.Shows (id :: ids) (.cons shape.root shape.attributes shape.children row) :=
  congrArg₂ List.cons hid hids

theorem Shows.append {others : List NodeId} {other : Hedge Content} (hids : forest.Shows ids row)
    (hothers : forest.Shows others other) : forest.Shows (ids ++ others) (row ++ other) := by
  rw [Shows, List.map_append, hids, hothers, Hedge.trees_append, List.map_append]

theorem Shows.mem_ids (hids : forest.Shows ids row) (hid : id ∈ ids) : id ∈ forest.ids :=
  mem_ids_of_map_contents? hids hid

/-- Shapes that are there stay as they are. -/
theorem Shows.of_keeps (hids : before.Shows ids row) (hkeeps : before.Keeps after) :
    after.Shows ids row :=
  (hkeeps.map_contents?_eq fun _ hid => hids.mem_ids hid).trans hids

theorem Shows.content?_eq (hids : forest.Shows ids row) :
    ids.map forest.content? = row.roots.map some := by
  rw [List.map_congr_left fun id _ => forest.content?_eq_map id, Hedge.roots, List.map_map]
  have hroots := congrArg (List.map (Option.map Tree.root)) hids
  rw [List.map_map, List.map_map] at hroots
  exact hroots

/-- Whether nodes can be handed over as attributes shows in their shapes. -/
theorem Shows.isAttribute_iff (hids : forest.Shows ids row) :
    (∀ id ∈ ids, forest.IsAttribute id) ↔ ∀ content ∈ row.roots, content.kind = .attribute := by
  have hkinds := congrArg (List.map (Option.map Content.kind)) hids.content?_eq
  rw [List.map_map, List.map_map] at hkinds
  have hall := congrArg (fun kinds => ∀ kind ∈ kinds, kind = some NodeKind.attribute) hkinds
  simpa [IsAttribute] using hall

theorem shows_made (hids : forest.Shows ids row) :
    List.Forall₂ (Offer.Shows forest) (ids.map .made) row.trees := by
  have heq : List.Forall₂ (· = ·) (ids.map forest.contents?) (row.trees.map some) :=
    hids ▸ List.forall₂_refl _
  rw [List.forall₂_map_left_iff, List.forall₂_map_right_iff] at heq
  exact List.forall₂_map_left_iff.mpr heq

end Forest

theorem Builder.Shows.of_keeps {builder : Builder} (hbuilder : builder.Shows before shape)
    (hkeeps : before.Keeps after) : builder.Shows after shape where
  root_eq := hbuilder.root_eq
  attributes := hbuilder.attributes.of_keeps hkeeps
  children := hbuilder.children.of_keeps hkeeps

theorem Offer.Shows.of_keeps {offer : Offer} (hoffer : offer.Shows before shape)
    (hkeeps : before.Keeps after) : offer.Shows after shape := by
  cases offer with
  | made id => exact (hkeeps.contents?_eq (mem_ids_of_contents? hoffer)).trans hoffer
  | pending builder => exact Builder.Shows.of_keeps hoffer hkeeps

/-! ## Carrying out a plan -/

/-- Whether work that was begun on the first forest ended as was said: what it made shows what
was said of it, or it failed as was said. -/
structure Forest.Comes {α β : Type} (before : Forest) (shows : Forest → α → β → Prop)
    (said : Except PlanError β) (made : Except PlanError α) (after : Forest) : Prop where
  grows : before.Grows after
  wellFormed : after.WellFormed
  exists_said : ∀ result, made = .ok result → ∃ value, said = .ok value ∧ shows after result value
  said_error : ∀ reason, made = .error reason → said = .error reason

namespace Forest.Comes

variable {α β : Type} {forest : Forest} {shows : Forest → α → β → Prop}
  {said : Except PlanError β} {made : Except PlanError α}

theorem of_ok {result : α} {value : β} (hgrows : before.Grows after) (hafter : after.WellFormed)
    (hshows : shows after result value) : before.Comes shows (.ok value) (.ok result) after where
  grows := hgrows
  wellFormed := hafter
  exists_said other hother := by
    obtain rfl := Except.ok.inj hother
    exact ⟨value, rfl, hshows⟩
  said_error _ hreason := nomatch hreason

theorem of_error {reason : PlanError} (hgrows : before.Grows after) (hafter : after.WellFormed) :
    before.Comes shows (.error reason) (.error reason) after where
  grows := hgrows
  wellFormed := hafter
  exists_said _ hresult := nomatch hresult
  said_error _ hreason := Except.error.inj hreason ▸ rfl

/-- What began later began after what was there before. -/
theorem of_grows (hcomes : middle.Comes shows said made after) (hgrows : before.Grows middle) :
    before.Comes shows said made after :=
  { hcomes with grows := hgrows.trans hcomes.grows }

end Forest.Comes

namespace Building

variable {α β γ δ : Type} {forest : Forest} {shows : Forest → α → β → Prop}
  {asked : Forest → γ → δ → Prop}

theorem comes_pure {result : α} {value : β} (hforest : forest.WellFormed)
    (hshows : shows forest result value) :
    (pure result : Building α).Meets forest (forest.Comes shows (pure value)) :=
  .of_ok (.refl forest) hforest hshows

/-- Work in two steps comes to what is said in two steps. -/
theorem Meets.comes_bind {work : Building α} {next : α → Building γ} {said : Except PlanError β}
    {further : β → Except PlanError δ} (hwork : work.Meets forest (forest.Comes shows said))
    (hnext : ∀ result value middle, forest.Grows middle → middle.WellFormed →
      shows middle result value →
        (next result).Meets middle (middle.Comes asked (further value))) :
    (work >>= next).Meets forest (forest.Comes asked (said >>= further)) := by
  refine hwork.bind ?_ ?_
  · intro result middle hmiddle
    obtain ⟨value, rfl, hshows⟩ := hmiddle.exists_said result rfl
    exact (hnext result value middle hmiddle.grows hmiddle.wellFormed hshows).of_grows hmiddle.grows
  · intro reason middle hmiddle
    rw [hmiddle.said_error reason rfl]
    exact .of_error hmiddle.grows hmiddle.wellFormed

/-- The second step is said at once where it is known what the first one comes to. -/
theorem Meets.comes_pure_bind {work : Building α} {next : α → Building γ} {value : β}
    {said : Except PlanError δ} (hwork : work.Meets forest (forest.Comes shows (pure value)))
    (hnext : ∀ result middle, forest.Grows middle → middle.WellFormed →
      shows middle result value → (next result).Meets middle (middle.Comes asked said)) :
    (work >>= next).Meets forest (forest.Comes asked said) := by
  refine hwork.bind ?_ fun reason middle hmiddle => nomatch hmiddle.said_error reason rfl
  intro result middle hmiddle
  obtain ⟨other, hvalue, hshows⟩ := hmiddle.exists_said result rfl
  obtain rfl := Except.ok.inj hvalue
  exact (hnext result middle hmiddle.grows hmiddle.wellFormed hshows).of_grows hmiddle.grows

/-- A check comes to what is said if it passes as is said and fails as is said. -/
theorem comes_check {ε : Type} {failed : ε → PlanError} {result : Except ε α}
    {said : Except PlanError β} (hforest : forest.WellFormed)
    (hok : ∀ made, result = .ok made → ∃ value, said = .ok value ∧ shows forest made value)
    (herror : ∀ reason, result = .error reason → said = .error (failed reason)) :
    (check failed result).Meets forest (forest.Comes shows said) := by
  cases result with
  | ok made =>
      obtain ⟨value, rfl, hshows⟩ := hok made rfl
      exact .of_ok (.refl forest) hforest hshows
  | error reason =>
      rw [herror reason rfl]
      exact .of_error (.refl forest) hforest

/-- Whether a node that was made has the shape. -/
def MadeAs (forest : Forest) (id : NodeId) (shape : Tree Content) : Prop :=
  forest.contents? id = some shape

theorem comes_make_sow (hforest : forest.WellFormed) (content : Content) :
    (make fun forest => forest.sow content).Meets forest
      (forest.Comes MadeAs (pure ⟨content, .nil, .nil⟩)) :=
  .of_ok (grows_sow forest content) (hforest.sow content) (contents?_sow hforest content)

/-- A builder builds a node of the shape that it shows. -/
theorem comes_make_build (hforest : forest.WellFormed) {builder : Builder}
    (hbuilder : builder.Shows forest shape) :
    (make builder.build).Meets forest (forest.Comes MadeAs (pure shape)) := by
  obtain ⟨root, attributes, children⟩ := shape
  obtain ⟨rfl, hattributes, hchildren⟩ := hbuilder
  have hhanded : ∀ id ∈ builder.handed, id ∈ forest.ids :=
    List.forall_mem_append.mpr ⟨fun _ hid => hattributes.mem_ids hid,
      fun _ hid => hchildren.mem_ids hid⟩
  obtain ⟨⟨root, _, _⟩, hshape, rfl, hattributes', hchildren'⟩ :=
    builder.contents?_build hforest hhanded
  obtain rfl := Hedge.eq_of_map_some_trees (hattributes'.trans hattributes)
  obtain rfl := Hedge.eq_of_map_some_trees (hchildren'.trans hchildren)
  exact .of_ok (builder.grows_build hforest) (builder.wellFormed_build hforest) hshape

theorem comes_make_offer (hforest : forest.WellFormed) {offer : Offer}
    (hoffer : offer.Shows forest shape) :
    (make offer.build).Meets forest (forest.Comes MadeAs (pure shape)) := by
  cases offer with
  | made id => exact .of_ok (.refl forest) hforest hoffer
  | pending builder => exact comes_make_build hforest hoffer

/-- One node and then others come to one shape and then others. -/
theorem Meets.comes_cons {work : Building NodeId} {rest : Building (List NodeId)}
    {said : Except PlanError (Tree Content)} {others : Except PlanError (Hedge Content)}
    (hwork : work.Meets forest (forest.Comes MadeAs said))
    (hrest : ∀ middle, forest.Grows middle → middle.WellFormed →
      rest.Meets middle (middle.Comes Forest.Shows others)) :
    (work >>= fun id => rest >>= fun ids => pure (id :: ids)).Meets forest
      (forest.Comes Forest.Shows (said >>= fun shape => others >>= fun row =>
        pure (.cons shape.root shape.attributes shape.children row))) := by
  refine hwork.comes_bind ?_
  intro id shape first hgrows hfirst hid
  refine (hrest first hgrows hfirst).comes_bind ?_
  intro ids row second hgrows' hsecond hids
  have hkept := (hgrows'.keeps.contents?_eq (mem_ids_of_contents? hid)).trans hid
  exact comes_pure hsecond (hids.cons hkept)

theorem comes_buildAll (hforest : forest.WellFormed) {offers : List Offer}
    (hoffers : List.Forall₂ (Offer.Shows forest) offers row.trees) :
    (buildAll offers).Meets forest (forest.Comes Forest.Shows (pure row)) := by
  induction offers generalizing forest row with
  | nil =>
      cases row with
      | nil => exact comes_pure hforest forest.shows_nil
      | cons root attributes children rest => cases hoffers
  | cons offer offers ih =>
      cases row with
      | nil => cases hoffers
      | cons root attributes children rest =>
          obtain ⟨hoffer, hoffers⟩ := List.forall₂_cons.mp hoffers
          have hrest : ∀ middle, forest.Grows middle → middle.WellFormed →
              (buildAll offers).Meets middle (middle.Comes Forest.Shows (pure rest)) :=
            fun middle hgrows hmiddle =>
              ih hmiddle (hoffers.imp fun _ _ hoffer => hoffer.of_keeps hgrows.keeps)
          exact (comes_make_offer hforest hoffer).comes_cons hrest

end Building

section Run

variable {base : Forest} {holdings : Holdings NodeId}

theorem Forest.exists_shapeHeld (hheld : ∀ id ∈ holdings.owned, id ∈ base.ids) {name : String}
    {id : NodeId} (hnode : holdings.treeNode name = .ok id) :
    ∃ shape, base.shapeHeld holdings name = .ok shape ∧ base.contents? id = some shape := by
  obtain ⟨shape, hshape⟩ := exists_contents? (hheld id (Holdings.mem_owned_of_treeNode hnode))
  refine ⟨shape, ?_, hshape⟩
  simp only [shapeHeld, hnode, bind, Except.bind, hshape]
  rfl

theorem Forest.shapeHeld_eq_error {name : String} {reason : LookupError}
    (hnode : holdings.treeNode name = .error reason) :
    base.shapeHeld holdings name = .error reason := by
  rw [shapeHeld, hnode]
  rfl

mutual

/-- Carrying out a plan comes to the shapes that the plan says, or to the failure. It may begin
when more has been made than was there when the nodes were held. -/
theorem Plan.comes_run (hheld : ∀ id ∈ holdings.owned, id ∈ base.ids) (plan : Plan)
    {forest : Forest} (hforest : forest.WellFormed) (hkeeps : base.Keeps forest) :
    (plan.run holdings).Meets forest
      (forest.Comes Forest.Shows (plan.shapes (base.shapeHeld holdings))) := by
  cases plan with
  | done => exact Building.comes_pure hforest forest.shows_nil
  | leaf content rest =>
      refine (Building.comes_make_sow hforest content).comes_cons ?_
      exact fun middle hgrows hmiddle => rest.comes_run hheld hmiddle (hkeeps.trans hgrows.keeps)
  | held name rest =>
      refine Building.Meets.comes_cons ?_ fun middle hgrows hmiddle =>
        rest.comes_run hheld hmiddle (hkeeps.trans hgrows.keeps)
      refine Building.comes_check hforest ?_ ?_
      · intro id hnode
        obtain ⟨shape, hsaid, hshape⟩ := exists_shapeHeld hheld hnode
        refine ⟨shape, by rw [hsaid]; rfl, ?_⟩
        exact (hkeeps.contents?_eq (mem_ids_of_contents? hshape)).trans hshape
      · intro reason hnode
        rw [shapeHeld_eq_error hnode]
        rfl
  | build calls rest =>
      refine (calls.comes_run hheld hforest hkeeps).comes_bind ?_
      intro builder shape first hgrows hfirst hbuilder
      refine (Building.comes_make_build hfirst hbuilder).comes_cons ?_
      intro second hgrows' hsecond
      exact rest.comes_run hheld hsecond ((hkeeps.trans hgrows.keeps).trans hgrows'.keeps)

theorem Calls.comes_run (hheld : ∀ id ∈ holdings.owned, id ∈ base.ids) (calls : Calls)
    {forest : Forest} (hforest : forest.WellFormed) (hkeeps : base.Keeps forest) :
    (calls.run holdings).Meets forest
      (forest.Comes Builder.Shows (calls.shape (base.shapeHeld holdings))) := by
  cases calls with
  | opened container =>
      exact Building.comes_pure hforest ⟨rfl, forest.shows_nil, forest.shows_nil⟩
  | addAttributes earlier nodes =>
      refine (earlier.comes_run hheld hforest hkeeps).comes_bind ?_
      intro builder shape first hgrows hfirst hbuilder
      refine (nodes.comes_run hheld hfirst (hkeeps.trans hgrows.keeps)).comes_bind ?_
      intro attributes row second hgrows' hsecond hattributes
      refine Building.meets_get_bind (Building.comes_check hsecond ?_ ?_)
      · intro called hcalled
        obtain ⟨hall, rfl⟩ := Builder.addAttributes_eq_ok_iff.mp hcalled
        rw [if_pos (hattributes.isAttribute_iff.mp hall)]
        have hkept := hbuilder.of_keeps hgrows'.keeps
        exact ⟨_, rfl, { hkept with attributes := hkept.attributes.append hattributes }⟩
      · intro reason hfailed
        obtain ⟨hnot, rfl⟩ := Builder.addAttributes_eq_error_iff.mp hfailed
        rw [if_neg (hattributes.isAttribute_iff.not.mp hnot)]
        rfl
  | addChildren earlier offers =>
      refine (earlier.comes_run hheld hforest hkeeps).comes_bind ?_
      intro builder shape first hgrows hfirst hbuilder
      refine (offers.comes_run hheld hfirst (hkeeps.trans hgrows.keeps)).comes_bind ?_
      intro offered row second hgrows' hsecond hoffered
      refine (Building.comes_buildAll hsecond hoffered).comes_pure_bind ?_
      intro children third hgrows'' hthird hchildren
      rw [Builder.addChildren_eq]
      have hkept := (hbuilder.of_keeps hgrows'.keeps).of_keeps hgrows''.keeps
      exact Building.comes_pure hthird { hkept with children := hkept.children.append hchildren }

theorem Offers.comes_run (hheld : ∀ id ∈ holdings.owned, id ∈ base.ids) (offers : Offers)
    {forest : Forest} (hforest : forest.WellFormed) (hkeeps : base.Keeps forest) :
    (offers.run holdings).Meets forest
      (forest.Comes (fun after offered row => List.Forall₂ (Offer.Shows after) offered row.trees)
        (offers.shapes (base.shapeHeld holdings))) := by
  cases offers with
  | done => exact Building.comes_pure hforest .nil
  | nodes plan rest =>
      refine (plan.comes_run hheld hforest hkeeps).comes_bind ?_
      intro ids row first hgrows hfirst hids
      refine (rest.comes_run hheld hfirst (hkeeps.trans hgrows.keeps)).comes_bind ?_
      intro offered others second hgrows' hsecond hoffered
      refine Building.comes_pure hsecond ?_
      rw [Hedge.trees_append]
      exact List.rel_append (shows_made (hids.of_keeps hgrows'.keeps)) hoffered
  | builder calls rest =>
      refine (calls.comes_run hheld hforest hkeeps).comes_bind ?_
      intro builder shape first hgrows hfirst hbuilder
      refine (rest.comes_run hheld hfirst (hkeeps.trans hgrows.keeps)).comes_bind ?_
      intro offered others second hgrows' hsecond hoffered
      exact Building.comes_pure hsecond (.cons (hbuilder.of_keeps hgrows'.keeps) hoffered)

end

end Run

theorem Forest.comes_carryOut {forest : Forest} {holdings : Holdings NodeId}
    (hforest : forest.WellFormed) (hheld : ∀ id ∈ holdings.owned, id ∈ forest.ids) (plan : Plan) :
    forest.Comes Forest.Shows (plan.shapes (forest.shapeHeld holdings))
      (forest.carryOut holdings plan).1 (forest.carryOut holdings plan).2 :=
  plan.comes_run hheld hforest (.refl forest)

end XPathTree

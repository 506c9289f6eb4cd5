import XPathTree.Proofs.Session.Shape

/-! # Sharing

Sharing a node and copying it come to the same shapes. So a build depends on its expression
with every node that is used again replaced by its shape, and the order in which two plans are
carried out does not show.
-/

namespace XPathTree

open Forest

namespace Forest

/-- The shapes of the nodes that were made, where they were. -/
def shapesMade (forest : Forest) (made : Except PlanError (List NodeId)) :
    Except PlanError (List (Option (Tree Content))) :=
  made.map (List.map forest.contents?)

variable {before middle after : Forest} {said : Except PlanError (Hedge Content)}
  {made : Except PlanError (List NodeId)}

theorem Comes.shapesMade_eq (hcomes : before.Comes Forest.Shows said made after) :
    after.shapesMade made = said.map fun row => row.trees.map some := by
  cases made with
  | error reason =>
      rw [hcomes.said_error reason rfl]
      rfl
  | ok ids =>
      obtain ⟨row, rfl, hids⟩ := hcomes.exists_said ids rfl
      exact congrArg Except.ok hids

/-- What was made shows the same shapes when more has been made. -/
theorem Comes.shapesMade_eq_of_keeps (hcomes : before.Comes Forest.Shows said made middle)
    (hkeeps : middle.Keeps after) : after.shapesMade made = middle.shapesMade made := by
  cases made with
  | error reason => rfl
  | ok ids =>
      obtain ⟨row, rfl, hids⟩ := hcomes.exists_said ids rfl
      exact congrArg Except.ok (hkeeps.map_contents?_eq fun id hid => hids.mem_ids hid)

end Forest

/-- What does not show in the shapes of a forest: which of its nodes were shared, repeated,
orphaned or copied, and in what order they were put to use. -/
structure Forest.SharingUnseen (forest : Forest) : Prop where
  /-- The shape of a node is its content over the shapes of its attributes and children. -/
  shape_iff : ∀ id shape, forest.contents? id = some shape ↔
    forest.content? id = some shape.root ∧
      (forest.attributes id).map forest.contents? = shape.attributes.trees.map some ∧
      (forest.children id).map forest.contents? = shape.children.trees.map some
  /-- Calls to a builder pass just if they hand over only attributes as attributes. -/
  passes_iff : ∀ (container : Container) (calls : List Builder.Call),
    (∃ builder, (Builder.ofContainer container).callAll forest calls = .ok builder) ↔
      ∀ id ∈ calls.flatMap Builder.Call.toAttributes, forest.IsAttribute id
  /-- Whatever calls a builder was handed its nodes by, it builds over their shapes. -/
  called : ∀ (container : Container) (calls : List Builder.Call) (builder : Builder),
    (Builder.ofContainer container).callAll forest calls = .ok builder →
      (∀ id ∈ builder.handed, id ∈ forest.ids) →
        ∃ shape, (builder.build forest).2.contents? (builder.build forest).1 = some shape ∧
          shape.root = container.content ∧
          shape.attributes.trees.map some =
            (calls.flatMap Builder.Call.toAttributes).map forest.contents? ∧
          shape.children.trees.map some =
            (calls.flatMap Builder.Call.toChildren).map forest.contents?
  /-- The shapes that are there stay, whatever is built over them. -/
  kept : ∀ builder : Builder, ∀ id ∈ forest.ids,
    (builder.build forest).2.contents? id = forest.contents? id
  /-- A plan comes to the shapes that it says with the held nodes replaced by theirs. -/
  planned : ∀ (holdings : Holdings NodeId) (plan : Plan),
    (∀ id ∈ holdings.owned, id ∈ forest.ids) →
      (forest.carryOut holdings plan).2.shapesMade (forest.carryOut holdings plan).1 =
        (plan.shapes (forest.shapeHeld holdings)).map fun row => row.trees.map some
  /-- Two plans come to the same shapes, whichever is carried out first. -/
  either_order : ∀ (holdings : Holdings NodeId) (first second : Plan),
    (∀ id ∈ holdings.owned, id ∈ forest.ids) →
      let (madeFirst, afterFirst) := forest.carryOut holdings first
      let (madeThen, afterThen) := afterFirst.carryOut holdings second
      let (madeSecond, afterSecond) := forest.carryOut holdings second
      let (madeLast, afterLast) := afterSecond.carryOut holdings first
      afterThen.shapesMade madeFirst = afterLast.shapesMade madeLast ∧
        afterThen.shapesMade madeThen = afterLast.shapesMade madeSecond

/-- A plan that is carried out before another is seen afterwards as it was. -/
theorem Plan.shapesMade_then {forest : Forest} (hforest : forest.WellFormed)
    {holdings : Holdings NodeId} (hheld : ∀ id ∈ holdings.owned, id ∈ forest.ids)
    (first second : Plan) :
    ((forest.carryOut holdings first).2.carryOut holdings second).2.shapesMade
        (forest.carryOut holdings first).1 =
      (first.shapes (forest.shapeHeld holdings)).map (fun row => row.trees.map some) ∧
    ((forest.carryOut holdings first).2.carryOut holdings second).2.shapesMade
        ((forest.carryOut holdings first).2.carryOut holdings second).1 =
      (second.shapes (forest.shapeHeld holdings)).map fun row => row.trees.map some := by
  have hfirst := comes_carryOut hforest hheld first
  have hsecond := second.comes_run hheld hfirst.wellFormed hfirst.grows.keeps
  exact ⟨(hfirst.shapesMade_eq_of_keeps hsecond.grows.keeps).trans hfirst.shapesMade_eq,
    Comes.shapesMade_eq hsecond⟩

/-- Sharing a node and copying it come to the same shapes. -/
theorem Forest.Reachable.sharingUnseen {forest : Forest} (hforest : forest.Reachable) :
    forest.SharingUnseen where
  shape_iff := hforest.wellFormed.contents?_eq_some_iff
  passes_iff container calls := by
    simp only [Builder.callAll_eq_ok_iff, exists_and_left, exists_eq, and_true]
  called := by
    intro container calls builder hcalls hhanded
    obtain ⟨_, rfl⟩ := Builder.callAll_eq_ok_iff.mp hcalls
    simpa [Builder.ofContainer] using Builder.contents?_build _ hforest.wellFormed hhanded
  kept builder id hid := (builder.grows_build hforest.wellFormed).keeps.contents?_eq hid
  planned holdings plan hheld := (comes_carryOut hforest.wellFormed hheld plan).shapesMade_eq
  either_order := by
    intro holdings first second hheld
    obtain ⟨hfirst, hthen⟩ := Plan.shapesMade_then hforest.wellFormed hheld first second
    obtain ⟨hsecond, hlast⟩ := Plan.shapesMade_then hforest.wellFormed hheld second first
    exact ⟨hfirst.trans hlast.symm, hthen.trans hsecond.symm⟩

/-- The attribute, the orphaned text and the element of `orphaningForest`, by name. -/
def orphaningHoldings : Holdings NodeId :=
  ((Holdings.empty.insert "a" (.treeNode 0)).insert "t" (.treeNode 1)).insert "f" (.treeNode 3)

/-- An element over all three, each of them twice: in two calls for the attribute, with a
builder for another such element handed over between the texts. -/
def repeatingPlan : Plan :=
  let inner := Calls.addChildren
    (.addAttributes (.opened (.ofElement "h")) (.held "a" .done))
    (.nodes (.held "f" (.held "f" .done)) .done)
  let outer := Calls.addChildren
    (.addAttributes (.opened (.ofElement "g")) (.held "a" .done))
    (.nodes (.held "t" .done) (.builder inner (.nodes (.held "t" .done) .done)))
  .build (.addAttributes outer (.held "a" .done)) .done

theorem sharingUnseen_orphaning :
    orphaningForest.Reachable ∧ orphaningForest.SharingUnseen ∧
      (orphaningForest.carryOut orphaningHoldings repeatingPlan).2.shapesMade
          (orphaningForest.carryOut orphaningHoldings repeatingPlan).1 =
        .ok [some ⟨(Container.ofElement "g").content,
          .cons (.ofAttribute "a" "1") .nil .nil (.cons (.ofAttribute "a" "1") .nil .nil .nil),
          .cons (.text "t") .nil .nil
            (.cons (Container.ofElement "h").content
              (.cons (.ofAttribute "a" "1") .nil .nil .nil)
              (.cons (Container.ofElement "f").content .nil (.cons (.text "t") .nil .nil .nil)
                (.cons (Container.ofElement "f").content .nil (.cons (.text "t") .nil .nil .nil)
                  .nil))
              (.cons (.text "t") .nil .nil .nil))⟩] := by
  have hreachable : orphaningForest.Reachable :=
    ((((Reachable.empty.sow _).sow _).build _).retain _).build _
  have hshares := hreachable.sharingUnseen
  have hheld : ∀ id ∈ orphaningHoldings.owned, id ∈ orphaningForest.ids := by
    decide +kernel
  refine ⟨hreachable, hshares, (hshares.planned orphaningHoldings repeatingPlan hheld).trans ?_⟩
  decide +kernel

end XPathTree

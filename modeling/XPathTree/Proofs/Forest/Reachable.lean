import XPathTree.Proofs.Forest.Ancestry
import XPathTree.Proofs.Forest.Assemble
import XPathTree.Proofs.Session.Building
import XPathTree.Session.Basic

/-! # Reachable forests

The forests that come about by making nodes, by building over whatever nodes there are
and by letting go of some of them, in any order. All of them are well formed, so in all
of them the nodes stand in trees whose links agree.
-/

namespace XPathTree

namespace Forest

/-- What comes about from nothing, one step after another. -/
inductive Reachable : Forest → Prop
  | empty : Reachable Forest.empty
  | sow {forest : Forest} (hforest : Reachable forest) (content : Content) :
      Reachable (forest.sow content).2
  | build {forest : Forest} (hforest : Reachable forest) (builder : Builder) :
      Reachable (builder.build forest).2
  | retain {forest : Forest} (hforest : Reachable forest) (held : List NodeId) :
      Reachable (forest.retain held)

variable {forest : Forest}

theorem Reachable.wellFormed (hforest : forest.Reachable) : forest.WellFormed := by
  induction hforest with
  | empty => exact .empty
  | sow _ content ih => exact ih.sow content
  | build _ builder ih => exact builder.wellFormed_build ih
  | retain _ held ih => exact ih.retain held

end Forest

/-! ## Plans -/

/-- Work that leads from reachable forests to reachable forests only, also when it fails. -/
def Building.Sound {α : Type} (work : Building α) : Prop :=
  ∀ forest : Forest, forest.Reachable → (work.run.run forest).2.Reachable

/-- Whatever a plan makes before it ends or fails is made step by step. -/
theorem Plan.sound_run (holdings : Holdings NodeId) (plan : Plan) : (plan.run holdings).Sound :=
  plan.preserves_run
    ⟨fun _ content hforest => hforest.sow content, fun _ builder hforest => hforest.build builder⟩
    holdings

theorem Forest.Reachable.carryOut {forest : Forest} (hforest : forest.Reachable)
    (holdings : Holdings NodeId) (plan : Plan) :
    (forest.carryOut holdings plan).2.Reachable :=
  plan.sound_run holdings forest hforest

theorem Session.reachable_build {session : Session Forest} (hsource : session.source.Reachable)
    (plan : Plan) : (session.build plan).2.source.Reachable :=
  hsource.carryOut session.holdings plan

theorem Session.reachable_settle {session : Session Forest}
    (hsource : session.source.Reachable) : session.settle.source.Reachable :=
  hsource.retain session.holdings.owned

/-! ## Links -/

namespace Forest

variable {forest : Forest}

/-- What links and places promise each other. The places of a node are those of its
attributes and then those of its children. -/
structure LinksAgree (forest : Forest) : Prop where
  parent_eq : ∀ id ∈ forest.ids, ∀ inner ∈ forest.below id, forest.parent? inner = some id
  one_place : ∀ (first second inner : NodeId) (i j : Nat),
    (forest.below first)[i]? = some inner → (forest.below second)[j]? = some inner →
      first = second ∧ i = j
  acyclic : ∀ id,
    ¬ Relation.TransGen (fun node above => forest.parent? node = some above) id id

/-- However nodes are shared, repeated, orphaned and let go of, the links agree. What a build
lists is all that was attached to the new node, in that order (`Builder.attributes_build`,
`Builder.children_build`). -/
theorem Reachable.linksAgree (hforest : forest.Reachable) : forest.LinksAgree where
  parent_eq id _ inner hinner := hforest.wellFormed.parent?_eq_some_iff.mpr hinner
  one_place := by
    intro first second inner i j hfirst hsecond
    have hparent : ∀ {above : NodeId} {place : Nat},
        (forest.below above)[place]? = some inner → forest.parent? inner = some above :=
      fun hplace => hforest.wellFormed.parent?_eq_some_iff.mpr (List.mem_of_getElem? hplace)
    obtain rfl := Option.some.inj ((hparent hfirst).symm.trans (hparent hsecond))
    have hthere := forest.mem_ids_of_parent? (hparent hfirst)
    have hnodup := (List.nodup_flatMap.mp hforest.wellFormed.nodup_below).1 first hthere
    obtain ⟨hlt, _⟩ := List.getElem?_eq_some_iff.mp hfirst
    exact ⟨rfl, (List.getElem?_inj hlt hnodup).mp (hfirst.trans hsecond.symm)⟩
  acyclic id hcycle := Nat.lt_irrefl _ (hforest.wellFormed.weight_lt_of_ancestor hcycle)

/-- An attribute and a text under an element that is let go of, and then again, with
repetitions, under one that comes twice in a document. -/
def reusingForest : Forest :=
  let sown := (Forest.empty.sow (.ofAttribute "a" "1")).2
  let sown := (sown.sow (.text "t")).2
  let built := ((Builder.mk (.ofElement "e") [0] [1, 1]).build sown).2
  let orphaned := built.retain [0, 1]
  let again := ((Builder.mk (.ofElement "f") [0] [1]).build orphaned).2
  ((Builder.mk .document [] [4, 4, 1]).build again).2

theorem linksAgree_reusing :
    reusingForest.Reachable ∧ reusingForest.below 7 = [4, 8, 11] ∧
      reusingForest.LinksAgree := by
  have hreachable : reusingForest.Reachable :=
    ((((((Reachable.empty.sow _).sow _).build _).retain _).build _).build _)
  refine ⟨hreachable, ?_, hreachable.linksAgree⟩
  decide +kernel

end Forest

end XPathTree

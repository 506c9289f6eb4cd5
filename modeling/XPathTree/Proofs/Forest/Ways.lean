import XPathTree.Proofs.Forest.Shape
import XPathTree.Proofs.Session.Owning
import XPathTree.Session.Walk

/-! # Ways down and up

A walk downwards goes by positions alone. So below two nodes of one shape, be they in one
forest or in two, it leads to nodes of one shape, and the ways back up pass nodes of the
same shapes.
-/

namespace XPathTree

universe u

variable {N : Type u} {parent : N → Option N}

/-- `Way parent node way above`: following `parent` from `node` leads to `above`, which is
the last of the nodes that are passed. -/
inductive Way (parent : N → Option N) : N → List N → N → Prop
  | here (node : N) : Way parent node [node] node
  | step {node next above : N} {rest : List N} (hnext : parent node = some next)
      (hrest : Way parent next rest above) : Way parent node (node :: rest) above

namespace Way

variable {node above further : N} {way other outer : List N}

/-- A way may go on by one node. -/
theorem snoc (hway : Way parent node way above) (hfurther : parent above = some further) :
    Way parent node (way ++ [further]) further := by
  induction hway with
  | here node => exact .step hfurther (.here further)
  | step hnext _ ih => exact .step hnext (ih hfurther)

/-- A way followed by the chain of the node it leads to is the chain of the node it starts at. -/
theorem parentChain (hway : Way parent node way above)
    (hchain : ParentChain parent above (above :: outer)) :
    ParentChain parent node (way ++ outer) := by
  induction hway with
  | here node => exact hchain
  | step hnext _ ih => exact .step hnext (ih hchain)

/-- Where chains are finite there is one way from a node to another at most. -/
theorem unique (hway : Way parent node way above) (hother : Way parent node other above)
    {chain : List N} (hchain : ParentChain parent above chain) : way = other := by
  rw [hchain.eq_cons_tail] at hchain
  exact List.append_cancel_right ((hway.parentChain hchain).unique (hother.parentChain hchain))

end Way

/-- Whether the hop leads to an attribute or a child. -/
def Hop.Descends : Hop → Prop
  | .attribute _ | .child _ => True
  | .parent | .ownerDocument => False

/-- Lists that read alike have members that read alike in the same places. -/
theorem exists_getElem?_of_map_eq {α β γ : Type} {f : α → γ} {g : β → γ} {first : List α}
    {second : List β} (hmap : first.map f = second.map g) {place : Nat} {member : β}
    (hmember : second[place]? = some member) :
    ∃ counterpart, first[place]? = some counterpart ∧ f counterpart = g member := by
  have hplace := congrArg (·[place]?) hmap
  simp only [List.getElem?_map, hmember, Option.map_some] at hplace
  exact Option.map_eq_some_iff.mp hplace

namespace Forest

variable {forest before after : Forest} {id other inner next above : NodeId}

/-! ## Walks downwards -/

theorem WellFormed.parent?_of_hop? (hforest : forest.WellFormed) {hop : Hop}
    (hdown : hop.Descends) (hhop : Source.hop? forest id hop = some next) :
    forest.parent? next = some id := by
  refine hforest.parent?_eq_some_iff.mpr ?_
  rcases hop with _ | _ | index | index
  · exact hdown.elim
  · exact hdown.elim
  · exact List.mem_append_left _ (List.mem_of_getElem? hhop)
  · exact List.mem_append_right _ (List.mem_of_getElem? hhop)

/-- A hop downwards is there from every node of the same shape. -/
theorem exists_hop?_of_contents? (hbefore : before.WellFormed) (hafter : after.WellFormed)
    (hshape : after.contents? other = before.contents? id) {hop : Hop} (hdown : hop.Descends)
    (hhop : Source.hop? before id hop = some next) :
    ∃ entry, Source.hop? after other hop = some entry ∧
      after.contents? entry = before.contents? next := by
  obtain ⟨hattributes, hchildren⟩ := map_contents?_eq_of_contents? hbefore hafter hshape
  rcases hop with _ | _ | index | index
  · exact hdown.elim
  · exact hdown.elim
  · exact exists_getElem?_of_map_eq hattributes hhop
  · exact exists_getElem?_of_map_eq hchildren hhop

/-- Walks downwards by the same positions from nodes of one shape lead to nodes of one shape,
and past such nodes. -/
theorem exists_walk?_of_contents? (hbefore : before.WellFormed) (hafter : after.WellFormed)
    {path : List Hop} (hdown : ∀ hop ∈ path, hop.Descends)
    (hshape : after.contents? other = before.contents? id)
    (hwalk : Source.walk? before id path = some inner) :
    ∃ entry way passed, Source.walk? after other path = some entry ∧
      after.contents? entry = before.contents? inner ∧
      Way before.parent? inner way id ∧ Way after.parent? entry passed other ∧
      passed.map after.contents? = way.map before.contents? := by
  induction path generalizing id other with
  | nil =>
      obtain rfl := Option.some.inj hwalk
      exact ⟨other, [id], [other], rfl, hshape, .here id, .here other,
        congrArg (fun shape => [shape]) hshape⟩
  | cons hop path ih =>
      obtain ⟨hhopDown, hpathDown⟩ := List.forall_mem_cons.mp hdown
      obtain ⟨next, hhop, hrest⟩ := Option.bind_eq_some_iff.mp hwalk
      obtain ⟨entry, hentry, hsame⟩ :=
        exists_hop?_of_contents? hbefore hafter hshape hhopDown hhop
      obtain ⟨last, way, passed, hlast, hcontents, hway, hpassed, hmap⟩ :=
        ih hpathDown hsame hrest
      refine ⟨last, way ++ [id], passed ++ [other], ?_, hcontents,
        hway.snoc (hbefore.parent?_of_hop? hhopDown hhop),
        hpassed.snoc (hafter.parent?_of_hop? hhopDown hentry), ?_⟩
      · rw [Source.walk?, hentry, Option.bind_some, hlast]
      · rw [List.map_append, List.map_append, hmap, List.map_singleton, List.map_singleton, hshape]

/-- Every node within a tree is at the end of a walk downwards. -/
theorem WellFormed.exists_walk?_of_mem_idsWithin (hforest : forest.WellFormed)
    (habove : above ∈ forest.ids) (hinner : inner ∈ forest.idsWithin above) :
    ∃ path, (∀ hop ∈ path, hop.Descends) ∧ Source.walk? forest above path = some inner := by
  have hpath : ∀ value, Relation.ReflTransGen forest.Owns value (.treeNode inner) →
      ∀ id, value = .treeNode id →
        ∃ path, (∀ hop ∈ path, hop.Descends) ∧ Source.walk? forest id path = some inner := by
    intro value hlinks
    induction hlinks using Relation.ReflTransGen.head_induction_on with
    | refl =>
        rintro id ⟨⟩
        exact ⟨[], by simp, rfl⟩
    | head hlink _ ih =>
        rintro id rfl
        cases hlink with
        | @below _ next hnext =>
            obtain ⟨path, hdown, hwalk⟩ := ih next rfl
            rcases List.mem_append.mp hnext with hattribute | hchild
            · obtain ⟨index, hindex⟩ := List.getElem?_of_mem hattribute
              refine ⟨.attribute index :: path, List.forall_mem_cons.mpr ⟨trivial, hdown⟩, ?_⟩
              exact Option.bind_eq_some_iff.mpr ⟨next, hindex, hwalk⟩
            · obtain ⟨index, hindex⟩ := List.getElem?_of_mem hchild
              refine ⟨.child index :: path, List.forall_mem_cons.mpr ⟨trivial, hdown⟩, ?_⟩
              exact Option.bind_eq_some_iff.mpr ⟨next, hindex, hwalk⟩
  exact hpath _ ((hforest.reaches_treeNode_iff habove).mpr hinner) above rfl

/-- The node at the top is the same all along a way up. -/
theorem WellFormed.top?_eq_of_way (hforest : forest.WellFormed) {way : List NodeId}
    (hway : Way forest.parent? id way above) : forest.top? id = forest.top? above := by
  induction hway with
  | here => rfl
  | @step node next above rest hnext _ ih =>
      obtain ⟨chain, hchain⟩ := hforest.exists_parentChain next
      rw [← ih, top?_eq (ParentChain.step hnext hchain), top?_eq hchain, hchain.eq_cons_tail,
        List.getLast?_cons_cons]

end Forest

end XPathTree

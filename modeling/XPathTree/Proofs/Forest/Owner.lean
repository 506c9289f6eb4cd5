import Mathlib.Data.List.TakeWhile
import XPathTree.Proofs.Forest.Reachable
import XPathTree.Proofs.Forest.Ways

/-! # The document over a node

The way up from a node ends, however the forest came about, and the node at its end alone
says which document the node belongs to. Nodes of one tree therefore belong to one document
or to none, a document that stands under another node owns nothing, and when the top of a
tree goes the document is the one that is then at the top, if there is one.
-/

namespace XPathTree.Forest

variable {forest : Forest} {id other above : NodeId}

/-- How documents own the nodes of a forest. -/
structure OwnersAtTop (forest : Forest) : Prop where
  /-- The way up from a node ends, and the owner is the document at the end of it. -/
  ends : ∀ id ∈ forest.ids, ∃ chain top, ParentChain forest.parent? id chain ∧
    chain.getLast? = some top ∧ forest.parent? top = none ∧ forest.top? id = some top ∧
    ∀ document, forest.ownerDocument? id = some document ↔
      ¬ forest.IsDocument id ∧ document = top ∧ forest.IsDocument top
  /-- What hangs together by parents has one owner, or none, documents apart. -/
  shared : ∀ id other,
    Relation.EqvGen (fun node above => forest.parent? node = some above) id other →
      ¬ forest.IsDocument id → ¬ forest.IsDocument other →
        forest.ownerDocument? id = forest.ownerDocument? other
  /-- What has a parent, a document among others, owns no node. -/
  outermost : ∀ document above, forest.parent? document = some above →
    ∀ id, forest.ownerDocument? id ≠ some document
  /-- When nodes are let go of, the way up is cut off at the first that is gone, and the owner
  is the document at its new end. -/
  recomputed : ∀ held id chain, id ∈ (forest.retain held).ids →
    ParentChain forest.parent? id chain →
      ParentChain (forest.retain held).parent? id
          (chain.takeWhile (· ∈ (forest.retain held).ids)) ∧
        ∀ document, (forest.retain held).ownerDocument? id = some document ↔
          ¬ forest.IsDocument id ∧
            (chain.takeWhile (· ∈ (forest.retain held).ids)).getLast? = some document ∧
            forest.IsDocument document

theorem parent?_eq_none_of_ownerDocument? (hforest : forest.WellFormed) {document : NodeId}
    (howner : forest.ownerDocument? id = some document) : forest.parent? document = none := by
  obtain ⟨chain, hchain⟩ := hforest.exists_parentChain id
  obtain ⟨top, htop, hnone⟩ := hchain.exists_getLast?
  obtain ⟨_, hlast, _⟩ := (ownerDocument?_eq_some_iff hchain).mp howner
  obtain rfl := Option.some.inj (htop.symm.trans hlast)
  exact hnone

/-- Nodes that hang together by parents have the same node at the top. -/
theorem WellFormed.top?_eq_of_eqvGen (hforest : forest.WellFormed)
    (htogether : Relation.EqvGen (fun node above => forest.parent? node = some above) id other) :
    forest.top? id = forest.top? other := by
  induction htogether with
  | rel node above hparent => exact hforest.top?_eq_of_way (.step hparent (.here above))
  | refl => rfl
  | symm _ _ _ ih => exact ih.symm
  | trans _ _ _ _ _ ihfirst ihsecond => exact ihfirst.trans ihsecond

/-- However nodes are shared, nested and let go of, the owner of a node is the document at the
end of its way up. -/
theorem Reachable.ownersAtTop (hforest : forest.Reachable) : forest.OwnersAtTop where
  ends := by
    intro id _
    obtain ⟨chain, hchain⟩ := hforest.wellFormed.exists_parentChain id
    obtain ⟨top, hlast, hnone⟩ := hchain.exists_getLast?
    refine ⟨chain, top, hchain, hlast, hnone, (top?_eq hchain).trans hlast, fun document => ?_⟩
    rw [ownerDocument?_eq_some_iff hchain, hlast, Option.some.injEq, eq_comm (a := top)]
    refine and_congr_right fun _ => and_congr_right ?_
    rintro rfl
    rfl
  shared := by
    intro id other htogether hid hother
    rw [ownerDocument?, ownerDocument?, if_neg hid, if_neg hother,
      hforest.wellFormed.top?_eq_of_eqvGen htogether]
  outermost := by
    intro document above hparent id howner
    rw [parent?_eq_none_of_ownerDocument? hforest.wellFormed howner] at hparent
    cases hparent
  recomputed := by
    intro held id chain hid hchain
    have hkeeps := hforest.wellFormed.keeps_retain held
    have hleft := hforest.wellFormed.parentChain_retain_takeWhile hchain hid
    refine ⟨hleft, fun document => ?_⟩
    rw [ownerDocument?_eq_some_iff hleft, ← hkeeps.isDocument_iff hid]
    refine and_congr_right fun _ => and_congr_right fun hlast => ?_
    have hthere := List.mem_takeWhile_imp (List.mem_of_getLast? hlast)
    rw [hkeeps.isDocument_iff (of_decide_eq_true hthere)]

/-- A document over an element, over a text and another document, over another element. -/
def nestedDocuments : Forest :=
  let sown := (Forest.empty.sow (.text "t")).2
  let inner := ((Builder.mk (.ofElement "e") [] []).build sown).2
  let nested := ((Builder.mk .document [] [1]).build inner).2
  let outer := ((Builder.mk (.ofElement "f") [] [2, 0]).build nested).2
  ((Builder.mk .document [] [3]).build outer).2

/-- The outer document owns what is in the inner one until it goes. Then the inner one owns
it, and the text beside is owned by none. -/
theorem ownersAtTop_nested :
    nestedDocuments.Reachable ∧ nestedDocuments.OwnersAtTop ∧
      nestedDocuments.parent? 2 = some 3 ∧
      nestedDocuments.ownerDocument? 1 = some 4 ∧ nestedDocuments.ownerDocument? 0 = some 4 ∧
      nestedDocuments.ownerDocument? 2 = none ∧
      (nestedDocuments.retain [2, 0]).ownerDocument? 1 = some 2 ∧
      (nestedDocuments.retain [2, 0]).ownerDocument? 0 = none := by
  have hreachable : nestedDocuments.Reachable :=
    ((((Reachable.empty.sow _).build _).build _).build _).build _
  refine ⟨hreachable, hreachable.ownersAtTop, ?_⟩
  decide +kernel

end XPathTree.Forest

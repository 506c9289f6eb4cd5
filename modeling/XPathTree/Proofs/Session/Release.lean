import XPathTree.Proofs.Session.Steps

/-! # Letting values go

When values are let go of or replaced, the trees are cut at the top only: what the values
that remain reach stays whole from there downwards, and a way up stays whole as far as it
leads to nodes that are reached. A namespace node that remains keeps its parent with all
below it, wherever the document has gone.
-/

namespace XPathTree.Session

open Forest

variable {before : Session Forest} {kept : Holdings NodeId}

/-- The session with other values held, before it settles. Letting go of one value and
putting another in its place are cases of this. -/
def holding (session : Session Forest) (kept : Holdings NodeId) : Session Forest :=
  { session with holdings := kept }

/-- What becomes of the nodes of a session when just the values of `kept` remain. -/
structure Cut (before : Session Forest) (kept : Holdings NodeId) (after : Session Forest) :
    Prop where
  left_iff : ∀ id, id ∈ after.source.ids ↔ (before.holding kept).Reaches id
  content_kept : ∀ id, (before.holding kept).Reaches id →
    after.source.content? id = before.source.content? id
  attributes_kept : ∀ id, (before.holding kept).Reaches id →
    after.source.attributes id = before.source.attributes id
  children_kept : ∀ id, (before.holding kept).Reaches id →
    after.source.children id = before.source.children id
  stringValue_kept : ∀ id, (before.holding kept).Reaches id →
    after.source.stringValue id = before.source.stringValue id
  /-- The parent is the one it was, if that is still reached, and absent otherwise. -/
  parent_iff : ∀ id, (before.holding kept).Reaches id → ∀ above,
    after.source.parent? id = some above ↔
      before.source.parent? id = some above ∧ (before.holding kept).Reaches above
  /-- With an ancestor every node on the way up to it is reached, and the way is the same. -/
  way_kept : ∀ way : List NodeId,
    way.IsChain (fun id above => before.source.parent? id = some above) →
      (∀ ancestor ∈ way.getLast?, (before.holding kept).Reaches ancestor) →
        (∀ id ∈ way, (before.holding kept).Reaches id) ∧
          way.IsChain fun id above => after.source.parent? id = some above
  ownerDocument_kept : ∀ id document, before.source.ownerDocument? id = some document →
    (before.holding kept).Reaches document → after.source.ownerDocument? id = some document
  /-- Held as it is or in a result, a namespace node keeps its parent and all below that. -/
  namespaceNode_kept : ∀ name value node parent, (name, value) ∈ kept.entries →
    value.toResult = .namespaceNode node → node.parent = some parent →
      parent ∈ after.source.ids ∧
        (∀ id ∈ before.source.idsWithin parent, (before.holding kept).Reaches id) ∧
        after.source.idsWithin parent = before.source.idsWithin parent ∧
        after.source.contents? parent = before.source.contents? parent

/-- Whatever values are let go of, and whatever others take their place, a tree is cut at
the top only. -/
theorem Reachable.cut (hbefore : before.Reachable)
    (hkept : ∀ entry ∈ kept.entries, before.Offers entry.2) :
    before.Cut kept (before.holding kept).settle := by
  have hforest : (before.holding kept).source.WellFormed := hbefore.settled.wellFormed
  have hgrounded : (before.holding kept).Grounded := by
    intro entry hentry
    have hvalue : entry.2.Grounded before.source :=
      (hkept entry hentry).grounded hbefore.settled.wellFormed hbefore.settled.grounded
    exact hvalue
  have hleft : ∀ id, id ∈ (before.holding kept).settle.source.ids ↔
      (before.holding kept).Reaches id := fun id => mem_ids_settle_iff hforest hgrounded
  have hkeeps := hforest.keeps_retain kept.owned
  refine {
    left_iff := hleft
    content_kept := fun id hid => (hkeeps.content?_eq ((hleft id).mpr hid)).symm
    attributes_kept := fun id hid => (hkeeps.attributes_eq ((hleft id).mpr hid)).symm
    children_kept := fun id hid => (hkeeps.children_eq ((hleft id).mpr hid)).symm
    stringValue_kept := fun id hid => (hkeeps.stringValue_eq ((hleft id).mpr hid)).symm
    parent_iff := ?parent_iff
    way_kept := ?way_kept
    ownerDocument_kept := ?ownerDocument_kept
    namespaceNode_kept := ?namespaceNode_kept }
  case parent_iff =>
    intro id hid above
    rw [← hleft above]
    exact hforest.parent?_retain_iff ((hleft id).mpr hid)
  case way_kept =>
    intro way hway hlast
    obtain ⟨hthere, hsame⟩ := hforest.isChain_retain hway
      fun last htop => (hleft last).mpr (hlast last htop)
    exact ⟨fun id hid => (hleft id).mp (hthere id hid), hsame⟩
  case ownerDocument_kept =>
    intro id document howner hdocument
    exact hforest.ownerDocument?_retain howner ((hleft document).mpr hdocument)
  case namespaceNode_kept =>
    intro name value node parent hentry hresult hparent
    have howned : value.owned? = some parent := by rw [Value.owned?, hresult, ← hparent]
    have howner := Holdings.mem_owned_iff.mpr ⟨(name, value), hentry, howned⟩
    have hthere := hforest.mem_ids_retain_of_held howner (hgrounded.mem_ids howner)
    refine ⟨hthere, ?_, (hkeeps.idsWithin_eq hthere).symm, (hkeeps.contents?_eq hthere).symm⟩
    exact fun id hid => (reaches_iff hforest hgrounded).mpr ⟨parent, howner, hid⟩

/-- A document over an element with an attribute, over another element, over a text. -/
def nestedPlan : Plan :=
  .under .document .done
    (.under (.ofElement "r") (.leaf (.ofAttribute "a" "1") .done)
      (.under (.ofElement "m") .done (.leaf (.text "t") .done)))

def nestedSession : Session Forest :=
  (((start Forest.empty).build nestedPlan).2.hold "d" (.treeNode 4)).settle

/-- With the document a result is held, which is a namespace node of the inner element. -/
def watchedSession : Session Forest :=
  (nestedSession.hold "n" (.result (.namespaceNode ⟨some 2, "p", "u"⟩))).settle

theorem cut_watched :
    watchedSession.Reachable ∧
      (∀ entry ∈ (watchedSession.holdings.erase "d").entries, watchedSession.Offers entry.2) ∧
      watchedSession.Cut (watchedSession.holdings.erase "d") (watchedSession.release "d").settle ∧
      watchedSession.source.ownerDocument? 2 = some 4 ∧
      (watchedSession.release "d").settle.source.ids = [2, 1] ∧
      (watchedSession.release "d").settle.source.parent? 1 = some 2 ∧
      (watchedSession.release "d").settle.source.parent? 2 = none ∧
      (watchedSession.release "d").settle.source.ownerDocument? 2 = none := by
  have hnested : nestedSession.Reachable :=
    .step .start (.build nestedPlan "d" (by rfl) (List.mem_singleton_self 4))
  have hinner : nestedSession.Offers (.treeNode 2) := by
    have hentry : ("d", Value.treeNode 4) ∈ nestedSession.holdings.entries := by decide +kernel
    have hwalk : nestedSession.walk? (.treeNode 4) [.child 0, .child 0] = some (.treeNode 2) := by
      decide +kernel
    exact .walk (.held hentry) hwalk
  have hreachable : watchedSession.Reachable :=
    .step hnested (.hold "n" (.wrap (.namespaceNode hinner "p" "u")))
  have hkept : ∀ entry ∈ (watchedSession.holdings.erase "d").entries,
      watchedSession.Offers entry.2 :=
    fun _ hentry => .held (Holdings.mem_entries_erase hentry)
  refine ⟨hreachable, hkept, hreachable.cut hkept, ?_⟩
  decide +kernel

end XPathTree.Session

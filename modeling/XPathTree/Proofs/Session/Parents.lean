import Mathlib.Data.List.Chain
import XPathTree.Proofs.Session.Steps

/-! # The parent of a node over a run

A node that is there all through a run has one parent at most. It has none until it is put
under a node for the first time; then it has that one for as long as that one is there; and
it has none again for the rest of the run. The three phases are followed from the last one
back, each by induction on the run.
-/

namespace XPathTree.Session

open Forest

variable {session first second : Session Forest} {rest states : List (Session Forest)}
variable {id above : NodeId}

/-- The parents of a node in the states of a run: first none, then one and the same as long
as it is there, then none. -/
def OneParent (states : List (Session Forest)) (id : NodeId) : Prop :=
  ∃ (above : NodeId) (loose under orphaned : List (Session Forest)),
    states = loose ++ under ++ orphaned ∧
      (∀ session ∈ loose, session.source.parent? id = none) ∧
      (∀ session ∈ under, session.source.parent? id = some above ∧ session.Reaches above) ∧
      (∀ session ∈ orphaned, session.source.parent? id = none ∧ ¬ session.Reaches above)

/-! ## One state -/

namespace Settled

theorem parent?_of_linked (hsession : session.Settled)
    (hlink : session.source.link? id = some above) (habove : above ∈ session.source.ids) :
    session.source.parent? id = some above ∧ session.Reaches above :=
  ⟨parent?_iff_linked.mpr ⟨hlink, habove⟩, (hsession.mem_ids_iff above).mp habove⟩

theorem parent?_of_orphaned (hsession : session.Settled)
    (hlink : session.source.link? id = some above) (habove : above ∉ session.source.ids) :
    session.source.parent? id = none ∧ ¬ session.Reaches above := by
  refine ⟨?_, fun hreaches => habove ((hsession.mem_ids_iff above).mpr hreaches)⟩
  rw [parent?, hlink, Option.filter_some, if_neg]
  simpa using habove

end Settled

/-! ## The states of a run -/

/-- A run all through which a node is there. -/
structure Outlives (states : List (Session Forest)) (id : NodeId) : Prop where
  settled : ∀ session ∈ states, session.Settled
  steps : states.IsChain Step
  there : ∀ session ∈ states, id ∈ session.source.ids

namespace Outlives

theorem head (houtlives : Outlives (first :: rest) id) : first.Settled :=
  houtlives.settled first List.mem_cons_self

theorem tail (houtlives : Outlives (first :: rest) id) : Outlives rest id where
  settled := (List.forall_mem_cons.mp houtlives.settled).2
  steps := houtlives.steps.tail
  there := (List.forall_mem_cons.mp houtlives.there).2

theorem follows (houtlives : Outlives (first :: rest) id) (hsecond : second ∈ rest.head?) :
    first.source.Follows second.source :=
  (houtlives.steps.rel_head? hsecond).follows houtlives.head

/-- A link that was made stays. -/
theorem link_kept (houtlives : Outlives (first :: rest) id)
    (hlink : first.source.link? id = some above) :
    ∀ second ∈ rest.head?, second.source.link? id = some above := by
  intro second hsecond
  have hthere := houtlives.tail.there second (List.mem_of_mem_head? hsecond)
  exact (houtlives.follows hsecond).link_kept id hthere above hlink

/-- Once the node that another was put under is gone, it stays gone. -/
theorem orphaned (houtlives : Outlives states id)
    (hlink : ∀ first ∈ states.head?, first.source.link? id = some above)
    (habsent : ∀ first ∈ states.head?, above ∉ first.source.ids) :
    ∀ session ∈ states, session.source.parent? id = none ∧ ¬ session.Reaches above := by
  induction states with
  | nil => simp
  | cons first rest ih =>
      have hfirst := hlink first rfl
      have hgone := habsent first rfl
      refine List.forall_mem_cons.mpr ⟨houtlives.head.parent?_of_orphaned hfirst hgone, ?_⟩
      apply ih houtlives.tail (houtlives.link_kept hfirst)
      intro second hsecond hback
      have hlt := houtlives.head.wellFormed.link?_lt_next hfirst
      exact hgone ((houtlives.follows hsecond).old above hback hlt)

/-- Once a node was put under another, that one is its parent until it is gone. -/
theorem linked (houtlives : Outlives states id)
    (hlink : ∀ first ∈ states.head?, first.source.link? id = some above) :
    ∃ under orphaned : List (Session Forest), states = under ++ orphaned ∧
      (∀ session ∈ under, session.source.parent? id = some above ∧ session.Reaches above) ∧
      (∀ session ∈ orphaned, session.source.parent? id = none ∧ ¬ session.Reaches above) := by
  induction states with
  | nil => exact ⟨[], [], rfl, by simp, by simp⟩
  | cons first rest ih =>
      have hfirst := hlink first rfl
      by_cases habove : above ∈ first.source.ids
      · obtain ⟨under, orphaned, rfl, hunder, horphaned⟩ :=
          ih houtlives.tail (houtlives.link_kept hfirst)
        refine ⟨first :: under, orphaned, rfl, ?_, horphaned⟩
        exact List.forall_mem_cons.mpr ⟨houtlives.head.parent?_of_linked hfirst habove, hunder⟩
      · exact ⟨[], first :: rest, rfl, by simp, houtlives.orphaned hlink (by simpa using habove)⟩

theorem oneParent (houtlives : Outlives states id) : OneParent states id := by
  induction states with
  | nil => exact ⟨0, [], [], [], rfl, by simp, by simp, by simp⟩
  | cons first rest ih =>
      cases hlink : first.source.link? id with
      | none =>
          obtain ⟨above, loose, under, orphaned, rfl, hloose, hphases⟩ := ih houtlives.tail
          refine ⟨above, first :: loose, under, orphaned, rfl, ?_, hphases⟩
          exact List.forall_mem_cons.mpr ⟨by rw [parent?, hlink, Option.filter_none], hloose⟩
      | some above =>
          obtain ⟨under, orphaned, hstates, hphases⟩ :=
            houtlives.linked (by simpa using hlink)
          exact ⟨above, [], under, orphaned, hstates, by simp, hphases⟩

end Outlives

theorem settled_of_run (hfirst : first.Settled) (hrun : (first :: rest).IsChain Step) :
    ∀ session ∈ first :: rest, session.Settled := by
  induction rest generalizing first with
  | nil => simpa using hfirst
  | cons second rest ih =>
      obtain ⟨hstep, hrun⟩ := List.isChain_cons_cons.mp hrun
      exact List.forall_mem_cons.mpr ⟨hfirst, ih (hstep.settled hfirst) hrun⟩

/-- Whatever is made, held and let go of, and whatever it is handed over for, a node that is
there all the time never has a second parent. -/
theorem Reachable.one_parent (hfirst : first.Reachable) (hrun : (first :: rest).IsChain Step)
    (hthere : ∀ session ∈ first :: rest, session.Reaches id) : OneParent (first :: rest) id := by
  have hsettled := settled_of_run hfirst.settled hrun
  have houtlives : Outlives (first :: rest) id :=
    ⟨hsettled, hrun, fun session hsession =>
      ((hsettled session hsession).mem_ids_iff id).mpr (hthere session hsession)⟩
  exact houtlives.oneParent

/-- Makes an element over the text held by the name `t`, and holds it by its own name. -/
def wrapText (session : Session Forest) (name : String) (id : NodeId) : Session Forest :=
  ((session.build (.under (.ofElement name) .done (.held "t" .done))).2.hold name
    (.treeNode id)).settle

def textHeld : Session Forest :=
  (((start Forest.empty).build (.leaf (.text "t") .done)).2.hold "t" (.treeNode 0)).settle

def textWrapped : Session Forest := textHeld.wrapText "e" 1

def textShared : Session Forest := textWrapped.wrapText "f" 2

def textOrphaned : Session Forest := (textShared.release "e").settle

def textReused : Session Forest := textOrphaned.wrapText "g" 4

def textVisited : Session Forest := (textReused.hold "c" (.treeNode 5)).settle

/-- A text is put under one element and handed over for another; the first is let go of, and
the text is handed over for a third, whose child is then held as well. -/
def textRun : List (Session Forest) :=
  [textWrapped, textShared, textOrphaned, textReused, textVisited]

theorem one_parent_orphaning :
    textHeld.Reachable ∧ (textHeld :: textRun).IsChain Step ∧
      (∀ session ∈ textHeld :: textRun, session.Reaches 0) ∧
      (textHeld :: textRun).map (·.source.parent? 0) =
        [none, some 1, some 1, none, none, none] ∧
      OneParent (textHeld :: textRun) 0 := by
  have hheld : textHeld.Reachable :=
    .step .start (.build (.leaf (.text "t") .done) "t" (by rfl) List.mem_cons_self)
  have hwrap : ∀ (session : Session Forest) (name : String) (id : NodeId),
      (session.build (.under (.ofElement name) .done (.held "t" .done))).1 = .ok [id] →
        session.Step (session.wrapText name id) :=
    fun session name id hmade => .build _ name hmade List.mem_cons_self
  have hvisit : textReused.Step textVisited := by
    have hentry : ("g", Value.treeNode 4) ∈ textReused.holdings.entries := by decide +kernel
    have hwalk : textReused.walk? (.treeNode 4) [.child 0] = some (.treeNode 5) := by
      decide +kernel
    exact .hold "c" (.walk (.held hentry) hwalk)
  have hrun : (textHeld :: textRun).IsChain Step :=
    .cons_cons (hwrap textHeld "e" 1 (by rfl)) <|
      .cons_cons (hwrap textWrapped "f" 2 (by rfl)) <|
        .cons_cons (.release "e") <|
          .cons_cons (hwrap textOrphaned "g" 4 (by rfl)) <|
            .cons_cons hvisit (.singleton textVisited)
  have hthere : ∀ session ∈ textHeld :: textRun, session.Reaches 0 := by
    have hids : ∀ session ∈ textHeld :: textRun, 0 ∈ session.source.ids := by decide +kernel
    intro session hsession
    have hsettled := settled_of_run hheld.settled hrun session hsession
    exact (hsettled.mem_ids_iff 0).mp (hids session hsession)
  exact ⟨hheld, hrun, hthere, by decide +kernel, hheld.one_parent hrun hthere⟩

end XPathTree.Session

import XPathTree.Forest.Build

/-! # Calls to a builder

A builder is handed its nodes one by one or several at once, attributes and children in
any order. Whatever the calls are, the attributes come to stand in the order in which
they were handed over, and so do the children; one node that is no attribute, handed
over as one, makes the calls fail.
-/

namespace XPathTree

/-- Whether the node is an attribute. -/
def Forest.IsAttribute (forest : Forest) (id : NodeId) : Prop :=
  (forest.content? id).map (·.kind) = some .attribute

namespace Builder

variable {forest : Forest}

/-- What is said to a builder. -/
inductive Call
  | addAttribute (id : NodeId)
  | addAttributes (ids : List NodeId)
  | addChild (id : NodeId)
  | addChildren (ids : List NodeId)
deriving DecidableEq, Repr

namespace Call

/-- The nodes handed over as attributes. -/
def toAttributes : Call → List NodeId
  | .addAttribute id => [id]
  | .addAttributes ids => ids
  | .addChild _ | .addChildren _ => []

/-- The nodes handed over as children. -/
def toChildren : Call → List NodeId
  | .addAttribute _ | .addAttributes _ => []
  | .addChild id => [id]
  | .addChildren ids => ids

end Call

def call (forest : Forest) (builder : Builder) : Call → Except BuildError Builder
  | .addAttribute id => builder.addAttribute forest id
  | .addAttributes ids => builder.addAttributes forest ids
  | .addChild id => .ok (builder.addChild id)
  | .addChildren ids => .ok (builder.addChildren ids)

def callAll (forest : Forest) (builder : Builder) (calls : List Call) :
    Except BuildError Builder :=
  calls.foldlM (fun builder said => builder.call forest said) builder

theorem addAttribute_of_isAttribute (builder : Builder) {id : NodeId}
    (hid : forest.IsAttribute id) :
    builder.addAttribute forest id =
      .ok { builder with attributes := builder.attributes ++ [id] } := if_pos hid

theorem addAttribute_of_not (builder : Builder) {id : NodeId} (hid : ¬ forest.IsAttribute id) :
    builder.addAttribute forest id = .error .notAnAttribute := if_neg hid

theorem addAttributes_of_isAttribute (builder : Builder) {ids : List NodeId}
    (hids : ∀ id ∈ ids, forest.IsAttribute id) :
    builder.addAttributes forest ids =
      .ok { builder with attributes := builder.attributes ++ ids } := by
  induction ids generalizing builder with
  | nil => simp [addAttributes, pure, Except.pure]
  | cons id ids ih =>
      obtain ⟨hid, hids⟩ := List.forall_mem_cons.mp hids
      rw [addAttributes, List.foldlM_cons, builder.addAttribute_of_isAttribute hid]
      refine (ih _ hids).trans ?_
      simp

theorem addAttributes_of_not (builder : Builder) {ids : List NodeId}
    (hids : ¬ ∀ id ∈ ids, forest.IsAttribute id) :
    builder.addAttributes forest ids = .error .notAnAttribute := by
  induction ids generalizing builder with
  | nil => simp at hids
  | cons id ids ih =>
      rw [addAttributes, List.foldlM_cons]
      by_cases hid : forest.IsAttribute id
      · rw [builder.addAttribute_of_isAttribute hid]
        exact ih _ fun hrest => hids (List.forall_mem_cons.mpr ⟨hid, hrest⟩)
      · rw [builder.addAttribute_of_not hid]
        rfl

theorem addAttributes_eq_ok_iff {builder called : Builder} {ids : List NodeId} :
    builder.addAttributes forest ids = .ok called ↔
      (∀ id ∈ ids, forest.IsAttribute id) ∧
        called = { builder with attributes := builder.attributes ++ ids } := by
  by_cases hids : ∀ id ∈ ids, forest.IsAttribute id
  · rw [builder.addAttributes_of_isAttribute hids, Except.ok.injEq, eq_comm]
    exact (and_iff_right hids).symm
  · rw [builder.addAttributes_of_not hids]
    exact iff_of_false nofun fun hcalled => hids hcalled.1

theorem addAttributes_eq_error_iff {builder : Builder} {ids : List NodeId} {reason : BuildError} :
    builder.addAttributes forest ids = .error reason ↔
      ¬ (∀ id ∈ ids, forest.IsAttribute id) ∧ reason = .notAnAttribute := by
  by_cases hids : ∀ id ∈ ids, forest.IsAttribute id
  · rw [builder.addAttributes_of_isAttribute hids]
    exact iff_of_false nofun fun hfailed => hfailed.1 hids
  · rw [builder.addAttributes_of_not hids, Except.error.injEq, eq_comm]
    exact (and_iff_right hids).symm

theorem addChildren_eq (builder : Builder) (ids : List NodeId) :
    builder.addChildren ids = { builder with children := builder.children ++ ids } := by
  induction ids generalizing builder with
  | nil => simp [addChildren]
  | cons id ids ih =>
      refine (ih (builder.addChild id)).trans ?_
      simp [addChild]

/-- A call adds what it hands over and nothing else. -/
theorem call_of_isAttribute (builder : Builder) {said : Call}
    (hall : ∀ id ∈ said.toAttributes, forest.IsAttribute id) :
    builder.call forest said = .ok { builder with
      attributes := builder.attributes ++ said.toAttributes
      children := builder.children ++ said.toChildren } := by
  cases said with
  | addAttribute id =>
      rw [call, builder.addAttribute_of_isAttribute (hall id List.mem_cons_self)]
      simp [Call.toAttributes, Call.toChildren]
  | addAttributes ids =>
      refine (builder.addAttributes_of_isAttribute hall).trans ?_
      simp [Call.toAttributes, Call.toChildren]
  | addChild id => simp [call, addChild, Call.toAttributes, Call.toChildren]
  | addChildren ids => simp [call, addChildren_eq, Call.toAttributes, Call.toChildren]

theorem call_of_not (builder : Builder) {said : Call}
    (hnot : ¬ ∀ id ∈ said.toAttributes, forest.IsAttribute id) :
    builder.call forest said = .error .notAnAttribute := by
  cases said with
  | addAttribute id => exact builder.addAttribute_of_not (by simpa [Call.toAttributes] using hnot)
  | addAttributes ids => exact builder.addAttributes_of_not hnot
  | addChild id => simp [Call.toAttributes] at hnot
  | addChildren ids => simp [Call.toAttributes] at hnot

/-- Calls add what they hand over, in the order of the calls. -/
theorem callAll_of_isAttribute (builder : Builder) {calls : List Call}
    (hall : ∀ id ∈ calls.flatMap Call.toAttributes, forest.IsAttribute id) :
    builder.callAll forest calls = .ok { builder with
      attributes := builder.attributes ++ calls.flatMap Call.toAttributes
      children := builder.children ++ calls.flatMap Call.toChildren } := by
  induction calls generalizing builder with
  | nil => simp [callAll, pure, Except.pure]
  | cons said calls ih =>
      rw [List.flatMap_cons, List.forall_mem_append] at hall
      rw [callAll, List.foldlM_cons, builder.call_of_isAttribute hall.1]
      refine (ih _ hall.2).trans ?_
      simp

theorem callAll_of_not (builder : Builder) {calls : List Call}
    (hnot : ¬ ∀ id ∈ calls.flatMap Call.toAttributes, forest.IsAttribute id) :
    builder.callAll forest calls = .error .notAnAttribute := by
  induction calls generalizing builder with
  | nil => simp at hnot
  | cons said calls ih =>
      rw [List.flatMap_cons, List.forall_mem_append] at hnot
      rw [callAll, List.foldlM_cons]
      by_cases hsaid : ∀ id ∈ said.toAttributes, forest.IsAttribute id
      · rw [builder.call_of_isAttribute hsaid]
        exact ih _ fun hrest => hnot ⟨hsaid, hrest⟩
      · rw [builder.call_of_not hsaid]
        rfl

/-- Calls fail just if they hand over as an attribute what is none. -/
theorem callAll_eq_ok_iff {builder called : Builder} {calls : List Call} :
    builder.callAll forest calls = .ok called ↔
      (∀ id ∈ calls.flatMap Call.toAttributes, forest.IsAttribute id) ∧
        called = { builder with
          attributes := builder.attributes ++ calls.flatMap Call.toAttributes
          children := builder.children ++ calls.flatMap Call.toChildren } := by
  by_cases hall : ∀ id ∈ calls.flatMap Call.toAttributes, forest.IsAttribute id
  · rw [builder.callAll_of_isAttribute hall, Except.ok.injEq, eq_comm]
    exact (and_iff_right hall).symm
  · rw [builder.callAll_of_not hall]
    exact iff_of_false nofun fun hcalled => hall hcalled.1

end Builder

end XPathTree

import XPathTree.Proofs.Session.Holdings
import XPathTree.Session.Plan

/-! # The acts of a plan

A plan is carried out act by act: names are looked up, attributes are handed over, and
builders build. The first act that fails ends it. Held nodes that a builder before that
was handed are spent: from then on their links are made.
-/

namespace XPathTree

/-- What is done when a plan is carried out, apart from making single nodes. -/
inductive Plan.Act
  | lookUp (name : String)
  | handOver (attributes : Plan)
  | build (calls : Calls)
deriving DecidableEq, Repr

/-- The calls to the builders that are still to build when a call hands them over. -/
def Offers.pending : Offers → List Calls
  | done => []
  | nodes _ rest => rest.pending
  | builder calls rest => calls :: rest.pending

mutual

/-- The acts in their order. A builder builds after the last of its calls. -/
def Plan.acts : Plan → List Plan.Act
  | .done => []
  | .leaf _ rest => rest.acts
  | .held name rest => .lookUp name :: rest.acts
  | .build calls rest => calls.acts ++ .build calls :: rest.acts

/-- The nodes of one call are made and handed over before those of the next are begun. -/
def Calls.acts : Calls → List Plan.Act
  | .opened _ => []
  | .addAttributes earlier nodes => earlier.acts ++ (nodes.acts ++ [.handOver nodes])
  | .addChildren earlier offers =>
      earlier.acts ++ (offers.acts ++ offers.pending.map Plan.Act.build)

def Offers.acts : Offers → List Plan.Act
  | .done => []
  | .nodes plan rest => plan.acts ++ rest.acts
  | .builder calls rest => calls.acts ++ rest.acts

end

/-! ## What is handed over -/

/-- What the calls were begun for. -/
def Calls.container : Calls → Container
  | opened container => container
  | addAttributes earlier _ | addChildren earlier _ => earlier.container

/-- The kinds of the nodes that a plan lists. -/
def Plan.kinds (forest : Forest) (holdings : Holdings NodeId) : Plan → List (Option NodeKind)
  | done => []
  | leaf content rest => some content.kind :: rest.kinds forest holdings
  | held name rest =>
      ((holdings.treeNode name).toOption.bind forest.content?).map (·.kind) ::
        rest.kinds forest holdings
  | build calls rest => some calls.container.content.kind :: rest.kinds forest holdings

section Listed

variable (holdings : Holdings NodeId)

/-- The held nodes that a plan lists, without those that go under nodes it makes. -/
def Plan.listed : Plan → List NodeId
  | done => []
  | leaf _ rest | build _ rest => rest.listed
  | held name rest => (holdings.treeNode name).toOption.toList ++ rest.listed

def Offers.listed : Offers → List NodeId
  | done => []
  | nodes plan rest => plan.listed holdings ++ rest.listed
  | builder _ rest => rest.listed

/-- The held nodes that are handed over by the calls. -/
def Calls.listed : Calls → List NodeId
  | opened _ => []
  | addAttributes earlier nodes => earlier.listed ++ nodes.listed holdings
  | addChildren earlier offers => earlier.listed ++ offers.listed holdings

end Listed

namespace Plan

/-! ## What fails, and what is spent -/

namespace Act

variable (forest : Forest) (holdings : Holdings NodeId)

/-- Why an act fails, if it does. Building does not. -/
def failure? : Act → Option PlanError
  | lookUp name =>
      match holdings.treeNode name with
      | .ok _ => none
      | .error reason => some (.lookup reason)
  | handOver attributes =>
      if ∀ kind ∈ attributes.kinds forest holdings, kind = some .attribute then none
      else some (.build .notAnAttribute)
  | build _ => none

/-- The held nodes that a builder puts under the node it makes. -/
def handed : Act → List NodeId
  | build calls => calls.listed holdings
  | _ => []

/-- The failure of the first act that has one. -/
def firstFailure? (acts : List Act) : Option PlanError :=
  acts.findSome? (·.failure? forest holdings)

/-- The held nodes that are put under others by acts, up to the first that fails. -/
def spent (acts : List Act) : List NodeId :=
  (acts.takeWhile (·.failure? forest holdings = none)).flatMap (·.handed holdings)

variable {forest holdings}

theorem firstFailure?_append (first second : List Act) :
    firstFailure? forest holdings (first ++ second) =
      (firstFailure? forest holdings first).or (firstFailure? forest holdings second) :=
  List.findSome?_append

theorem firstFailure?_cons (act : Act) (acts : List Act) :
    firstFailure? forest holdings (act :: acts) =
      (act.failure? forest holdings).or (firstFailure? forest holdings acts) := by
  rw [firstFailure?, List.findSome?_cons]
  cases act.failure? forest holdings <;> rfl

theorem firstFailure?_singleton (act : Act) :
    firstFailure? forest holdings [act] = act.failure? forest holdings := by
  rw [firstFailure?_cons]
  exact Option.or_none

theorem spent_cons (act : Act) (acts : List Act) :
    spent forest holdings (act :: acts) =
      if act.failure? forest holdings = none then
        act.handed holdings ++ spent forest holdings acts
      else [] := by
  by_cases hact : act.failure? forest holdings = none <;> simp [spent, hact]

theorem spent_singleton (act : Act) :
    spent forest holdings [act] =
      if act.failure? forest holdings = none then act.handed holdings else [] := by
  rw [spent_cons]
  simp [spent]

/-- Acts that come second are done if none of the first fails. -/
theorem spent_append (first second : List Act) :
    spent forest holdings (first ++ second) = spent forest holdings first ++
      if firstFailure? forest holdings first = none then spent forest holdings second
      else [] := by
  induction first with
  | nil => rfl
  | cons act first ih =>
      rw [List.cons_append, spent_cons, spent_cons, ih, firstFailure?_cons]
      cases act.failure? forest holdings with
      | none => rw [if_pos rfl, if_pos rfl, Option.none_or, List.append_assoc]
      | some reason => simp

end Act

variable {forest : Forest} {holdings : Holdings NodeId} {id : NodeId}

theorem mem_owned_of_listed (plan : Plan) (hid : id ∈ plan.listed holdings) :
    id ∈ holdings.owned := by
  match plan with
  | done => cases hid
  | leaf content rest => exact rest.mem_owned_of_listed hid
  | build calls rest => exact rest.mem_owned_of_listed hid
  | held name rest =>
      rcases List.mem_append.mp hid with hname | hrest
      · cases hnode : holdings.treeNode name with
        | error reason => simp [hnode, Except.toOption] at hname
        | ok other =>
            obtain rfl : id = other := by simpa [hnode, Except.toOption] using hname
            exact Holdings.mem_owned_of_treeNode hnode
      · exact rest.mem_owned_of_listed hrest

end Plan

variable {forest : Forest} {holdings : Holdings NodeId} {id : NodeId}

theorem Offers.mem_owned_of_listed (offers : Offers) (hid : id ∈ offers.listed holdings) :
    id ∈ holdings.owned := by
  match offers with
  | done => cases hid
  | nodes plan rest =>
      exact (List.mem_append.mp hid).elim plan.mem_owned_of_listed rest.mem_owned_of_listed
  | builder calls rest => exact rest.mem_owned_of_listed hid

theorem Calls.mem_owned_of_listed (calls : Calls) (hid : id ∈ calls.listed holdings) :
    id ∈ holdings.owned := by
  match calls with
  | opened container => cases hid
  | addAttributes earlier nodes =>
      exact (List.mem_append.mp hid).elim earlier.mem_owned_of_listed nodes.mem_owned_of_listed
  | addChildren earlier offers =>
      exact (List.mem_append.mp hid).elim earlier.mem_owned_of_listed offers.mem_owned_of_listed

/-- Only nodes that are held are spent. -/
theorem Plan.Act.mem_owned_of_spent {acts : List Act} (hid : id ∈ spent forest holdings acts) :
    id ∈ holdings.owned := by
  obtain ⟨act, _, hhanded⟩ := List.mem_flatMap.mp hid
  cases act with
  | lookUp name => cases hhanded
  | handOver attributes => cases hhanded
  | build calls => exact calls.mem_owned_of_listed hhanded

end XPathTree

import XPathTree.Forest.Build
import XPathTree.Session.Holdings

/-! # Plans

A plan lists nodes to be made: single nodes, nodes that are already held, and
documents and elements that a builder builds. It is carried out in order, and a name
is looked up when its turn comes. What a builder is handed is made call by call: the
nodes of one call are made and handed over before those of the next call are begun.
What was built before a failure has claimed its nodes, and they stay claimed.
-/

namespace XPathTree

mutual

/-- Nodes to be made, or to be looked up. -/
inductive Plan
  | done
  | leaf (content : Content) (rest : Plan)
  | held (name : String) (rest : Plan)
  | build (calls : Calls) (rest : Plan)
deriving DecidableEq, Repr, Inhabited

/-- The calls to a builder, each with what it hands over. The nodes of a list are all made
before the call that takes the list; an iterator that makes a node whenever it is asked for
the next one is a call for each of them. -/
inductive Calls
  | opened (container : Container)
  | addAttributes (earlier : Calls) (nodes : Plan)
  | addChildren (earlier : Calls) (offers : Offers)
deriving DecidableEq, Repr

/-- What one call hands over as children: nodes, and builders that the call itself has
build, after all of them have been called. -/
inductive Offers
  | done
  | nodes (plan : Plan) (rest : Offers)
  | builder (calls : Calls) (rest : Offers)
deriving DecidableEq, Repr

end

/-- Why a plan was not carried out to its end. -/
inductive PlanError
  | lookup (error : LookupError)
  | build (error : BuildError)
deriving DecidableEq, Repr

/-- Work on a forest that keeps what was done before it fails. -/
abbrev Building := ExceptT PlanError (StateM Forest)

namespace Building

/-- Makes one node. -/
def make (step : Forest → NodeId × Forest) : Building NodeId :=
  ExceptT.lift (modifyGet step)

/-- Goes on only with the result of a check. -/
def check {ε α : Type} (failed : ε → PlanError) (result : Except ε α) : Building α :=
  ofExcept (result.mapError failed)

/-- Has what is offered built, one after another. -/
def buildAll : List Offer → Building (List NodeId)
  | [] => pure []
  | offer :: offers => do
      let id ← make offer.build
      return id :: (← buildAll offers)

end Building

mutual

/-- Makes the nodes of a plan, left to right. -/
def Plan.run (holdings : Holdings NodeId) : Plan → Building (List NodeId)
  | .done => pure []
  | .leaf content rest => do
      let id ← Building.make fun forest => forest.sow content
      return id :: (← rest.run holdings)
  | .held name rest => do
      let id ← Building.check .lookup (holdings.treeNode name)
      return id :: (← rest.run holdings)
  | .build calls rest => do
      let builder ← calls.run holdings
      let id ← Building.make builder.build
      return id :: (← rest.run holdings)

/-- Brings a builder to where it can build. -/
def Calls.run (holdings : Holdings NodeId) : Calls → Building Builder
  | .opened container => pure (.ofContainer container)
  | .addAttributes earlier nodes => do
      let builder ← earlier.run holdings
      let attributes ← nodes.run holdings
      Building.check .build (builder.addAttributes (← get) attributes)
  | .addChildren earlier offers => do
      let builder ← earlier.run holdings
      let children ← Building.buildAll (← offers.run holdings)
      return builder.addChildren children

/-- Makes and calls all that is offered, without the builders building. -/
def Offers.run (holdings : Holdings NodeId) : Offers → Building (List Offer)
  | .done => pure []
  | .nodes plan rest => do
      let ids ← plan.run holdings
      return ids.map .made ++ (← rest.run holdings)
  | .builder calls rest => do
      let builder ← calls.run holdings
      return .pending builder :: (← rest.run holdings)

end

namespace Plan

/-- The plan for one node, over attributes that are handed over together and children that
are handed over together after that. -/
def under (container : Container) (attributes children : Plan) : Plan :=
  build (.addChildren (.addAttributes (.opened container) attributes) (.nodes children .done))
    done

/-- The plan for the nodes of one plan and then those of another. -/
def append : Plan → Plan → Plan
  | done, other => other
  | leaf content rest, other => leaf content (rest.append other)
  | held name rest, other => held name (rest.append other)
  | build calls rest, other => build calls (rest.append other)

instance : Append Plan := ⟨append⟩

end Plan

/-- Carries out a plan on a forest, with the nodes of the tree that are held. -/
def Forest.carryOut (forest : Forest) (holdings : Holdings NodeId) (plan : Plan) :
    Except PlanError (List NodeId) × Forest :=
  (plan.run holdings).run.run forest

end XPathTree

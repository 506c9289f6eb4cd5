import XPathTree.Session.Plan
import XPathTree.Session.Source

/-! # Sessions

A source together with the values held on it. Nodes last while a held value
keeps them in being; `Session.settle` lets go of the others, so that a node
whose parent is no longer held from above is left without one.
-/

namespace XPathTree

structure Session (σ : Type) where
  source : σ
  holdings : Holdings NodeId

namespace Session

variable {σ : Type} [Source σ]

def start (source : σ) : Session σ := ⟨source, .empty⟩

def host (session : Session σ) : Host NodeId := Source.host session.source

/-- Holds a value by a name, and lets go of the one held by it before. -/
def hold (session : Session σ) (name : String) (value : Value NodeId) : Session σ :=
  { session with holdings := session.holdings.insert name value }

def release (session : Session σ) (name : String) : Session σ :=
  { session with holdings := session.holdings.erase name }

def namesOf (session : Session σ) (node : NodeId) : List String :=
  session.holdings.namesOf session.host node

/-- Lets go of every node that no held value keeps in being. -/
def settle (session : Session σ) : Session σ :=
  { session with source := Source.retain session.source session.holdings.owned }

/-- Carries out a plan. What it makes lasts until the session settles. -/
def build (session : Session Forest) (plan : Plan) :
    Except PlanError (List NodeId) × Session Forest :=
  let (made, forest) := session.source.carryOut session.holdings plan
  (made, { session with source := forest })

end Session

end XPathTree

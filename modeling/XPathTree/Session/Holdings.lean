import XPathTree.Session.Value

/-! # Holdings

Values held by name. A name leads to at most one value, and the names are kept
in increasing order.
-/

namespace XPathTree

universe u

variable {N : Type u}

/-- Why a name does not lead to what is asked for. -/
inductive LookupError
  | notHeld (name : String)
  | otherValue (name : String)
deriving DecidableEq, Repr

/-- The name that was asked for. -/
def LookupError.name : LookupError → String
  | .notHeld name | .otherValue name => name

/-- The held values, by increasing name. -/
structure Holdings (N : Type u) where
  entries : List (String × Value N)
deriving Repr

namespace Holdings

def empty : Holdings N := ⟨[]⟩

/-- Puts an entry in its place by name, for the one that was there if any. -/
def insertEntry (name : String) (value : Value N) :
    List (String × Value N) → List (String × Value N)
  | [] => [(name, value)]
  | (other, held) :: rest =>
      if name < other then (name, value) :: (other, held) :: rest
      else if name = other then (name, value) :: rest
      else (other, held) :: insertEntry name value rest

def insert (holdings : Holdings N) (name : String) (value : Value N) : Holdings N :=
  ⟨insertEntry name value holdings.entries⟩

def erase (holdings : Holdings N) (name : String) : Holdings N :=
  ⟨holdings.entries.filter (·.1 != name)⟩

def get? (holdings : Holdings N) (name : String) : Option (Value N) :=
  (holdings.entries.find? (·.1 == name)).map (·.2)

def value (holdings : Holdings N) (name : String) : Except LookupError (Value N) :=
  match holdings.get? name with
  | some value => .ok value
  | none => .error (.notHeld name)

/-- What a selection makes of the value, where it applies to it. -/
def select {α : Type u} (holdings : Holdings N) (selection : Value N → Option α)
    (name : String) : Except LookupError α := do
  match selection (← holdings.value name) with
  | some selected => .ok selected
  | none => .error (.otherValue name)

def treeNode (holdings : Holdings N) (name : String) : Except LookupError N :=
  holdings.select Value.treeNode? name

def namespaceNode (holdings : Holdings N) (name : String) :
    Except LookupError (NamespaceNode N) :=
  holdings.select Value.namespaceNode? name

/-- The names under which a node of the tree itself is held. -/
def namesOf (tree : Host N) (holdings : Holdings N) (node : N) : List String :=
  holdings.entries.filterMap fun (name, value) =>
    (value.treeNode?.filter (tree.same node)).map fun _ => name

/-- The nodes of the tree that the values keep in being. -/
def owned (holdings : Holdings N) : List N :=
  holdings.entries.filterMap fun (_, value) => value.owned?

end Holdings

end XPathTree

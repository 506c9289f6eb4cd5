import XPathTree.Hedge
import XPathTree.Host

/-! # Tables as hosts

A host given row by row: every node is a row, and the rows say by index how they
hang together. They need not agree with each other. An index outside the table
leads nowhere.
-/

namespace XPathTree

open Text

structure Row where
  kind : NodeKind
  name : String
  value : Option String
  namespaceUri : Option String
  parent : Option Nat
  ownerDocument : Option Nat
  attributes : List Nat
  /-- Rows with one key are equal, and are hashed by it. -/
  key : Int
deriving Repr

/-- Some hosts tell no namespace of any node. -/
structure Table where
  rows : List Row
  tellsNamespaces : Bool

namespace Table

variable (table : Table)

def indices : List Nat := List.range table.rows.length

def row? (index : Nat) : Option Row := table.rows[index]?

/-- A link to a row, if there is such a row. -/
def link? (index : Nat) : Option Nat := if index ∈ table.indices then some index else none

def parent? (index : Nat) : Option Nat :=
  ((table.row? index).bind (·.parent)).bind table.link?

theorem mem_indices_of_link? {index target : Nat} (hlink : table.link? index = some target) :
    target ∈ table.indices := by
  unfold link? at hlink
  split at hlink
  next hmem => exact Option.some.inj hlink ▸ hmem
  next => simp at hlink

theorem mem_indices_of_parent? {index target : Nat} (hparent : table.parent? index = some target) :
    target ∈ table.indices := by
  obtain ⟨_, _, hlink⟩ := Option.bind_eq_some_iff.mp hparent
  exact table.mem_indices_of_link? hlink

/-- A table read as a document tree. -/
def host : Host Nat where
  kind index := ((table.row? index).map (·.kind)).getD .text
  nodeName index := ((table.row? index).map (·.name)).getD ""
  nodeValue index := (table.row? index).bind (·.value)
  namespaceUri index :=
    if table.tellsNamespaces then (table.row? index).bind (·.namespaceUri) else none
  parent := table.parent?
  ownerDocument index := ((table.row? index).bind (·.ownerDocument)).bind table.link?
  attributes index := ((table.row? index).map (·.attributes)).getD [] |>.filterMap table.link?
  same a b := a == b
  equal a b := (table.row? a).map (·.key) == (table.row? b).map (·.key)
  hashKey index := ((table.row? index).map (·.key)).getD 0
  outline index := .word ("Mock(" ++ toString index ++ ")")
  reach _ := table.indices.length + 1
  length_le_reach _ _ hchain := hchain.length_le fun _ _ => table.mem_indices_of_parent?

/-- Rows with the attributes below them, and theirs, down to a depth. -/
def unfold : Nat → List Nat → Hedge Nat
  | 0, _ => .nil
  | depth + 1, indices =>
      indices.foldr
        (fun index rest =>
          .cons index (unfold depth (table.host.attributes index)) .nil rest) .nil

/-- A row with all below it. A chain of attributes that is longer than the table
comes back to a row it has been at, and is cut off. -/
def tree (index : Nat) : Tree Nat where
  root := index
  attributes := table.unfold table.rows.length (table.host.attributes index)
  children := .nil

end Table

end XPathTree

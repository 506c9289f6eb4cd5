import XPathTree.Forest.Host
import XPathTree.Host.Table

/-! # Sources of nodes

What a session can be opened on: a forest, in which a node lasts as long as
something holds on to it, or a table, whose rows last forever.
-/

namespace XPathTree

class Source (σ : Type) where
  host : σ → Host NodeId
  /-- The children of a node, where the source tells of children. -/
  children? : σ → NodeId → Option (List NodeId)
  name? : σ → NodeId → Option QName
  /-- A node and what is below it. -/
  listing : σ → NodeId → List (Entry NodeId)
  /-- The source with what the given nodes keep in being. -/
  retain : σ → List NodeId → σ

instance : Source Forest where
  host := Forest.host
  children? forest id := some (forest.children id)
  name? forest id := (forest.content? id).bind (·.name?)
  listing forest id := ((forest.tree? id).map fun tree => (tree.map (·.id)).listing).getD []
  retain := Forest.retain

instance : Source Table where
  host := Table.host
  children? _ _ := none
  name? _ _ := none
  listing table index := (table.tree index).listing
  retain table _ := table

end XPathTree

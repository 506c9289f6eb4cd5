import XPathTree.Forest.Basic
import XPathTree.Host

/-! # Forests as hosts

The reading interface of a forest. Nodes are equal only to themselves.
-/

namespace XPathTree.Forest

open Text

variable (forest : Forest)

theorem mem_ids_of_parent? {id above : NodeId} (hparent : forest.parent? id = some above) :
    above ∈ forest.ids := by
  simpa using (Option.filter_eq_some_iff.mp hparent).2

/-- A node printed with its kind, name and value. -/
def outline (id : NodeId) : Outline :=
  match forest.content? id with
  | none => .option none
  | some content =>
      .record "SimpleNode"
        [("kind", .word content.kind.name),
          ("name", .option (content.name?.map (·.outline))),
          ("value", .option (content.value?.map .quoted))]

/-- A forest read as a host. An identity without a node reads as an empty text. -/
def host : Host NodeId where
  kind id := ((forest.content? id).map (·.kind)).getD .text
  nodeName id := ((forest.content? id).map (·.nodeName)).getD ""
  nodeValue id := (forest.content? id).bind (·.value?)
  stringValue := forest.stringValue
  namespaceUri id := (forest.content? id).bind (·.namespaceUri?)
  parent := forest.parent?
  ownerDocument := forest.ownerDocument?
  attributes := forest.attributes
  same a b := a == b
  equal a b := a == b
  hashKey id := id
  outline := forest.outline
  reach _ := forest.ids.length + 1
  length_le_reach _ _ hchain := hchain.length_le fun _ _ => forest.mem_ids_of_parent?

end XPathTree.Forest

import XPathTree.Proofs.Forest.Making
import XPathTree.Proofs.Forest.Ways
import XPathTree.Proofs.StringValue

/-! # String values in a forest

Where nodes are made by the calls, nothing stands under a node but a document or an element.
So a document or element stands for the values of the texts below it, whether they are taken
in preorder or child by child, and any other node for the value that it has. A string value is
read off the shape of a node, and at every position of a copy stands a node of the same shape
as in what was copied.
-/

namespace XPathTree

/-- What a build that leads from one forest to another and makes `root` does to string
values. -/
structure Builder.StringsKept (builder : Builder) (before : Forest) (root : NodeId)
    (after : Forest) : Prop where
  kept : ∀ id ∈ before.ids, after.host.stringValue id = before.host.stringValue id
  /-- Each node that was handed over has its place, and at every position below the place the
  string value is the one below the node, be it the node itself that stands there or a copy. -/
  placed : ∀ (place : Nat) (id : NodeId), builder.handed[place]? = some id →
    ∃ entry, (after.below root)[place]? = some entry ∧
      ∀ path : List Hop, (∀ hop ∈ path, hop.Descends) →
        (Source.walk? after entry path).map after.host.stringValue =
          (Source.walk? before id path).map before.host.stringValue

namespace Forest

variable {forest before after : Forest} {id entry : NodeId} {shape : Tree Content}

/-- The nodes below a node in preorder, by the links to children alone. -/
def descendants (forest : Forest) (id : NodeId) : List NodeId :=
  ((forest.tree? id).map fun tree => tree.children.preorder.map (·.id)).getD []

/-- What a child adds to the string value of the node it stands under. -/
def contribution (forest : Forest) (child : NodeId) : String :=
  match forest.host.kind child with
  | .text => (forest.host.nodeValue child).getD ""
  | .document | .element => forest.host.stringValue child
  | _ => ""

/-- What the nodes of a forest stand for. -/
structure StringValues (forest : Forest) : Prop where
  /-- In preorder a node comes before those below it, and child follows child. -/
  descendants_eq : ∀ id, forest.descendants id =
    (forest.children id).flatMap fun child => child :: forest.descendants child
  join_descendants : ∀ id ∈ forest.ids,
    forest.host.kind id = .element ∨ forest.host.kind id = .document →
      forest.host.stringValue id = String.join
        (((forest.descendants id).filter (forest.host.kind · = .text)).filterMap
          forest.host.nodeValue)
  join_children : ∀ id ∈ forest.ids,
    forest.host.kind id = .element ∨ forest.host.kind id = .document →
      forest.host.stringValue id = String.join ((forest.children id).map forest.contribution)
  own_value : ∀ id ∈ forest.ids, forest.host.kind id ≠ .element →
    forest.host.kind id ≠ .document →
      forest.host.nodeValue id = some (forest.host.stringValue id)
  /-- Without its attributes, and those of all nodes below, a node would stand for the same. -/
  attributes_apart : ∀ (id : NodeId) (shape : Tree Content), forest.contents? id = some shape →
    forest.host.stringValue id = shape.pruned.stringValue
  strings_kept : ∀ builder : Builder, (∀ id ∈ builder.handed, id ∈ forest.ids) →
    builder.StringsKept forest (builder.build forest).1 (builder.build forest).2

/-! ## Reading a shape -/

/-- What a child adds can be told from its shape. -/
theorem contribution_eq_map (forest : Forest) (child : NodeId) :
    forest.contribution child = ((forest.contents? child).map Tree.contribution).getD "" := by
  cases hshape : forest.contents? child with
  | none =>
      have hcontent : forest.content? child = none := by
        rw [content?_eq_map, hshape, Option.map_none]
      simp [contribution, host, hcontent]
  | some shape =>
      rw [contribution, kind_of_contents? hshape, nodeValue_of_contents? hshape,
        stringValue_of_contents? hshape]
      rfl

/-- A node is a text with a value if its content is one. -/
theorem text?_eq (forest : Forest) (id : NodeId) :
    (if forest.host.kind id = .text then forest.host.nodeValue id else none) =
      (forest.content? id).bind Content.text? := by
  cases hcontent : forest.content? id with
  | none => simp [host, hcontent]
  | some content => simp [host, hcontent, Content.text?]

theorem textValues_eq (forest : Forest) (ids : List NodeId) :
    (ids.filter (forest.host.kind · = .text)).filterMap forest.host.nodeValue =
      (ids.map forest.content?).filterMap (·.bind Content.text?) := by
  rw [List.filterMap_filter, List.filterMap_map]
  apply List.filterMap_congr
  intro id _
  rw [Function.comp_apply, ← forest.text?_eq id]
  exact if_congr decide_eq_true_iff rfl rfl

/-! ## Below a node -/

namespace WellFormed

theorem content?_eq (hforest : forest.WellFormed) {node : Node}
    (hnode : node ∈ forest.trees.labels) : forest.content? node.id = some node.content := by
  obtain ⟨tree, htree, rfl⟩ := Hedge.mem_labels_iff.mp hnode
  rw [content?, tree?_of_mem hforest.nodup htree, Option.map_some]

theorem descendants_eq (hforest : forest.WellFormed) (id : NodeId) :
    forest.descendants id =
      (forest.children id).flatMap fun child => child :: forest.descendants child := by
  rw [descendants, children]
  cases hfound : forest.tree? id with
  | none => rfl
  | some tree =>
      have htree := (mem_subtrees_of_tree? hfound).1
      rw [Option.map_some, Option.getD_some, Option.map_some, Option.getD_some,
        Hedge.preorder_eq_flatMap, List.map_flatMap, Hedge.rootIds, Hedge.roots, List.map_map,
        List.flatMap_map]
      apply List.flatMap_congr
      intro child hchild
      have hthere := tree?_of_mem hforest.nodup (Hedge.mem_subtrees_of_top htree (Or.inr hchild))
      rw [List.map_cons, Function.comp_apply, descendants, hthere, Option.map_some,
        Option.getD_some]

/-- The contents below a node are those that its shape lists in preorder. -/
theorem map_content?_descendants (hforest : forest.WellFormed)
    (hshape : forest.contents? id = some shape) :
    (forest.descendants id).map forest.content? = shape.children.preorder.map some := by
  obtain ⟨tree, hfound, rfl⟩ := Option.map_eq_some_iff.mp hshape
  have htree := (mem_subtrees_of_tree? hfound).1
  rw [descendants, hfound, Option.map_some, Option.getD_some, Tree.contents, Tree.map,
    Hedge.preorder_map, List.map_map, List.map_map]
  apply List.map_congr_left
  intro node hnode
  obtain ⟨inner, hinner, rfl⟩ := Hedge.mem_labels_iff.mp (Hedge.preorder_subset_labels _ hnode)
  apply hforest.content?_eq
  exact Hedge.mem_labels_iff.mpr ⟨inner, Hedge.mem_subtrees_of_below htree (Or.inr hinner), rfl⟩

/-- A document or element stands for the values of the texts below it. -/
theorem stringValue_eq_join_descendants (hforest : forest.WellFormed)
    (hshape : forest.contents? id = some shape)
    (hkind : shape.root.kind = .element ∨ shape.root.kind = .document) :
    forest.host.stringValue id = String.join
      (((forest.descendants id).filter (forest.host.kind · = .text)).filterMap
        forest.host.nodeValue) := by
  rw [stringValue_of_contents? hshape, shape.stringValue_eq_join hkind, join_map_ownText,
    textValues_eq, hforest.map_content?_descendants hshape, List.filterMap_map]
  rfl

/-- What the children of a node add can be told from its shape. -/
theorem map_contribution_children (hforest : forest.WellFormed)
    (hshape : forest.contents? id = some shape) :
    (forest.children id).map forest.contribution =
      shape.children.trees.map Tree.contribution := by
  have hchildren := (hforest.map_contents?_below hshape).2
  have hadded := congrArg (List.map fun child => (child.map Tree.contribution).getD "") hchildren
  rw [List.map_map, List.map_map] at hadded
  rw [funext forest.contribution_eq_map]
  exact hadded

/-- A document or element stands for what its children add, if these bear nothing unless they
are such themselves. -/
theorem stringValue_eq_join_children (hforest : forest.WellFormed)
    (hshape : forest.contents? id = some shape)
    (hkind : shape.root.kind = .element ∨ shape.root.kind = .document)
    (hbears : ∀ inner ∈ shape.children.trees, inner.Bears) :
    forest.host.stringValue id = String.join ((forest.children id).map forest.contribution) := by
  rw [stringValue_of_contents? hshape, shape.stringValue_eq_join hkind,
    hforest.map_contribution_children hshape]
  exact Hedge.join_ownText_eq _ hbears

end WellFormed

theorem Composed.bears_of_mem_children (hforest : forest.Composed)
    (hshape : forest.contents? id = some shape) {inner : Tree Content}
    (hinner : inner ∈ shape.children.trees) : inner.Bears := by
  have hlisted := (hforest.wellFormed.map_contents?_below hshape).2
  obtain ⟨child, _, hchild⟩ := List.mem_map.mp (hlisted ▸ List.mem_map_of_mem hinner)
  obtain ⟨other, hother, _, hbears⟩ := hforest.exists_suitedAt (mem_ids_of_contents? hchild)
  exact Option.some.inj (hother.symm.trans hchild) ▸ hbears

/-! ## Copies -/

/-- Below nodes of one shape the same string values are found at the same positions. -/
theorem map_stringValue_walk?_eq (hbefore : before.WellFormed) (hafter : after.WellFormed)
    (hshape : after.contents? entry = before.contents? id) {path : List Hop}
    (hdown : ∀ hop ∈ path, hop.Descends) :
    (Source.walk? after entry path).map after.host.stringValue =
      (Source.walk? before id path).map before.host.stringValue := by
  cases hwalk : Source.walk? before id path with
  | some inner =>
      obtain ⟨reached, _, _, hreached, hsame, _⟩ :=
        exists_walk?_of_contents? hbefore hafter hdown hshape hwalk
      have hvalue : after.stringValue reached = before.stringValue inner := by
        rw [stringValue_eq_map, stringValue_eq_map, hsame]
      rw [hreached]
      exact congrArg some hvalue
  | none =>
      cases hother : Source.walk? after entry path with
      | none => rfl
      | some reached =>
          obtain ⟨inner, _, _, hinner, _⟩ :=
            exists_walk?_of_contents? hafter hbefore hdown hshape.symm hother
          rw [hwalk] at hinner
          cases hinner

end Forest

namespace Builder

open Forest

variable {forest : Forest}

theorem stringsKept_build (builder : Builder) (hforest : forest.WellFormed)
    (hhanded : ∀ id ∈ builder.handed, id ∈ forest.ids) :
    builder.StringsKept forest (builder.build forest).1 (builder.build forest).2 where
  kept id hid := (builder.grows_build hforest).keeps.stringValue_eq hid
  placed := by
    intro place id hplace
    obtain ⟨entry, hentry, hshape⟩ :=
      exists_getElem?_of_map_eq (builder.map_contents?_build hforest hhanded) hplace
    refine ⟨entry, hentry, fun path hdown => ?_⟩
    exact map_stringValue_walk?_eq hforest (builder.wellFormed_build hforest) hshape hdown

end Builder

namespace Forest

variable {forest : Forest}

/-- Documents and elements stand for the texts below them, other nodes for their own value, and
a copy for what it is a copy of. -/
theorem Composed.stringValues (hforest : forest.Composed) : forest.StringValues where
  descendants_eq := hforest.wellFormed.descendants_eq
  join_descendants id hid hkind := by
    obtain ⟨shape, hshape⟩ := exists_contents? hid
    rw [kind_of_contents? hshape] at hkind
    exact hforest.wellFormed.stringValue_eq_join_descendants hshape hkind
  join_children id hid hkind := by
    obtain ⟨shape, hshape⟩ := exists_contents? hid
    rw [kind_of_contents? hshape] at hkind
    exact hforest.wellFormed.stringValue_eq_join_children hshape hkind fun inner hinner =>
      hforest.bears_of_mem_children hshape hinner
  own_value id hid helement hdocument := by
    obtain ⟨shape, hshape, hsuits, _⟩ := hforest.exists_suitedAt hid
    rw [kind_of_contents? hshape] at helement hdocument
    obtain ⟨value, hvalue⟩ :=
      Option.isSome_iff_exists.mp (hsuits.value?_iff.mpr ⟨helement, hdocument⟩)
    rw [nodeValue_of_contents? hshape, stringValue_of_contents? hshape,
      shape.stringValue_eq_value helement hdocument, hvalue, Option.getD_some]
  attributes_apart id shape hshape := by
    rw [stringValue_of_contents? hshape, shape.stringValue_pruned]
  strings_kept builder hhanded := builder.stringsKept_build hforest.wellFormed hhanded

/-- An element with an attribute over a text, a comment, an attribute and a document, which
again has a text, and a second element over it. -/
def mixedForest : Forest :=
  let sown := (Forest.empty.sow (.ofAttribute "a" "1")).2
  let sown := (sown.sow (.text "t")).2
  let sown := (sown.sow (.comment "c")).2
  let sown := (sown.sow (.ofAttribute "b" "2")).2
  let sown := (sown.sow (.text "u")).2
  let built := ((Builder.mk .document [] [4]).build sown).2
  let built := ((Builder.mk (.ofElement "e") [0] [1, 2, 3, 5]).build built).2
  ((Builder.mk (.ofElement "f") [] [6, 1, 6]).build built).2

theorem stringValues_mixed :
    mixedForest.Composed ∧ mixedForest.host.stringValue 7 = "tuttu" ∧
      mixedForest.StringValues := by
  have hsown := ((((Composed.empty.leaf (.attribute "a" "1")).leaf (.text "t")).leaf
    (.comment "c")).leaf (.attribute "b" "2")).leaf (.text "u")
  have hdocument := hsown.opening .document [] [4] (by decide +kernel)
  have helement := hdocument.opening (.element "e") [0] [1, 2, 3, 5] (by decide +kernel)
  have hcomposed : mixedForest.Composed :=
    helement.opening (.element "f") [] [6, 1, 6] (by decide +kernel)
  refine ⟨hcomposed, ?_, hcomposed.stringValues⟩
  decide +kernel

end Forest

end XPathTree

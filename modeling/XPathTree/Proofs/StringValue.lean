import XPathTree.Content
import XPathTree.Proofs.Hedge

/-! # String values

The text of a hedge is written node after node, in preorder by the links to children. So
it is the texts of the nodes put together, which attributes are no part of. Where only
documents and elements have anything under them, it is also put together row by row: a text
gives its value, a document or element its own string value, and any other node nothing.
-/

namespace XPathTree

universe u v

variable {α : Type u} {β : Type v}

namespace Hedge

/-- The labels in preorder, by the links to children alone. -/
def preorder : Hedge α → List α
  | nil => []
  | cons root _ children rest => root :: (children.preorder ++ rest.preorder)

/-- The hedge without attributes, at any depth. -/
def pruned : Hedge α → Hedge α
  | nil => nil
  | cons root _ children rest => cons root nil children.pruned rest.pruned

theorem preorder_map (f : α → β) (hedge : Hedge α) :
    (hedge.map f).preorder = hedge.preorder.map f := by
  induction hedge with
  | nil => rfl
  | cons root attributes children rest _ ihchildren ihrest =>
      rw [map, preorder, preorder, ihchildren, ihrest, List.map_cons, List.map_append]

/-- The preorder of a row goes tree after tree. -/
theorem preorder_eq_flatMap (hedge : Hedge α) :
    hedge.preorder = hedge.trees.flatMap fun tree => tree.root :: tree.children.preorder := by
  induction hedge with
  | nil => rfl
  | cons root attributes children rest _ _ ih =>
      rw [preorder, ih, trees_cons, List.flatMap_cons, List.cons_append]

theorem preorder_pruned (hedge : Hedge α) : hedge.pruned.preorder = hedge.preorder := by
  induction hedge with
  | nil => rfl
  | cons root attributes children rest _ ihchildren ihrest =>
      rw [pruned, preorder, preorder, ihchildren, ihrest]

theorem preorder_subset_labels (hedge : Hedge α) : hedge.preorder ⊆ hedge.labels := by
  induction hedge with
  | nil => exact List.Subset.refl []
  | cons root attributes children rest _ ihchildren ihrest =>
      rw [preorder, labels_cons, List.append_assoc]
      apply List.cons_subset_cons
      apply List.subset_append_of_subset_right
      exact List.append_subset.mpr ⟨List.subset_append_of_subset_left _ ihchildren,
        List.subset_append_of_subset_right _ ihrest⟩

/-- What is written is what the nodes have to write, in preorder. -/
theorem writeText_eq (hedge : Hedge Content) (written : String) :
    hedge.writeText written = written ++ String.join (hedge.preorder.map Content.ownText) := by
  induction hedge generalizing written with
  | nil => rw [writeText, preorder, List.map_nil, String.join_nil, String.append_empty]
  | cons content attributes children rest _ ihchildren ihrest =>
      rw [writeText, ihrest, ihchildren, preorder, List.map_cons, List.map_append,
        String.join_cons, String.join_append, String.append_assoc, String.append_assoc]

end Hedge

namespace Content

/-- The value of a text, if it has one. -/
def text? (content : Content) : Option String :=
  if content.kind = .text then content.value? else none

theorem ownText_eq (content : Content) : content.ownText = content.text?.getD "" := by
  rw [ownText, text?, apply_ite (Option.getD · "")]
  rfl

end Content

/-- What the nodes have to write are the values of the texts among them. -/
theorem join_map_ownText (contents : List Content) :
    String.join (contents.map Content.ownText) =
      String.join (contents.filterMap Content.text?) := by
  induction contents with
  | nil => rfl
  | cons content contents ih =>
      rw [List.map_cons, String.join_cons, ih, content.ownText_eq]
      cases htext : content.text? with
      | none => rw [List.filterMap_cons_none htext, Option.getD_none, String.empty_append]
      | some value => rw [List.filterMap_cons_some htext, String.join_cons, Option.getD_some]

namespace Tree

/-- The tree without attributes, at any depth. -/
def pruned (tree : Tree α) : Tree α := ⟨tree.root, .nil, tree.children.pruned⟩

/-- Whether something stands under the root only if that is an element or a document. -/
def Bears (tree : Tree Content) : Prop :=
  tree.root.kind ≠ .element → tree.root.kind ≠ .document →
    tree.attributes = .nil ∧ tree.children = .nil

/-- What a tree adds to the string value of the node it is put under. -/
def contribution (tree : Tree Content) : String :=
  match tree.root.kind with
  | .text => tree.root.value?.getD ""
  | .document | .element => tree.stringValue
  | _ => ""

variable (tree : Tree Content)

/-- An element or a document stands for the text below it. -/
theorem stringValue_eq_join
    (hkind : tree.root.kind = .element ∨ tree.root.kind = .document) :
    tree.stringValue = String.join (tree.children.preorder.map Content.ownText) := by
  have hown : tree.root.ownText = "" := by
    rw [Content.ownText, if_neg]
    rcases hkind with hkind | hkind <;> simp [hkind]
  have hwrite : tree.toHedge.writeText "" =
      String.join ((tree.root :: tree.children.preorder).map Content.ownText) := by
    rw [Hedge.writeText_eq, String.empty_append, toHedge, Hedge.preorder, Hedge.preorder,
      List.append_nil]
  rw [List.map_cons, String.join_cons, hown, String.empty_append] at hwrite
  rw [stringValue, ← hwrite]
  rcases hkind with hkind | hkind <;> rw [hkind]

/-- Any other node stands for its value. -/
theorem stringValue_eq_value (helement : tree.root.kind ≠ .element)
    (hdocument : tree.root.kind ≠ .document) :
    tree.stringValue = tree.root.value?.getD "" := by
  unfold stringValue
  split
  next hkind => exact absurd hkind helement
  next hkind => exact absurd hkind hdocument
  next => rfl

/-- Attributes at any depth make no difference. -/
theorem stringValue_pruned : tree.pruned.stringValue = tree.stringValue := by
  by_cases hkind : tree.root.kind = .element ∨ tree.root.kind = .document
  · rw [stringValue_eq_join tree hkind, stringValue_eq_join tree.pruned hkind, pruned,
      Hedge.preorder_pruned]
  · obtain ⟨helement, hdocument⟩ := not_or.mp hkind
    rw [stringValue_eq_value tree helement hdocument]
    exact stringValue_eq_value tree.pruned helement hdocument

/-- A tree adds what is written for it, as no text stands under a node of another kind. -/
theorem contribution_eq_join (hbears : tree.Bears) :
    tree.contribution =
      String.join ((tree.root :: tree.children.preorder).map Content.ownText) := by
  rw [List.map_cons, String.join_cons, contribution, Content.ownText]
  by_cases hkind : tree.root.kind = .element ∨ tree.root.kind = .document
  · have hjoin := tree.stringValue_eq_join hkind
    rcases hkind with hkind | hkind
    · rw [hkind, if_neg nofun, String.empty_append, ← hjoin]
    · rw [hkind, if_neg nofun, String.empty_append, ← hjoin]
  · obtain ⟨helement, hdocument⟩ := not_or.mp hkind
    obtain ⟨_, hchildren⟩ := hbears helement hdocument
    rw [hchildren, Hedge.preorder, List.map_nil, String.join_nil, String.append_empty]
    split
    next htext => rw [if_pos htext]
    next hother => exact absurd hother hdocument
    next hother => exact absurd hother helement
    next htext _ _ => rw [if_neg htext]

end Tree

/-- The texts of a row are what its trees add, one after another. -/
theorem Hedge.join_ownText_eq (row : Hedge Content) (hbears : ∀ tree ∈ row.trees, tree.Bears) :
    String.join (row.preorder.map Content.ownText) =
      String.join (row.trees.map Tree.contribution) := by
  rw [preorder_eq_flatMap]
  generalize row.trees = trees at hbears
  induction trees with
  | nil => rfl
  | cons tree trees ih =>
      obtain ⟨htree, htrees⟩ := List.forall_mem_cons.mp hbears
      rw [List.flatMap_cons, List.map_append, String.join_append, ih htrees,
        ← tree.contribution_eq_join htree]
      exact String.join_cons.symm

end XPathTree

import Mathlib.Data.List.Nodup
import Mathlib.Data.List.Perm.Basic
import XPathTree.Hedge.Lemmas

/-! # Views of a hedge

The trees of the row, the trees at any depth and the labels are three views of one
hedge. Each operation is described through the first two: what it does to the row,
and which trees are left.
-/

namespace XPathTree

universe u v

variable {α : Type u} {β : Type v}

namespace Tree

/-- The tree and every tree in it. -/
def subtrees (tree : Tree α) : List (Tree α) :=
  tree :: (tree.attributes.subtrees ++ tree.children.subtrees)

/-- The labels directly under the root. -/
def below (tree : Tree α) : List α := tree.attributes.roots ++ tree.children.roots

end Tree

namespace Hedge

@[simp] theorem trees_nil : (nil : Hedge α).trees = [] := rfl

@[simp] theorem subtrees_nil : (nil : Hedge α).subtrees = [] := rfl

@[simp] theorem roots_nil : (nil : Hedge α).roots = [] := rfl

@[simp] theorem labels_nil : (nil : Hedge α).labels = [] := rfl

@[simp] theorem trees_cons (root : α) (attributes children rest : Hedge α) :
    (cons root attributes children rest).trees = ⟨root, attributes, children⟩ :: rest.trees := rfl

@[simp] theorem roots_cons (root : α) (attributes children rest : Hedge α) :
    (cons root attributes children rest).roots = root :: rest.roots := rfl

@[simp] theorem labels_cons (root : α) (attributes children rest : Hedge α) :
    (cons root attributes children rest).labels =
      root :: (attributes.labels ++ children.labels ++ rest.labels) := by
  simp [labels, subtrees]

/-- A hedge is the row of its trees. -/
theorem trees_injective : Function.Injective (trees : Hedge α → List (Tree α)) := by
  intro first second htrees
  induction first generalizing second with
  | nil =>
      cases second with
      | nil => rfl
      | cons => simp at htrees
  | cons root attributes children rest _ _ ih =>
      cases second with
      | nil => simp at htrees
      | cons =>
          simp only [trees_cons, List.cons.injEq, Tree.mk.injEq] at htrees
          obtain ⟨⟨rfl, rfl, rfl⟩, hrest⟩ := htrees
          rw [ih hrest]

theorem eq_of_map_some_trees {first second : Hedge α}
    (htrees : first.trees.map some = second.trees.map some) : first = second :=
  trees_injective (List.map_injective_iff.mpr (fun _ _ => Option.some.inj) htrees)

/-- A row is listed tree after tree. -/
theorem subtrees_eq_flatMap (hedge : Hedge α) :
    hedge.subtrees = hedge.trees.flatMap Tree.subtrees := by
  induction hedge with
  | nil => rfl
  | cons root attributes children rest _ _ ih =>
      rw [subtrees, ih, trees_cons, List.flatMap_cons, Tree.subtrees]
      rfl

theorem mem_labels_iff {hedge : Hedge α} {label : α} :
    label ∈ hedge.labels ↔ ∃ tree ∈ hedge.subtrees, tree.root = label := List.mem_map

theorem mem_roots_iff {hedge : Hedge α} {label : α} :
    label ∈ hedge.roots ↔ ∃ tree ∈ hedge.trees, tree.root = label := List.mem_map

theorem mem_subtrees_of_mem_trees {hedge : Hedge α} {tree : Tree α} (htree : tree ∈ hedge.trees) :
    tree ∈ hedge.subtrees := by
  rw [subtrees_eq_flatMap]
  exact List.mem_flatMap.mpr ⟨tree, htree, List.mem_cons_self⟩

theorem mem_labels_of_mem_roots {hedge : Hedge α} {label : α} (hlabel : label ∈ hedge.roots) :
    label ∈ hedge.labels := by
  obtain ⟨tree, htree, rfl⟩ := mem_roots_iff.mp hlabel
  exact mem_labels_iff.mpr ⟨tree, mem_subtrees_of_mem_trees htree, rfl⟩

/-- A tree of the hedge is listed as a part of the hedge. -/
theorem sublist_of_mem_subtrees {hedge : Hedge α} {tree : Tree α} (htree : tree ∈ hedge.subtrees) :
    tree.subtrees.Sublist hedge.subtrees := by
  induction hedge with
  | nil => simp at htree
  | cons root attributes children rest ihattributes ihchildren ihrest =>
      simp only [subtrees, List.mem_cons, List.mem_append] at htree ⊢
      rcases htree with rfl | (hattributes | hchildren) | hrest
      · exact .cons_cons _ (List.sublist_append_left _ _)
      · have hinside := ihattributes hattributes
        exact .cons _ (hinside.trans
          ((List.sublist_append_left _ _).trans (List.sublist_append_left _ _)))
      · have hinside := ihchildren hchildren
        exact .cons _ (hinside.trans
          ((List.sublist_append_right _ _).trans (List.sublist_append_left _ _)))
      · exact .cons _ ((ihrest hrest).trans (List.sublist_append_right _ _))

theorem subtrees_toHedge (tree : Tree α) : tree.toHedge.subtrees = tree.subtrees := by
  rw [Tree.toHedge, subtrees, subtrees_nil, List.append_nil, Tree.subtrees]

/-- What is below a tree of the hedge is in the hedge. -/
theorem mem_subtrees_of_below {hedge : Hedge α} {tree inner : Tree α}
    (htree : tree ∈ hedge.subtrees)
    (hinner : inner ∈ tree.attributes.subtrees ∨ inner ∈ tree.children.subtrees) :
    inner ∈ hedge.subtrees := by
  apply (sublist_of_mem_subtrees htree).subset
  exact List.mem_cons_of_mem _ (List.mem_append.mpr hinner)

/-- What stands directly under the root of a tree of the hedge is in the hedge. -/
theorem mem_subtrees_of_top {hedge : Hedge α} {tree inner : Tree α} (htree : tree ∈ hedge.subtrees)
    (hinner : inner ∈ tree.attributes.trees ∨ inner ∈ tree.children.trees) :
    inner ∈ hedge.subtrees :=
  mem_subtrees_of_below htree (hinner.imp mem_subtrees_of_mem_trees mem_subtrees_of_mem_trees)

theorem mem_labels_of_mem_toHedge {hedge : Hedge α} {tree : Tree α} {label : α}
    (htree : tree ∈ hedge.subtrees) (hlabel : label ∈ tree.toHedge.labels) :
    label ∈ hedge.labels := by
  rw [labels, subtrees_toHedge] at hlabel
  exact ((sublist_of_mem_subtrees htree).map _).subset hlabel

/-- A tree inside a hedge has no more nodes than the hedge. -/
theorem size_le_of_mem_subtrees {hedge : Hedge α} {tree : Tree α}
    (htree : tree ∈ hedge.subtrees) : tree.toHedge.size ≤ hedge.size := by
  rw [← length_labels, ← length_labels, labels, labels, List.length_map, List.length_map,
    subtrees_toHedge]
  exact (sublist_of_mem_subtrees htree).length_le

theorem mem_labels_of_below {hedge : Hedge α} {tree : Tree α} {label : α}
    (htree : tree ∈ hedge.subtrees) (hlabel : label ∈ tree.below) : label ∈ hedge.labels := by
  rcases List.mem_append.mp hlabel with hroot | hroot
  all_goals
    obtain ⟨inner, hinner, rfl⟩ := mem_roots_iff.mp hroot
    have hinner := mem_subtrees_of_mem_trees hinner
    refine mem_labels_iff.mpr ⟨inner, mem_subtrees_of_below htree ?_, rfl⟩
  · exact Or.inl hinner
  · exact Or.inr hinner

/-- Every label stands at the top of the row or directly under one other. -/
theorem labels_perm (hedge : Hedge α) :
    hedge.labels.Perm (hedge.roots ++ hedge.subtrees.flatMap Tree.below) := by
  induction hedge with
  | nil => exact .nil
  | cons root attributes children rest ihattributes ihchildren ihrest =>
      rw [labels_cons, roots_cons, subtrees, List.flatMap_cons, List.flatMap_append,
        List.flatMap_append, List.cons_append]
      refine .cons root (((ihattributes.append ihchildren).append ihrest).trans ?_)
      -- Both sides hold the roots and what is below them in the three parts, in another order.
      classical
      rw [List.perm_iff_count]
      intro label
      simp only [Tree.below, List.count_append]
      omega

/-- Where no label comes twice, what stands at the top of the row is under nothing. -/
theorem not_mem_below_of_mem_roots {hedge : Hedge α} (hnodup : hedge.labels.Nodup) {label : α}
    (hroot : label ∈ hedge.roots) {tree : Tree α} (htree : tree ∈ hedge.subtrees) :
    label ∉ tree.below := by
  intro hbelow
  have hlabels := hedge.labels_perm.nodup_iff.mp hnodup
  exact List.disjoint_of_nodup_append hlabels hroot (List.mem_flatMap.mpr ⟨tree, htree, hbelow⟩)

/-! ## Relabelling -/

theorem trees_map (f : α → β) (hedge : Hedge α) :
    (hedge.map f).trees = hedge.trees.map (Tree.map f) := by
  induction hedge with
  | nil => rfl
  | cons root attributes children rest _ _ ih => simp [map, ih, Tree.map]

theorem subtrees_map (f : α → β) (hedge : Hedge α) :
    (hedge.map f).subtrees = hedge.subtrees.map (Tree.map f) := by
  induction hedge with
  | nil => rfl
  | cons root attributes children rest ihattributes ihchildren ihrest =>
      simp [map, subtrees, ihattributes, ihchildren, ihrest, Tree.map]

theorem roots_map (f : α → β) (hedge : Hedge α) : (hedge.map f).roots = hedge.roots.map f := by
  rw [roots, trees_map, List.map_map, roots, List.map_map]
  rfl

theorem map_map {γ : Type v} (g : β → γ) (f : α → β) (hedge : Hedge α) :
    (hedge.map f).map g = hedge.map fun label => g (f label) := by
  induction hedge with
  | nil => rfl
  | cons root attributes children rest ihattributes ihchildren ihrest =>
      simp [map, ihattributes, ihchildren, ihrest]

/-- Nothing is relabelled if every label stays as it is. -/
theorem map_eq_self {f : α → α} {hedge : Hedge α} (hf : ∀ label ∈ hedge.labels, f label = label) :
    hedge.map f = hedge := by
  induction hedge with
  | nil => rfl
  | cons root attributes children rest ihattributes ihchildren ihrest =>
      simp only [labels_cons, List.forall_mem_cons, List.forall_mem_append] at hf
      obtain ⟨hroot, ⟨hattributes, hchildren⟩, hrest⟩ := hf
      rw [map, hroot, ihattributes hattributes, ihchildren hchildren, ihrest hrest]

theorem below_map (f : α → β) (tree : Tree α) : (tree.map f).below = tree.below.map f := by
  rw [Tree.below, Tree.map, roots_map, roots_map, Tree.below, List.map_append]

/-- Hedges that are alike after a relabelling are paired node by node. -/
theorem exists_zip {γ : Type v} {f : α → γ} {g : β → γ} {first : Hedge α} {second : Hedge β}
    (hsame : first.map f = second.map g) :
    ∃ pairs : Hedge (α × β), pairs.map Prod.fst = first ∧ pairs.map Prod.snd = second := by
  induction first generalizing second with
  | nil =>
      cases second with
      | nil => exact ⟨.nil, rfl, rfl⟩
      | cons => cases hsame
  | cons root attributes children rest ihattributes ihchildren ihrest =>
      cases second with
      | nil => cases hsame
      | cons other otherAttributes otherChildren otherRest =>
          obtain ⟨_, hattributes, hchildren, hrest⟩ := Hedge.cons.inj hsame
          obtain ⟨attributePairs, rfl, rfl⟩ := ihattributes hattributes
          obtain ⟨childPairs, rfl, rfl⟩ := ihchildren hchildren
          obtain ⟨restPairs, rfl, rfl⟩ := ihrest hrest
          exact ⟨.cons (root, other) attributePairs childPairs restPairs, rfl, rfl⟩

/-! ## Choosing trees -/

theorem trees_filterRoots (p : α → Bool) (hedge : Hedge α) :
    (hedge.filterRoots p).trees = hedge.trees.filter fun tree => p tree.root := by
  induction hedge with
  | nil => rfl
  | cons root attributes children rest _ _ ih =>
      by_cases hroot : p root = true <;> simp [filterRoots, hroot, ih]

theorem subtrees_outermost (p : α → Bool) (hedge : Hedge α) :
    (hedge.outermost p).subtrees.Sublist hedge.subtrees := by
  induction hedge with
  | nil => exact .slnil
  | cons root attributes children rest ihattributes ihchildren ihrest =>
      unfold outermost
      split
      next => exact .cons_cons _ (List.Sublist.append (.refl _) ihrest)
      next =>
        rw [subtrees_append, subtrees_append]
        exact .cons _ ((ihattributes.append ihchildren).append ihrest)

theorem labels_outermost (p : α → Bool) (hedge : Hedge α) :
    (hedge.outermost p).labels.Sublist hedge.labels :=
  (subtrees_outermost p hedge).map _

/-- What is left is what stands in the tree of some node that is sought. -/
theorem mem_labels_outermost_iff {p : α → Bool} {hedge : Hedge α} {label : α} :
    label ∈ (hedge.outermost p).labels ↔
      ∃ tree ∈ hedge.subtrees, p tree.root = true ∧ label ∈ tree.toHedge.labels := by
  induction hedge with
  | nil => simp [outermost]
  | cons root attributes children rest ihattributes ihchildren ihrest =>
      let top : Tree α := ⟨root, attributes, children⟩
      unfold outermost
      split
      next hroot =>
        have hleft : cons root attributes children (rest.outermost p) =
            top.toHedge ++ rest.outermost p := rfl
        have hlisted : (cons root attributes children rest).subtrees =
            top.toHedge.subtrees ++ rest.subtrees := subtrees_append top.toHedge rest
        rw [hleft, hlisted, labels_append, List.mem_append, ihrest]
        constructor
        · rintro (hlabel | ⟨tree, htree, hsought⟩)
          · exact ⟨top, by simp [subtrees_toHedge, Tree.subtrees], hroot, hlabel⟩
          · exact ⟨tree, List.mem_append_right _ htree, hsought⟩
        · rintro ⟨tree, htree, hsought, hlabel⟩
          rcases List.mem_append.mp htree with hinside | hrest
          · exact Or.inl (mem_labels_of_mem_toHedge hinside hlabel)
          · exact Or.inr ⟨tree, hrest, hsought, hlabel⟩
      next hroot =>
        simp [subtrees, ihattributes, ihchildren, ihrest, hroot, or_and_right, exists_or]

end Hedge

end XPathTree

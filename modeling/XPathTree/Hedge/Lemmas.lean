import XPathTree.Hedge

/-! # Laws of hedges

How joining and relabelling act on the views of a hedge: its trees, its
subtrees, its labels and its size.
-/

namespace XPathTree.Hedge

universe u v

variable {α : Type u} {β : Type v}

@[simp] theorem nil_append (hedge : Hedge α) : nil ++ hedge = hedge := rfl

@[simp] theorem cons_append (root : α) (attributes children rest other : Hedge α) :
    cons root attributes children rest ++ other = cons root attributes children (rest ++ other) :=
  rfl

@[simp] theorem append_nil (hedge : Hedge α) : hedge ++ nil = hedge := by
  induction hedge with
  | nil => rfl
  | cons root attributes children rest _ _ ih => simp [ih]

theorem append_assoc (first second third : Hedge α) :
    first ++ second ++ third = first ++ (second ++ third) := by
  induction first with
  | nil => rfl
  | cons root attributes children rest _ _ ih => simp [ih]

@[simp] theorem trees_append (first second : Hedge α) :
    (first ++ second).trees = first.trees ++ second.trees := by
  induction first with
  | nil => rfl
  | cons root attributes children rest _ _ ih => simp [trees, ih]

@[simp] theorem roots_append (first second : Hedge α) :
    (first ++ second).roots = first.roots ++ second.roots := by
  simp [roots]

@[simp] theorem subtrees_append (first second : Hedge α) :
    (first ++ second).subtrees = first.subtrees ++ second.subtrees := by
  induction first with
  | nil => rfl
  | cons root attributes children rest _ _ ih => simp [subtrees, ih]

@[simp] theorem labels_append (first second : Hedge α) :
    (first ++ second).labels = first.labels ++ second.labels := by
  simp [labels]

@[simp] theorem size_append (first second : Hedge α) :
    (first ++ second).size = first.size + second.size := by
  induction first with
  | nil => simp [size]
  | cons root attributes children rest _ _ ih => simp [size, ih]; omega

@[simp] theorem map_append (f : α → β) (first second : Hedge α) :
    (first ++ second).map f = first.map f ++ second.map f := by
  induction first with
  | nil => rfl
  | cons root attributes children rest _ _ ih => simp [map, ih]

theorem length_labels (hedge : Hedge α) : hedge.labels.length = hedge.size := by
  induction hedge with
  | nil => rfl
  | cons root attributes children rest ihattributes ihchildren ihrest =>
      simp only [labels, List.length_map] at ihattributes ihchildren ihrest
      simp [labels, subtrees, size, ihattributes, ihchildren, ihrest]
      omega

theorem labels_map (f : α → β) (hedge : Hedge α) :
    (hedge.map f).labels = hedge.labels.map f := by
  induction hedge with
  | nil => rfl
  | cons root attributes children rest ihattributes ihchildren ihrest =>
      simp only [labels] at ihattributes ihchildren ihrest
      simp [labels, map, subtrees, ihattributes, ihchildren, ihrest]

@[simp] theorem size_map (f : α → β) (hedge : Hedge α) : (hedge.map f).size = hedge.size := by
  rw [← length_labels, labels_map, List.length_map, length_labels]

end XPathTree.Hedge

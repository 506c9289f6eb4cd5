import Mathlib.Data.List.Nodup

/-! # First members by key

A list read from its start, where a member counts only if no earlier one has its
key. The recursive law `firsts_cons` carries every proof about such a reading.
-/

namespace XPathTree

universe u v w

variable {α : Type u} {β : Type v} {κ : Type w} [DecidableEq κ]

/-- The members of the list whose key no earlier member has. -/
def firsts (key : α → κ) (list : List α) : List α :=
  (list.zipIdx.filter fun (member, position) =>
    ∀ earlier ∈ list.take position, key earlier ≠ key member).map (·.1)

@[simp] theorem firsts_nil (key : α → κ) : firsts key [] = [] := rfl

/-- The head always counts, and takes its key from the members after it. -/
theorem firsts_cons (key : α → κ) (head : α) (tail : List α) :
    firsts key (head :: tail) = head :: (firsts key tail).filter (key · ≠ key head) := by
  have hshift : tail.zipIdx 1 =
      tail.zipIdx.map fun (member, position) => (member, position + 1) := by
    rw [List.zipIdx_eq_map_add]
    simp [Nat.add_comm]
  rw [firsts, List.zipIdx_cons, List.filter_cons_of_pos (by simp), List.map_cons, Nat.zero_add,
    hshift, List.filter_map, List.map_map, firsts, List.filter_map, List.filter_filter]
  congr 1
  refine congrArg₂ List.map rfl (List.filter_congr fun entry _ => ?_)
  rw [Bool.eq_iff_iff]
  simp [eq_comm (a := key head)]

/-- The first members of two lists are those of the one, and of the other those whose key
the one lacks. -/
theorem firsts_append (key : α → κ) (first second : List α) :
    firsts key (first ++ second) =
      firsts key first ++ (firsts key second).filter (key · ∉ first.map key) := by
  induction first with
  | nil => simp
  | cons head tail ih =>
      rw [List.cons_append, firsts_cons, ih, List.filter_append, List.filter_filter, firsts_cons,
        List.cons_append]
      refine congrArg (head :: _ ++ ·) (List.filter_congr fun member _ => ?_)
      simp

theorem firsts_eq_self (key : α → κ) {list : List α} (hnodup : (list.map key).Nodup) :
    firsts key list = list := by
  induction list with
  | nil => rfl
  | cons head tail ih =>
      obtain ⟨hhead, htail⟩ := List.nodup_cons.mp hnodup
      rw [firsts_cons, ih htail, List.filter_eq_self.mpr]
      intro member hmember
      have hne : key member ≠ key head := fun heq => hhead (heq ▸ List.mem_map_of_mem hmember)
      exact decide_eq_true hne

theorem firsts_map (key : β → κ) (f : α → β) (list : List α) :
    firsts key (list.map f) = (firsts (fun member => key (f member)) list).map f := by
  induction list with
  | nil => rfl
  | cons head tail ih =>
      rw [List.map_cons, firsts_cons, firsts_cons, ih, List.map_cons, List.filter_map]
      rfl

theorem nodup_firsts (key : α → κ) (list : List α) : ((firsts key list).map key).Nodup := by
  induction list with
  | nil => exact List.nodup_nil
  | cons head tail ih =>
      rw [firsts_cons, List.map_cons, List.nodup_cons]
      refine ⟨?_, ih.sublist (List.filter_sublist.map key)⟩
      intro hmem
      obtain ⟨member, hmember, hkey⟩ := List.mem_map.mp hmem
      exact of_decide_eq_true (List.mem_filter.mp hmember).2 hkey

/-- By themselves all members of a list are among the first ones. -/
theorem mem_firsts_id (list : List κ) (sought : κ) : sought ∈ firsts id list ↔ sought ∈ list := by
  induction list with
  | nil => rfl
  | cons head tail ih =>
      rw [firsts_cons, List.mem_cons, List.mem_cons, List.mem_filter, ih]
      by_cases hhead : sought = head <;> simp [hhead]

/-- Asking for a key, the first members answer for the whole list. -/
theorem find?_firsts (key : α → κ) (list : List α) (sought : κ) :
    (firsts key list).find? (key · == sought) = list.find? (key · == sought) := by
  induction list with
  | nil => rfl
  | cons head tail ih =>
      rw [firsts_cons, List.find?_cons, List.find?_cons]
      split
      next => rfl
      next hhead =>
        -- What the head takes away has its key, which is not the one that is sought.
        rw [List.find?_filter, ← ih]
        congr 1
        funext member
        by_cases hkey : key member = sought
        · subst hkey
          simpa [eq_comm (a := key head)] using hhead
        · simp [hkey]

/-- In a list without a key that comes twice, every member is found by its key. -/
theorem find?_eq_some_of_mem (key : α → κ) {list : List α} (hnodup : (list.map key).Nodup)
    {member : α} (hmember : member ∈ list) : list.find? (key · == key member) = some member := by
  induction list with
  | nil => simp at hmember
  | cons head tail ih =>
      obtain ⟨hhead, htail⟩ := List.nodup_cons.mp hnodup
      rcases List.mem_cons.mp hmember with rfl | hmember
      · exact List.find?_cons_of_pos (beq_self_eq_true _)
      · have hne : key head ≠ key member := fun heq => hhead (heq ▸ List.mem_map_of_mem hmember)
        rw [List.find?_cons_of_neg (by simpa using hne)]
        exact ih htail hmember

/-- In such a list a member is the only one with its key. -/
theorem filter_eq_singleton_of_mem (key : α → κ) {list : List α} (hnodup : (list.map key).Nodup)
    {member : α} (hmember : member ∈ list) :
    list.filter (fun other => key other = key member) = [member] := by
  induction list with
  | nil => simp at hmember
  | cons head tail ih =>
      obtain ⟨hhead, htail⟩ := List.nodup_cons.mp hnodup
      rcases List.mem_cons.mp hmember with rfl | hmember
      · rw [List.filter_cons_of_pos (by simp), List.filter_eq_nil_iff.mpr]
        intro other hother hsame
        exact hhead (of_decide_eq_true hsame ▸ List.mem_map_of_mem hother)
      · have hne : key head ≠ key member := fun heq => hhead (heq ▸ List.mem_map_of_mem hmember)
        rw [List.filter_cons_of_neg (by simpa using hne)]
        exact ih htail hmember

/-- A key that comes once finds the same member wherever it stands. -/
theorem find?_eq_of_perm (key : α → κ) {first second : List α} (hperm : first.Perm second)
    (hnodup : (first.map key).Nodup) (sought : κ) :
    first.find? (key · == sought) = second.find? (key · == sought) := by
  cases hfound : first.find? (key · == sought) with
  | none =>
      symm
      rw [List.find?_eq_none] at hfound ⊢
      intro member hmember
      exact hfound member (hperm.mem_iff.mpr hmember)
  | some member =>
      have hkey : key member = sought := by simpa using List.find?_some hfound
      have hmember := hperm.mem_iff.mp (List.mem_of_find?_eq_some hfound)
      rw [← hkey, find?_eq_some_of_mem key ((hperm.map key).nodup hnodup) hmember]

end XPathTree

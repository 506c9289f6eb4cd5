import XPathTree.Session.Holdings

/-! # What holdings own

A node is owned when some entry has a value that keeps it in being. Looking a name up
leads to an entry; holding and letting go change no other entry.
-/

namespace XPathTree.Holdings

universe u

variable {N : Type u} {holdings : Holdings N} {name : String} {value : Value N} {node : N}

theorem mem_owned_iff :
    node ∈ holdings.owned ↔ ∃ entry ∈ holdings.entries, entry.2.owned? = some node := by
  rw [owned, List.mem_filterMap]

theorem mem_entries_of_get? (hget : holdings.get? name = some value) :
    (name, value) ∈ holdings.entries := by
  obtain ⟨⟨other, held⟩, hfind, rfl⟩ := Option.map_eq_some_iff.mp hget
  obtain rfl : other = name := by simpa using List.find?_some hfind
  exact List.mem_of_find?_eq_some hfind

theorem mem_owned_of_get? (hget : holdings.get? name = some value)
    (howned : value.owned? = some node) : node ∈ holdings.owned :=
  mem_owned_iff.mpr ⟨(name, value), mem_entries_of_get? hget, howned⟩

theorem get?_of_treeNode (hnode : holdings.treeNode name = .ok node) :
    holdings.get? name = some (.treeNode node) := by
  unfold treeNode select Holdings.value at hnode
  cases hget : holdings.get? name with
  | none =>
      rw [hget] at hnode
      cases hnode
  | some value =>
      rw [hget] at hnode
      cases value with
      | treeNode held =>
          obtain rfl := Except.ok.inj hnode
          rfl
      | namespaceNode held => cases hnode
      | result held => cases hnode

theorem mem_owned_of_treeNode (hnode : holdings.treeNode name = .ok node) :
    node ∈ holdings.owned := mem_owned_of_get? (get?_of_treeNode hnode) rfl

/-- After holding a value an entry is the new one or one that was there. -/
theorem mem_entries_insert {entry : String × Value N}
    (hentry : entry ∈ (holdings.insert name value).entries) :
    entry = (name, value) ∨ entry ∈ holdings.entries := by
  have hall : ∀ entries : List (String × Value N), entry ∈ insertEntry name value entries →
      entry = (name, value) ∨ entry ∈ entries := by
    intro entries hentry
    induction entries with
    | nil => exact Or.inl (List.mem_singleton.mp hentry)
    | cons head rest ih =>
        unfold insertEntry at hentry
        split at hentry
        · exact List.mem_cons.mp hentry
        · split at hentry
          · exact (List.mem_cons.mp hentry).imp_right (List.mem_cons_of_mem _)
          · rcases List.mem_cons.mp hentry with rfl | hentry
            · exact Or.inr List.mem_cons_self
            · exact (ih hentry).imp_right (List.mem_cons_of_mem _)
  exact hall holdings.entries hentry

theorem mem_entries_erase {entry : String × Value N}
    (hentry : entry ∈ (holdings.erase name).entries) : entry ∈ holdings.entries :=
  (List.mem_filter.mp hentry).1

end XPathTree.Holdings

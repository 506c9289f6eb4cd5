/-! # Parent chains

The nodes met on the way from a node up to a root, the node itself first. The
chain is a relation: a node of a cyclic structure has none. `climb` computes it
within a bound on the number of nodes; the bound suffices for every finite chain
once it is at least the number of nodes that are somebody's parent, plus one.
-/

namespace XPathTree

universe u

variable {N : Type u} {parent : N → Option N}

/-- `ParentChain parent node chain`: following `parent` from `node` passes the
nodes of `chain` and stops at its last one. -/
inductive ParentChain (parent : N → Option N) : N → List N → Prop
  | top {node : N} (htop : parent node = none) : ParentChain parent node [node]
  | step {node above : N} {rest : List N} (habove : parent node = some above)
      (hrest : ParentChain parent above rest) : ParentChain parent node (node :: rest)

/-- The first nodes of the chain, as many as the bound allows. -/
def climb (parent : N → Option N) : Nat → N → List N
  | 0, _ => []
  | bound + 1, node =>
      node :: match parent node with
        | none => []
        | some above => climb parent bound above

namespace ParentChain

theorem climb_eq {node : N} {chain : List N} {bound : Nat}
    (hchain : ParentChain parent node chain) (hbound : chain.length ≤ bound) :
    climb parent bound node = chain := by
  induction hchain generalizing bound with
  | top htop =>
      cases bound with
      | zero => simp at hbound
      | succ bound => simp [climb, htop]
  | step habove _ ih =>
      cases bound with
      | zero => simp at hbound
      | succ bound => simp [climb, habove, ih (Nat.le_of_succ_le_succ hbound)]

theorem unique {node : N} {first second : List N} (hfirst : ParentChain parent node first)
    (hsecond : ParentChain parent node second) : first = second := by
  induction hfirst generalizing second with
  | top htop =>
      cases hsecond with
      | top => rfl
      | step habove => simp [htop] at habove
  | step habove _ ih =>
      cases hsecond with
      | top htop => simp [habove] at htop
      | step habove' hrest' =>
          obtain rfl : _ = _ := Option.some.inj (habove.symm.trans habove')
          rw [ih hrest']

/-- Every node of a chain has a chain of its own, no longer than the whole. -/
theorem of_mem {node other : N} {chain : List N} (hchain : ParentChain parent node chain)
    (hother : other ∈ chain) :
    ∃ rest, ParentChain parent other rest ∧ rest.length ≤ chain.length := by
  induction hchain with
  | top htop =>
      obtain rfl := List.mem_singleton.mp hother
      exact ⟨_, .top htop, Nat.le_refl _⟩
  | step habove hrest ih =>
      rcases List.mem_cons.mp hother with rfl | hother
      · exact ⟨_, .step habove hrest, Nat.le_refl _⟩
      · obtain ⟨rest, hchain, hlength⟩ := ih hother
        exact ⟨rest, hchain, Nat.le_succ_of_le hlength⟩

theorem eq_cons_tail {node : N} {chain : List N} (hchain : ParentChain parent node chain) :
    chain = node :: chain.tail := by
  cases hchain <;> rfl

/-- A chain stops at a node that nothing is above. -/
theorem exists_getLast? {node : N} {chain : List N} (hchain : ParentChain parent node chain) :
    ∃ top, chain.getLast? = some top ∧ parent top = none := by
  induction hchain with
  | top htop => exact ⟨_, rfl, htop⟩
  | step _ hrest ih =>
      obtain ⟨top, hlast, hnone⟩ := ih
      refine ⟨top, ?_, hnone⟩
      rw [hrest.eq_cons_tail] at hlast ⊢
      rw [List.getLast?_cons_cons, hlast]

/-- From any node of a chain onward it is the chain of that node. -/
theorem of_append {node other : N} {chain before after : List N}
    (hchain : ParentChain parent node chain) (hsplit : chain = before ++ other :: after) :
    ParentChain parent other (other :: after) := by
  induction hchain generalizing before with
  | top htop =>
      cases before with
      | nil =>
          cases hsplit
          exact .top htop
      | cons head before => simp at hsplit
  | step habove hrest ih =>
      cases before with
      | nil =>
          cases hsplit
          exact .step habove hrest
      | cons head before => exact ih (List.cons.inj hsplit).2

theorem nodup {node : N} {chain : List N} (hchain : ParentChain parent node chain) :
    chain.Nodup := by
  induction hchain with
  | top => simp
  | step habove hrest ih =>
      refine List.nodup_cons.mpr ⟨fun hmem => ?_, ih⟩
      obtain ⟨rest, hagain, hlength⟩ := hrest.of_mem hmem
      rw [hagain.unique (.step habove hrest)] at hlength
      exact Nat.not_succ_le_self _ hlength

theorem tail_subset {node : N} {chain parents : List N}
    (hchain : ParentChain parent node chain)
    (hparents : ∀ child above, parent child = some above → above ∈ parents) :
    ∀ other ∈ chain.tail, other ∈ parents := by
  induction hchain with
  | top => simp
  | step habove hrest ih =>
      intro other hother
      cases hrest with
      | top =>
          obtain rfl := List.mem_singleton.mp hother
          exact hparents _ _ habove
      | step =>
          rcases List.mem_cons.mp hother with rfl | hother
          · exact hparents _ _ habove
          · exact ih other hother

end ParentChain

/-- Distinct members of a list are no more than the list holds. -/
theorem length_le_of_nodup_subset [DecidableEq N] {members : List N} (hnodup : members.Nodup) :
    ∀ {list : List N}, (∀ member ∈ members, member ∈ list) → members.length ≤ list.length := by
  induction members with
  | nil => simp
  | cons member members ih =>
      intro list hsubset
      obtain ⟨hnew, hnodup⟩ := List.nodup_cons.mp hnodup
      have hmem : member ∈ list := hsubset member (List.mem_cons_self ..)
      have hrest : members.length ≤ (list.erase member).length := by
        refine ih hnodup fun other hother => ?_
        have hne : other ≠ member := fun heq => hnew (heq ▸ hother)
        exact (List.mem_erase_of_ne hne).mpr (hsubset other (List.mem_cons_of_mem _ hother))
      have hlength := List.length_erase_of_mem hmem
      have hpos := List.length_pos_of_mem hmem
      simp only [List.length_cons]
      omega

theorem ParentChain.length_le [DecidableEq N] {node : N} {chain parents : List N}
    (hchain : ParentChain parent node chain)
    (hparents : ∀ child above, parent child = some above → above ∈ parents) :
    chain.length ≤ parents.length + 1 := by
  have htail := length_le_of_nodup_subset
    (hchain.nodup.sublist (List.tail_sublist chain)) (hchain.tail_subset hparents)
  simp only [List.length_tail] at htail
  omega

end XPathTree

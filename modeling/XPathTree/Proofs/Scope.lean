import XPathTree.Proofs.Firsts
import XPathTree.Scope

/-! # What is in scope

The walk outward collects the first declaration of each prefix that it meets. Along
a chain of ancestors the collected declarations are therefore the first members, by
prefix, of all declarations on the chain.
-/

namespace XPathTree

universe u

variable {N : Type u}

theorem addDeciding_eq (deciding : List Binding) (declared : Binding) :
    addDeciding deciding declared =
      deciding ++ if declared.pfx ∈ deciding.map Binding.pfx then [] else [declared] := by
  unfold addDeciding
  by_cases hmem : declared.pfx ∈ deciding.map Binding.pfx
  · rw [if_pos hmem, if_pos, List.append_nil]
    obtain ⟨earlier, hearlier, hpfx⟩ := List.mem_map.mp hmem
    exact List.any_eq_true.mpr ⟨earlier, hearlier, beq_iff_eq.mpr hpfx⟩
  · rw [if_neg hmem, if_neg]
    intro hany
    obtain ⟨earlier, hearlier, hpfx⟩ := List.any_eq_true.mp hany
    exact hmem (List.mem_map.mpr ⟨earlier, hearlier, beq_iff_eq.mp hpfx⟩)

/-- A run over declarations adds the first of each prefix that was not decided before. -/
theorem foldl_addDeciding (declared deciding : List Binding) :
    declared.foldl addDeciding deciding =
      deciding ++ (firsts Binding.pfx declared).filter (·.pfx ∉ deciding.map Binding.pfx) := by
  induction declared generalizing deciding with
  | nil => simp
  | cons head tail ih =>
      rw [List.foldl_cons, ih, addDeciding_eq, firsts_cons, List.filter_cons, List.filter_filter,
        List.append_assoc]
      by_cases hmem : head.pfx ∈ deciding.map Binding.pfx
      · -- The head is passed over, and so was all that it would have taken away.
        have hsame : ∀ binding ∈ firsts Binding.pfx tail,
            binding.pfx ∉ deciding.map Binding.pfx → binding.pfx ≠ head.pfx :=
          fun binding _ hnew heq => hnew (heq ▸ hmem)
        rw [if_pos hmem, if_neg (by simpa using hmem), List.nil_append, List.append_nil]
        refine congrArg (deciding ++ ·) (List.filter_congr fun binding hbinding => ?_)
        have hne := hsame binding hbinding
        by_cases hnew : binding.pfx ∈ deciding.map Binding.pfx <;> simp_all
      · rw [if_neg hmem, if_pos (by simpa using hmem), List.singleton_append]
        refine congrArg (deciding ++ head :: ·) (List.filter_congr fun binding _ => ?_)
        by_cases heq : binding.pfx = head.pfx <;> simp [heq]

namespace Host

variable (host : Host N)

/-- Every declaration on the nodes of a chain, in the order of the chain. -/
def declarationsAlong (chain : List N) : List Binding := chain.flatMap host.declarations

theorem declarationsAlong_cons (node : N) (rest : List N) :
    host.declarationsAlong (node :: rest) =
      host.declarations node ++ host.declarationsAlong rest := rfl

theorem declarationsAlong_singleton (node : N) :
    host.declarationsAlong [node] = host.declarations node := List.flatMap_singleton _ _

theorem declarationsAlong_append (first second : List N) :
    host.declarationsAlong (first ++ second) =
      host.declarationsAlong first ++ host.declarationsAlong second := List.flatMap_append

theorem declarationsAlong_initial {first second : List N} (hinitial : first <+: second) :
    host.declarationsAlong first <+: host.declarationsAlong second := by
  obtain ⟨rest, rfl⟩ := hinitial
  rw [declarationsAlong_append]
  exact List.prefix_append _ _

theorem scope_eq_firsts {node : N} {chain : List N}
    (hchain : ParentChain host.parent node chain) :
    host.scope node = firsts Binding.pfx (host.declarationsAlong chain) := by
  rw [scope, host.ancestorsOrSelf_eq hchain, declarationsAlong, ← List.foldl_flatMap,
    foldl_addDeciding]
  simp

theorem nodup_scope {node : N} {chain : List N} (hchain : ParentChain host.parent node chain) :
    ((host.scope node).map Binding.pfx).Nodup := by
  rw [host.scope_eq_firsts hchain]
  exact nodup_firsts _ _

/-- Asked for a prefix, the scope answers with the nearest declaration of it. -/
theorem find?_scope {node : N} {chain : List N} (hchain : ParentChain host.parent node chain)
    (pfx : String) :
    (host.scope node).find? (·.pfx == pfx) =
      (host.declarationsAlong chain).find? (·.pfx == pfx) := by
  rw [host.scope_eq_firsts hchain]
  exact find?_firsts _ _ _

end Host

end XPathTree

import XPathTree.Proofs.LookupPrefix

/-! # What declarations give

A node has its namespaces from the declarations that are met on the way outward from it,
and from nothing else about its host. The functions here say, for any list of
declarations, what the axis and the two lookups make of it; `Host.readsOff` says that every
node reads its namespaces off the declarations on its chain. So whatever leaves these as
they are, or adds to their far end, can be followed on lists.
-/

namespace XPathTree

universe u v

variable {M : Type u} {N : Type v}

namespace Declared

/-- The bindings that declarations put to use: of those with one prefix the first decides,
and it counts if it has a URI. -/
def inUse (declared : List Binding) : List Binding :=
  (firsts Binding.pfx declared).filter (·.uri ≠ "")

/-- The bindings in use, and after them the reserved one of `xml` where none has that prefix. -/
def axis (declared : List Binding) : List Binding :=
  inUse declared ++
    if xmlPrefix ∈ (inUse declared).map Binding.pfx then [] else [⟨xmlPrefix, xmlUri⟩]

/-- The URI that the first declaration of a prefix gives it. -/
def target? (declared : List Binding) (pfx : String) : Option String :=
  (declared.find? (·.pfx == pfx)).bind Binding.target?

/-- The URI that a prefix stands for, where declarations of `xml` are not asked. -/
def uriOf? (declared : List Binding) (pfx : String) : Option String :=
  if pfx = xmlPrefix then some xmlUri else target? declared pfx

/-- The first prefix in use that stands for a URI, the default namespace apart. -/
def prefixFor? (declared : List Binding) (uri : String) : Option String :=
  if uri = xmlUri then some xmlPrefix
  else ((inUse declared).find? fun binding => binding.pfx != "" && binding.uri == uri).map
    Binding.pfx

/-! ## Laws -/

variable (first second declared : List Binding)

/-- What is met later is in use only under prefixes that were not met before. -/
theorem inUse_append :
    inUse (first ++ second) =
      inUse first ++ (inUse second).filter (·.pfx ∉ first.map Binding.pfx) := by
  rw [inUse, firsts_append, List.filter_append, List.filter_comm]
  rfl

theorem inUse_cons (head : Binding) (tail : List Binding) :
    inUse (head :: tail) =
      head.target?.toList.map (Binding.mk head.pfx) ++
        (inUse tail).filter (·.pfx ≠ head.pfx) := by
  have hsplit := inUse_append [head] tail
  have hhead : inUse [head] = head.target?.toList.map (Binding.mk head.pfx) := by
    by_cases huri : head.uri = "" <;> simp [inUse, firsts_cons, Binding.target?, huri]
  rw [List.singleton_append, hhead] at hsplit
  simpa using hsplit

theorem target?_cons (head : Binding) (tail : List Binding) (pfx : String) :
    target? (head :: tail) pfx =
      if head.pfx = pfx then head.target? else target? tail pfx := by
  rw [target?, List.find?_cons]
  by_cases hpfx : head.pfx = pfx
  · rw [beq_iff_eq.mpr hpfx, if_pos hpfx, Option.bind_some]
  · rw [beq_eq_false_iff_ne.mpr hpfx, if_neg hpfx, target?]

/-- What is met first decides. -/
theorem target?_append_of_find? {own : Binding} {pfx : String}
    (hown : first.find? (·.pfx == pfx) = some own) :
    target? (first ++ second) pfx = own.target? := by
  rw [target?, List.find?_append, hown, Option.some_or, Option.bind_some]

/-- What is met later is asked where nothing is met first. -/
theorem target?_append_of_not_mem {pfx : String} (hsilent : pfx ∉ first.map Binding.pfx) :
    target? (first ++ second) pfx = target? second pfx := by
  have hnone : first.find? (·.pfx == pfx) = none := by
    rw [List.find?_eq_none]
    intro binding hbinding heq
    exact hsilent (List.mem_map.mpr ⟨binding, hbinding, beq_iff_eq.mp heq⟩)
  rw [target?, List.find?_append, hnone, Option.none_or, target?]

variable {first second} in
/-- What is in use of the declarations met first stays in use, in front of the rest. -/
theorem inUse_initial (hinitial : first <+: second) : inUse first <+: inUse second := by
  obtain ⟨rest, rfl⟩ := hinitial
  rw [inUse_append]
  exact List.prefix_append _ _

variable {first second} in
/-- The declarations met first give a prefix the URI that all of them give it, or none. -/
theorem target?_initial (hinitial : first <+: second) (pfx : String) :
    target? first pfx = target? second pfx ∨ target? first pfx = none := by
  obtain ⟨rest, rfl⟩ := hinitial
  cases hown : first.find? (·.pfx == pfx) with
  | none =>
      right
      rw [target?, hown, Option.bind_none]
  | some own =>
      left
      rw [target?_append_of_find? _ _ hown, target?, hown, Option.bind_some]

/-- Under each prefix there is in use what its first declaration gives it, and nothing else. -/
theorem filter_inUse (pfx : String) :
    (inUse declared).filter (·.pfx = pfx) =
      (target? declared pfx).toList.map (Binding.mk pfx) := by
  induction declared with
  | nil => rfl
  | cons head tail ih =>
      rw [inUse_cons, target?_cons, List.filter_append]
      by_cases hpfx : head.pfx = pfx
      · -- What the tail has under the prefix is taken out by the head.
        subst hpfx
        rw [if_pos rfl, List.filter_filter, List.filter_eq_self.mpr (by simp),
          List.filter_eq_nil_iff.mpr (by simp), List.append_nil]
      · have hhead : (head.target?.toList.map (Binding.mk head.pfx)).filter (·.pfx = pfx) = [] := by
          simp [hpfx]
        have htail : ((inUse tail).filter (·.pfx ≠ head.pfx)).filter (·.pfx = pfx) =
            (inUse tail).filter (·.pfx = pfx) := by
          rw [List.filter_filter]
          refine List.filter_congr fun binding _ => ?_
          by_cases hsame : binding.pfx = pfx <;> simp [hsame, Ne.symm hpfx]
        rw [if_neg hpfx, hhead, htail, ih, List.nil_append]

theorem mem_inUse_iff {pfx uri : String} :
    ⟨pfx, uri⟩ ∈ inUse declared ↔ target? declared pfx = some uri := by
  have hfilter : ⟨pfx, uri⟩ ∈ (inUse declared).filter (·.pfx = pfx) ↔
      ⟨pfx, uri⟩ ∈ inUse declared := by
    simp
  rw [← hfilter, filter_inUse]
  simp

/-- An axis has one binding of `xml`. -/
theorem filter_xml_axis :
    (axis declared).filter (·.pfx = xmlPrefix) =
      [⟨xmlPrefix, (target? declared xmlPrefix).getD xmlUri⟩] := by
  have hxml := filter_inUse declared xmlPrefix
  rw [axis, List.filter_append, hxml]
  cases htarget : target? declared xmlPrefix with
  | none =>
      have hnone : xmlPrefix ∉ (inUse declared).map Binding.pfx := by
        rw [htarget, Option.toList_none, List.map_nil, List.filter_eq_nil_iff] at hxml
        intro hmem
        obtain ⟨binding, hbinding, hpfx⟩ := List.mem_map.mp hmem
        exact hxml binding hbinding (decide_eq_true hpfx)
      rw [if_neg hnone]
      simp
  | some uri =>
      have hmem := List.mem_map_of_mem (f := Binding.pfx) ((mem_inUse_iff declared).mpr htarget)
      rw [if_pos hmem]
      simp

/-- Beside `xml` an axis is what is in use. -/
theorem filter_ne_xml_axis :
    (axis declared).filter (·.pfx ≠ xmlPrefix) =
      (inUse declared).filter (·.pfx ≠ xmlPrefix) := by
  rw [axis, List.filter_append]
  split <;> simp

/-- Where no prefix comes twice and each has a URI, all that is declared is in use. -/
theorem inUse_eq_self (hnodup : (declared.map Binding.pfx).Nodup)
    (huris : ∀ binding ∈ declared, binding.uri ≠ "") : inUse declared = declared := by
  rw [inUse, firsts_eq_self _ hnodup, List.filter_eq_self]
  exact fun binding hbinding => decide_eq_true (huris binding hbinding)

end Declared

namespace Host

/-- The prefix and the URI of each namespace node of a node, in the order of the axis. -/
def axisPairs (host : Host N) (node : N) : List Binding :=
  (host.namespaceAxis node).map NamespaceNode.binding

/-- Whether the namespaces of a node are those that a list of declarations gives. -/
structure ReadsOff (host : Host N) (node : N) (declared : List Binding) : Prop where
  axisPairs_eq : host.axisPairs node =
    if host.kind node = .element then Declared.axis declared else []
  lookupNamespaceUri_eq : ∀ pfx,
    host.lookupNamespaceUri node pfx = Declared.uriOf? declared (pfx.getD "")
  lookupPrefix_eq : ∀ uri,
    host.lookupPrefix node uri = if uri = "" then none else Declared.prefixFor? declared uri

/-- Whether two nodes, each in a host of its own, have the same namespaces. -/
structure ReadsAlike (first : Host M) (node : M) (second : Host N) (other : N) : Prop where
  axisPairs_eq : first.axisPairs node = second.axisPairs other
  lookupNamespaceUri_eq : ∀ pfx,
    first.lookupNamespaceUri node pfx = second.lookupNamespaceUri other pfx
  lookupPrefix_eq : ∀ uri, first.lookupPrefix node uri = second.lookupPrefix other uri

theorem ReadsOff.readsAlike {first : Host M} {second : Host N} {node : M} {other : N}
    {declared : List Binding} (hfirst : first.ReadsOff node declared)
    (hsecond : second.ReadsOff other declared) (hkind : first.kind node = second.kind other) :
    first.ReadsAlike node second other where
  axisPairs_eq := by rw [hfirst.axisPairs_eq, hsecond.axisPairs_eq, hkind]
  lookupNamespaceUri_eq pfx := by
    rw [hfirst.lookupNamespaceUri_eq, hsecond.lookupNamespaceUri_eq]
  lookupPrefix_eq uri := by rw [hfirst.lookupPrefix_eq, hsecond.lookupPrefix_eq]

variable (host : Host N)

theorem axisPairs_eq_axisBindings {element : N} (helement : host.kind element = .element) :
    host.axisPairs element = host.axisBindings element := by
  rw [axisPairs, host.namespaceAxis_eq_map helement, List.map_map]
  exact List.map_id _

theorem axisPairs_of_ne {node : N} (hother : host.kind node ≠ .element) :
    host.axisPairs node = [] := by
  rw [axisPairs, namespaceAxis, if_neg hother, List.map_nil]

/-- Every node reads its namespaces off the declarations on its chain. -/
theorem readsOff {node : N} {chain : List N} (hchain : ParentChain host.parent node chain) :
    host.ReadsOff node (host.declarationsAlong chain) where
  axisPairs_eq := by
    split
    next helement =>
      rw [host.axisPairs_eq_axisBindings helement, axisBindings_eq, bindingsInUse,
        host.scope_eq_firsts hchain]
      rfl
    next hother => exact host.axisPairs_of_ne hother
  lookupNamespaceUri_eq pfx := by
    rw [lookupNamespaceUri, host.find?_scope hchain]
    rfl
  lookupPrefix_eq uri := by
    by_cases hempty : uri = ""
    · rw [lookupPrefix, if_pos hempty, if_pos hempty]
    by_cases hxml : uri = xmlUri
    · rw [lookupPrefix, if_neg hempty, if_neg hempty, if_pos hxml, Declared.prefixFor?, if_pos hxml]
    · rw [host.lookupPrefix_of_ne hempty hxml, if_neg hempty, Declared.prefixFor?, if_neg hxml,
        host.scope_eq_firsts hchain, Declared.inUse, List.find?_filter]
      -- A binding that is sought has the URI that is asked for, so it is in use.
      congr 2
      funext binding
      rw [Bool.eq_iff_iff]
      by_cases huri : binding.uri = uri <;> simp [huri, hempty]

end Host

end XPathTree

import XPathTree.Forest.Host
import XPathTree.Host.Table
import XPathTree.ResultNode

/-! # Identity, equality and hashing

A host has an identity of its nodes, an equality that may be coarser, and a key that
they are hashed by. Where these cohere, so do those of namespace nodes and of the nodes
of a result. Equality of namespace nodes is coarser than identity only where that of
their parents is.
-/

namespace XPathTree

universe u v

variable {α : Type u} {κ : Type v}

/-- An identity, an equality that it is finer than, and a key that equal ones share. -/
structure Coherent (same equal : α → α → Bool) (hashKey : α → κ) : Prop where
  same_equivalence : Equivalence fun a b => same a b = true
  equal_equivalence : Equivalence fun a b => equal a b = true
  equal_of_same : ∀ {a b}, same a b = true → equal a b = true
  hashKey_eq : ∀ {a b}, equal a b = true → hashKey a = hashKey b

/-! ## Optional nodes -/

section BothOrNeither

variable {related : α → α → Bool}

theorem bothOrNeither_equivalence (hrelated : Equivalence fun a b => related a b = true) :
    Equivalence fun a b => bothOrNeither related a b = true where
  refl
    | none => rfl
    | some a => hrelated.refl a
  symm {a b} hab := by
    cases a <;> cases b <;> first | exact hab | exact hrelated.symm hab
  trans {a b c} hab hbc := by
    cases a <;> cases b <;> cases c <;>
      first | exact hab | exact hbc | exact hrelated.trans hab hbc | cases hab

theorem bothOrNeither_mono {other : α → α → Bool}
    (hother : ∀ {a b}, related a b = true → other a b = true) {a b : Option α}
    (hab : bothOrNeither related a b = true) : bothOrNeither other a b = true := by
  cases a <;> cases b <;> first | exact hab | exact hother hab

/-- Only two that are present can be told apart by one relation and not by another. -/
theorem bothOrNeither_and_not_iff {other : α → α → Bool} {a b : Option α} :
    bothOrNeither related a b = true ∧ bothOrNeither other a b = false ↔
      ∃ p q, a = some p ∧ b = some q ∧ related p q = true ∧ other p q = false := by
  cases a <;> cases b <;> simp [bothOrNeither]

end BothOrNeither

theorem Coherent.bothOrNeither {same equal : α → α → Bool} {hashKey : α → κ}
    (hcoherent : Coherent same equal hashKey) :
    Coherent (bothOrNeither same) (bothOrNeither equal) (Option.map hashKey) where
  same_equivalence := bothOrNeither_equivalence hcoherent.same_equivalence
  equal_equivalence := bothOrNeither_equivalence hcoherent.equal_equivalence
  equal_of_same := bothOrNeither_mono hcoherent.equal_of_same
  hashKey_eq {a b} hab := by
    cases a <;> cases b <;>
      first | rfl | cases hab | exact congrArg some (hcoherent.hashKey_eq hab)

namespace Host

/-- Whether the nodes of a host have a coherent identity, equality and key. -/
def Coheres {N : Type u} (host : Host N) : Prop := Coherent host.same host.equal host.hashKey

end Host

theorem Table.coheres (table : Table) : table.host.Coheres where
  same_equivalence := ⟨fun _ => by simp [host], by simp +contextual [host],
    by simp +contextual [host]⟩
  equal_equivalence := ⟨fun _ => by simp [host], by simp +contextual [host],
    by simp +contextual [host]⟩
  equal_of_same {a b} hab := by
    obtain rfl : a = b := by simpa [host] using hab
    simp [host]
  hashKey_eq {a b} hab := by
    have hkey : (table.row? a).map (·.key) = (table.row? b).map (·.key) := by
      simpa [host] using hab
    simp [host, hkey]

/-- The nodes of a forest are equal only to themselves. -/
theorem Forest.coheres (forest : Forest) : forest.host.Coheres where
  same_equivalence := ⟨fun _ => by simp [host], by simp +contextual [host],
    by simp +contextual [host]⟩
  equal_equivalence := ⟨fun _ => by simp [host], by simp +contextual [host],
    by simp +contextual [host]⟩
  equal_of_same hab := hab
  hashKey_eq {a b} hab := by
    obtain rfl : a = b := by simpa [host] using hab
    rfl

/-! ## Namespace nodes -/

variable {N : Type u}

namespace NamespaceNode

theorem agrees_iff {a b : NamespaceNode N} :
    a.agrees b = true ↔ a.pfx = b.pfx ∧ a.uri = b.uri := by
  simp [agrees]

theorem equal_iff {host : Host N} {a b : NamespaceNode N} :
    a.equal host b = true ↔
      bothOrNeither host.equal a.parent b.parent = true ∧ a.pfx = b.pfx ∧ a.uri = b.uri := by
  rw [equal, Bool.and_eq_true, agrees_iff]

theorem same_iff {host : Host N} {a b : NamespaceNode N} :
    a.same host b = true ↔
      bothOrNeither host.same a.parent b.parent = true ∧ a.pfx = b.pfx ∧ a.uri = b.uri := by
  rw [same, Bool.and_eq_true, agrees_iff]

theorem agrees_equivalence : Equivalence fun a b : NamespaceNode N => a.agrees b = true where
  refl _ := agrees_iff.mpr ⟨rfl, rfl⟩
  symm hab := agrees_iff.mpr ⟨(agrees_iff.mp hab).1.symm, (agrees_iff.mp hab).2.symm⟩
  trans hab hbc := agrees_iff.mpr
    ⟨(agrees_iff.mp hab).1.trans (agrees_iff.mp hbc).1,
      (agrees_iff.mp hab).2.trans (agrees_iff.mp hbc).2⟩

/-- Parents that are related and a binding that agrees: what makes namespace nodes equal,
and what makes them the same. -/
theorem equivalence_of_parent {related : Option N → Option N → Bool}
    (hrelated : Equivalence fun a b => related a b = true) :
    Equivalence fun a b : NamespaceNode N => (related a.parent b.parent && a.agrees b) = true where
  refl a := Bool.and_eq_true_iff.mpr ⟨hrelated.refl a.parent, agrees_equivalence.refl a⟩
  symm hab := by
    rw [Bool.and_eq_true] at hab ⊢
    exact ⟨hrelated.symm hab.1, agrees_equivalence.symm hab.2⟩
  trans hab hbc := by
    rw [Bool.and_eq_true] at hab hbc ⊢
    exact ⟨hrelated.trans hab.1 hbc.1, agrees_equivalence.trans hab.2 hbc.2⟩

/-- Of the parent a hash code holds no more than its key. -/
theorem hashCode_eq_of_parent (host : Host N) {a b : NamespaceNode N}
    (hparent : a.parent.map host.hashKey = b.parent.map host.hashKey)
    (hpfx : a.pfx = b.pfx) (huri : a.uri = b.uri) : a.hashCode host = b.hashCode host := by
  obtain ⟨p, pfx, uri⟩ := a
  obtain ⟨q, _, _⟩ := b
  obtain rfl : pfx = _ := hpfx
  obtain rfl : uri = _ := huri
  cases p <;> cases q <;> simp_all [hashCode]

theorem coherent {host : Host N} (hhost : host.Coheres) :
    Coherent (NamespaceNode.same host) (NamespaceNode.equal host) (hashCode host) where
  same_equivalence := equivalence_of_parent hhost.bothOrNeither.same_equivalence
  equal_equivalence := equivalence_of_parent hhost.bothOrNeither.equal_equivalence
  equal_of_same hab := by
    rw [equal_iff]
    rw [same_iff] at hab
    exact ⟨hhost.bothOrNeither.equal_of_same hab.1, hab.2⟩
  hashKey_eq hab := by
    obtain ⟨hparent, hpfx, huri⟩ := equal_iff.mp hab
    exact hashCode_eq_of_parent host (hhost.bothOrNeither.hashKey_eq hparent) hpfx huri

/-- Namespace nodes that are equal and not the same differ in their parents alone. -/
theorem equal_and_not_same_iff {host : Host N} {a b : NamespaceNode N} :
    a.equal host b = true ∧ a.same host b = false ↔
      a.pfx = b.pfx ∧ a.uri = b.uri ∧ ∃ p q, a.parent = some p ∧ b.parent = some q ∧
        host.equal p q = true ∧ host.same p q = false := by
  rw [equal_iff, ← bothOrNeither_and_not_iff, ← Bool.not_eq_true, same_iff, ← Bool.not_eq_true]
  constructor
  · rintro ⟨⟨hequal, hpfx, huri⟩, hnot⟩
    exact ⟨hpfx, huri, hequal, fun hsame => hnot ⟨hsame, hpfx, huri⟩⟩
  · rintro ⟨hpfx, huri, hequal, hnot⟩
    exact ⟨⟨hequal, hpfx, huri⟩, fun hsame => hnot hsame.1⟩

end NamespaceNode

/-! ## Nodes of a result -/

namespace ResultNode

/-- A relation on the nodes of a tree and one on namespace nodes, side by side. -/
theorem equivalence_of_variants {related : N → N → Bool}
    {between : NamespaceNode N → NamespaceNode N → Bool} {both : ResultNode N → ResultNode N → Bool}
    (hrelated : Equivalence fun a b => related a b = true)
    (hbetween : Equivalence fun a b => between a b = true)
    (hhosts : ∀ a b, both (.host a) (.host b) = related a b)
    (hnodes : ∀ a b, both (.namespaceNode a) (.namespaceNode b) = between a b)
    (hapart : ∀ a b, both (.host a) (.namespaceNode b) = false ∧
      both (.namespaceNode b) (.host a) = false) :
    Equivalence fun a b => both a b = true where
  refl
    | .host a => (hhosts a a).trans (hrelated.refl a)
    | .namespaceNode a => (hnodes a a).trans (hbetween.refl a)
  symm {a b} hab := by
    cases a <;> cases b <;> simp only [hhosts, hnodes, hapart, Bool.false_eq_true] at hab ⊢
    · exact hrelated.symm hab
    · exact hbetween.symm hab
  trans {a b c} hab hbc := by
    cases a <;> cases b <;> cases c <;>
      simp only [hhosts, hnodes, hapart, Bool.false_eq_true] at hab hbc ⊢
    · exact hrelated.trans hab hbc
    · exact hbetween.trans hab hbc

theorem coherent {host : Host N} (hhost : host.Coheres) :
    Coherent (ResultNode.same host) (ResultNode.equal host) (hashKey host) where
  same_equivalence := equivalence_of_variants hhost.same_equivalence
    (NamespaceNode.coherent hhost).same_equivalence
    (fun _ _ => rfl) (fun _ _ => rfl) fun _ _ => ⟨rfl, rfl⟩
  equal_equivalence := equivalence_of_variants hhost.equal_equivalence
    (NamespaceNode.coherent hhost).equal_equivalence
    (fun _ _ => rfl) (fun _ _ => rfl) fun _ _ => ⟨rfl, rfl⟩
  equal_of_same {a b} hab := by
    cases a <;> cases b
    case host.host => exact hhost.equal_of_same hab
    case namespaceNode.namespaceNode => exact (NamespaceNode.coherent hhost).equal_of_same hab
    all_goals cases hab
  hashKey_eq {a b} hab := by
    cases a <;> cases b
    case host.host => exact congrArg Sum.inl (hhost.hashKey_eq hab)
    case namespaceNode.namespaceNode =>
      exact congrArg Sum.inr ((NamespaceNode.coherent hhost).hashKey_eq hab)
    all_goals cases hab

end ResultNode

namespace Host

/-- How identity, equality and hashing of results go together over a host. -/
structure ResultsCohere (host : Host N) : Prop where
  namespaceNodes :
    Coherent (NamespaceNode.same host) (NamespaceNode.equal host) (NamespaceNode.hashCode host)
  results : Coherent (ResultNode.same host) (ResultNode.equal host) (ResultNode.hashKey host)
  /-- Equal namespace nodes agree, and hash to one number whatever single hashes are. -/
  agrees_of_equal : ∀ a b : NamespaceNode N, a.equal host b = true →
    a.agrees b = true ∧ ∀ hash, (a.hashCode host).eval hash = (b.hashCode host).eval hash
  apart : ∀ (node : N) (other : NamespaceNode N),
    (ResultNode.host node).equal host (.namespaceNode other) = false ∧
      (ResultNode.namespaceNode other).equal host (.host node) = false ∧
      (ResultNode.host node).same host (.namespaceNode other) = false ∧
      (ResultNode.namespaceNode other).same host (.host node) = false
  coarser_iff : ∀ a b : NamespaceNode N, a.equal host b = true ∧ a.same host b = false ↔
    a.pfx = b.pfx ∧ a.uri = b.uri ∧ ∃ p q, a.parent = some p ∧ b.parent = some q ∧
      host.equal p q = true ∧ host.same p q = false

variable {host : Host N}

theorem Coheres.resultsCohere (hhost : host.Coheres) : host.ResultsCohere where
  namespaceNodes := NamespaceNode.coherent hhost
  results := ResultNode.coherent hhost
  agrees_of_equal _ _ hab :=
    ⟨NamespaceNode.agrees_iff.mpr (NamespaceNode.equal_iff.mp hab).2, fun hash =>
      congrArg (HashCode.eval hash) ((NamespaceNode.coherent hhost).hashKey_eq hab)⟩
  apart _ _ := ⟨rfl, rfl, rfl, rfl⟩
  coarser_iff _ _ := NamespaceNode.equal_and_not_same_iff

/-- What coheres on the nodes of a host coheres on its results. Over a forest equality is
identity throughout. -/
theorem results_cohere (hhost : host.Coheres) :
    host.ResultsCohere ∧ ∀ forest : Forest, forest.host.ResultsCohere ∧
      (∀ a b : NamespaceNode NodeId, a.equal forest.host b = a.same forest.host b) ∧
      ∀ a b : ResultNode NodeId, a.equal forest.host b = a.same forest.host b := by
  refine ⟨hhost.resultsCohere, fun forest => ⟨forest.coheres.resultsCohere, fun _ _ => rfl, ?_⟩⟩
  intro a b
  cases a <;> cases b <;> rfl

end Host

/-- Two elements that share a key, and one that does not. -/
def sharingTable : Table where
  tellsNamespaces := false
  rows := [⟨.element, "r", none, none, none, none, [], 4⟩,
    ⟨.element, "r", none, none, none, none, [], 4⟩,
    ⟨.element, "r", none, none, none, none, [], 5⟩]

/-- Namespace nodes of elements that share a key are equal and hash alike, and are two. -/
theorem results_cohere_sharing :
    sharingTable.host.ResultsCohere ∧
      (let a : NamespaceNode Nat := ⟨some 0, "p", "urn:a"⟩
        let b : NamespaceNode Nat := ⟨some 1, "p", "urn:a"⟩
        let c : NamespaceNode Nat := ⟨some 2, "p", "urn:a"⟩
        a.equal sharingTable.host b = true ∧ a.same sharingTable.host b = false ∧
          a.hashCode sharingTable.host = b.hashCode sharingTable.host ∧
          a.equal sharingTable.host c = false) := by
  have hcohere := (Host.results_cohere sharingTable.coheres).1
  obtain ⟨hequal, hsame⟩ :=
    (hcohere.coarser_iff ⟨some 0, "p", "urn:a"⟩ ⟨some 1, "p", "urn:a"⟩).mpr
      ⟨rfl, rfl, 0, 1, rfl, rfl, by decide +kernel, by decide +kernel⟩
  exact ⟨hcohere, hequal, hsame, hcohere.namespaceNodes.hashKey_eq hequal, by decide +kernel⟩

end XPathTree

import XPathTree.Proofs.Inheritance

/-! # Nearest declarations

Asked for a prefix, a node goes outward to the first attribute that declares it. What this
one says is the answer, also when it takes the prefix out of use, and nothing further out is
asked. A node that is no element declares nothing, so it has the namespaces of the nearest
element above it.
-/

namespace XPathTree

universe u

variable {N : Type u}

namespace Host

variable (host : Host N)

/-- Whether an attribute declares a prefix, be it with an empty URI. -/
def declares (node : N) (pfx : String) : Bool :=
  host.isDeclaration node && declaredPrefix (host.nodeName node) == pfx

/-- Whether an attribute of an element on a chain is the first there to declare a prefix. -/
structure Nearest (chain : List N) (pfx : String) (above declaration : N) : Prop where
  element : host.kind above = .element
  declares : host.declares declaration pfx = true
  first_attribute : ∃ earlier later, host.attributes above = earlier ++ declaration :: later ∧
    ∀ other ∈ earlier, host.declares other pfx = false
  first_element : ∃ nearer outer, chain = nearer ++ above :: outer ∧
    ∀ other ∈ nearer, host.kind other = .element →
      ∀ inner ∈ host.attributes other, host.declares inner pfx = false

/-- What the two lookups answer at a node with a chain. -/
structure LooksUp (node : N) (chain : List N) : Prop where
  lookup_iff : ∀ (pfx : Option String) (uri : String), pfx.getD "" ≠ xmlPrefix →
    (host.lookupNamespaceUri node pfx = some uri ↔
      ∃ above declaration, host.Nearest chain (pfx.getD "") above declaration ∧
        host.nodeValue declaration = some uri ∧ uri ≠ "")
  /-- Where the nearest declaration has no value or an empty one, there is no answer. -/
  undeclared : ∀ (pfx : Option String) (above declaration : N), pfx.getD "" ≠ xmlPrefix →
    host.Nearest chain (pfx.getD "") above declaration →
      host.nodeValue declaration = none ∨ host.nodeValue declaration = some "" →
        host.lookupNamespaceUri node pfx = none
  reserved : host.lookupNamespaceUri node (some xmlPrefix) = some xmlUri ∧
    host.lookupPrefix node xmlUri = some xmlPrefix
  /-- What is no element answers as the nearest element above it. -/
  inherited : host.kind node ≠ .element → ∀ above, host.elementAbove? chain = some above →
    (∀ pfx, host.lookupNamespaceUri node pfx = host.lookupNamespaceUri above pfx) ∧
      ∀ uri, host.lookupPrefix node uri = host.lookupPrefix above uri
  /-- Without an element above only what is reserved is known. -/
  alone : host.kind node ≠ .element → host.elementAbove? chain = none →
    (∀ pfx, host.lookupNamespaceUri node pfx =
        if pfx.getD "" = xmlPrefix then some xmlUri else none) ∧
      ∀ uri, host.lookupPrefix node uri = if uri = xmlUri then some xmlPrefix else none

/-! ## The first attribute that declares a prefix -/

theorem find?_declarations (node : N) (pfx : String) :
    (host.declarations node).find? (·.pfx == pfx) =
      if host.kind node = .element then
        ((host.attributes node).find? (host.declares · pfx)).map host.binding
      else none := by
  unfold declarations
  split
  next =>
    rw [List.find?_map, List.find?_filter]
    refine congrArg (Option.map _) (congrArg (List.find? · _) (funext fun declaration => ?_))
    rw [Bool.eq_iff_iff]
    simp [declares, binding]
  next => rfl

theorem find?_declarations_eq_none_iff {node : N} {pfx : String} :
    (host.declarations node).find? (·.pfx == pfx) = none ↔
      (host.kind node = .element →
        ∀ inner ∈ host.attributes node, host.declares inner pfx = false) := by
  rw [find?_declarations]
  split
  next helement => simp [helement]
  next hother => simp [hother]

/-- The first declaration of a prefix along a chain is what its nearest attribute says. -/
theorem find?_declarationsAlong_eq_some_iff {chain : List N} {pfx : String} {declared : Binding} :
    (host.declarationsAlong chain).find? (·.pfx == pfx) = some declared ↔
      ∃ above declaration, host.Nearest chain pfx above declaration ∧
        host.binding declaration = declared := by
  rw [declarationsAlong, List.find?_flatMap, List.findSome?_eq_some_iff]
  constructor
  · rintro ⟨nearer, above, outer, hchain, hfound, hnearer⟩
    rw [find?_declarations] at hfound
    split at hfound
    next helement =>
      obtain ⟨declaration, hattribute, hbinding⟩ := Option.map_eq_some_iff.mp hfound
      obtain ⟨hdeclares, earlier, later, hattributes, hearlier⟩ :=
        List.find?_eq_some_iff_append.mp hattribute
      refine ⟨above, declaration, ⟨helement, hdeclares, ?_, nearer, outer, hchain, ?_⟩, hbinding⟩
      · exact ⟨earlier, later, hattributes, by simpa using hearlier⟩
      · exact fun other hother => host.find?_declarations_eq_none_iff.mp (hnearer other hother)
    next => cases hfound
  · rintro ⟨above, declaration, hnearest, rfl⟩
    obtain ⟨nearer, outer, hchain, hnearer⟩ := hnearest.first_element
    obtain ⟨earlier, later, hattributes, hearlier⟩ := hnearest.first_attribute
    refine ⟨nearer, above, outer, hchain, ?_, fun other hother =>
      host.find?_declarations_eq_none_iff.mpr (hnearer other hother)⟩
    have hfirst : (host.attributes above).find? (host.declares · pfx) = some declaration :=
      List.find?_eq_some_iff_append.mpr
        ⟨hnearest.declares, earlier, later, hattributes, by simpa using hearlier⟩
    rw [find?_declarations, if_pos hnearest.element, hfirst, Option.map_some]

/-! ## The lookups -/

variable {node : N} {chain : List N} (hchain : ParentChain host.parent node chain)

include hchain

theorem lookupNamespaceUri_eq_target? {pfx : Option String} (hne : pfx.getD "" ≠ xmlPrefix) :
    host.lookupNamespaceUri node pfx =
      ((host.declarationsAlong chain).find? (·.pfx == pfx.getD "")).bind Binding.target? := by
  rw [lookupNamespaceUri, if_neg hne, host.find?_scope hchain]

theorem lookupNamespaceUri_of_nearest {pfx : Option String} {above declaration : N}
    (hne : pfx.getD "" ≠ xmlPrefix)
    (hnearest : host.Nearest chain (pfx.getD "") above declaration) :
    host.lookupNamespaceUri node pfx = (host.binding declaration).target? := by
  have hfound := (host.find?_declarationsAlong_eq_some_iff).mpr ⟨above, declaration, hnearest, rfl⟩
  rw [host.lookupNamespaceUri_eq_target? hchain hne, hfound, Option.bind_some]

omit hchain in
/-- A declaration gives its prefix the value of the attribute, unless that is empty. -/
theorem target?_binding_eq_some_iff {declaration : N} {uri : String} :
    (host.binding declaration).target? = some uri ↔
      host.nodeValue declaration = some uri ∧ uri ≠ "" := by
  unfold Binding.target? binding
  cases host.nodeValue declaration with
  | none => simp
  | some value =>
      by_cases hvalue : value = ""
      · subst hvalue
        simp [eq_comm]
      · simp only [Option.getD_some, if_neg hvalue, Option.some.injEq]
        constructor
        · rintro rfl
          exact ⟨rfl, hvalue⟩
        · exact fun huri => huri.1

/-- A prefix stands for the URI that its nearest declaration gives it. -/
theorem target?_eq_some_iff_nearest {pfx uri : String} :
    host.target? node pfx = some uri ↔
      ∃ above declaration, host.Nearest chain pfx above declaration ∧
        host.nodeValue declaration = some uri ∧ uri ≠ "" := by
  rw [target?, host.find?_scope hchain, Option.bind_eq_some_iff]
  constructor
  · rintro ⟨declared, hfound, htarget⟩
    obtain ⟨above, declaration, hnearest, rfl⟩ :=
      host.find?_declarationsAlong_eq_some_iff.mp hfound
    exact ⟨above, declaration, hnearest, host.target?_binding_eq_some_iff.mp htarget⟩
  · rintro ⟨above, declaration, hnearest, hvalue⟩
    exact ⟨_, host.find?_declarationsAlong_eq_some_iff.mpr ⟨above, declaration, hnearest, rfl⟩,
      host.target?_binding_eq_some_iff.mpr hvalue⟩

/-- Whatever kind of node is asked, the nearest declaration answers. -/
theorem lookup_nearest : host.LooksUp node chain where
  lookup_iff := by
    intro pfx uri hne
    constructor
    · intro hlookup
      rw [host.lookupNamespaceUri_eq_target? hchain hne] at hlookup
      obtain ⟨declared, hfound, htarget⟩ := Option.bind_eq_some_iff.mp hlookup
      obtain ⟨above, declaration, hnearest, rfl⟩ :=
        host.find?_declarationsAlong_eq_some_iff.mp hfound
      exact ⟨above, declaration, hnearest, host.target?_binding_eq_some_iff.mp htarget⟩
    · rintro ⟨above, declaration, hnearest, hvalue⟩
      rw [host.lookupNamespaceUri_of_nearest hchain hne hnearest]
      exact host.target?_binding_eq_some_iff.mpr hvalue
  undeclared := by
    intro pfx above declaration hne hnearest hvalue
    rw [host.lookupNamespaceUri_of_nearest hchain hne hnearest, Binding.target?, if_pos]
    rcases hvalue with hvalue | hvalue <;> rw [binding, hvalue] <;> rfl
  reserved := ⟨host.lookupNamespaceUri_xml node, by simp [lookupPrefix, xmlUri]⟩
  inherited := by
    intro hother above habove
    rcases host.elementAbove?_cases hchain with ⟨hnone, _⟩ |
      ⟨nearest, outer, hnearest, _, houter, hsplit⟩
    · rw [hnone] at habove
      cases habove
    · obtain rfl : nearest = above := Option.some.inj (hnearest.symm.trans habove)
      rw [host.declarations_of_ne hother, List.nil_append] at hsplit
      have hreads := hsplit ▸ host.readsOff hchain
      have hreadsAbove := host.readsOff houter
      exact ⟨fun pfx => (hreads.lookupNamespaceUri_eq pfx).trans
          (hreadsAbove.lookupNamespaceUri_eq pfx).symm,
        fun uri => (hreads.lookupPrefix_eq uri).trans (hreadsAbove.lookupPrefix_eq uri).symm⟩
  alone := by
    intro hother hnone
    rcases host.elementAbove?_cases hchain with ⟨_, halone⟩ | ⟨above, _, habove, _⟩
    · rw [host.declarations_of_ne hother] at halone
      have hreads := halone ▸ host.readsOff hchain
      refine ⟨hreads.lookupNamespaceUri_eq, fun uri => (hreads.lookupPrefix_eq uri).trans ?_⟩
      by_cases hempty : uri = ""
      · subst hempty
        rfl
      · rw [if_neg hempty]
        rfl
    · rw [hnone] at habove
      cases habove

end Host

/-- At a text in an element the declaration that takes `c` out of use is the nearest of `c`,
and hides the one that the outer element has. -/
theorem lookup_nearest_hiding :
    ParentChain hidingTable.host.parent 8 [8, 5, 0] ∧
      hidingTable.host.LooksUp 8 [8, 5, 0] ∧
      hidingTable.host.Nearest [8, 5, 0] "c" 5 7 ∧
      hidingTable.host.lookupNamespaceUri 8 (some "c") = none ∧
      hidingTable.host.Nearest [8, 5, 0] "" 0 1 ∧
      hidingTable.host.lookupNamespaceUri 8 none = some "urn:x" ∧
      hidingTable.host.lookupPrefix 8 "urn:x" = hidingTable.host.lookupPrefix 5 "urn:x" := by
  have hchain : ParentChain hidingTable.host.parent 8 [8, 5, 0] :=
    .step rfl (.step rfl (.top rfl))
  have hlooksUp := hidingTable.host.lookup_nearest hchain
  have hinner : hidingTable.host.Nearest [8, 5, 0] "c" 5 7 :=
    { element := rfl
      declares := by decide +kernel
      first_attribute := ⟨[6], [], rfl, by decide +kernel⟩
      first_element := ⟨[8], [0], rfl, by decide +kernel⟩ }
  have houter : hidingTable.host.Nearest [8, 5, 0] "" 0 1 :=
    { element := rfl
      declares := by decide +kernel
      first_attribute := ⟨[], [2, 3, 4], rfl, by simp⟩
      first_element := ⟨[8, 5], [], rfl, by decide +kernel⟩ }
  have hempty : (some "c").getD "" ≠ xmlPrefix := by decide
  have hdefault : (none : Option String).getD "" ≠ xmlPrefix := by decide
  refine ⟨hchain, hlooksUp, hinner, ?_, houter, ?_, ?_⟩
  · exact hlooksUp.undeclared (some "c") 5 7 hempty hinner (Or.inr rfl)
  · exact (hlooksUp.lookup_iff none "urn:x" hdefault).mpr ⟨0, 1, houter, rfl, by decide⟩
  · exact (hlooksUp.inherited (by decide) 5 rfl).2 "urn:x"

end XPathTree

import XPathTree.Proofs.Declared
import XPathTree.Proofs.Forest.Declarations
import XPathTree.Proofs.Forest.Ways

/-! # Namespaces of reused nodes

What is handed to a builder has a new place, itself or as a copy, and its namespaces are
those of the new place: what was above it before has no part in them. The nodes that stay
where they were keep theirs, unless the node at the top of their tree is moved and takes
them all along.
-/

namespace XPathTree

open Forest

/-- What a build that makes `root` does to namespaces. -/
structure Builder.Rescopes (builder : Builder) (before : Forest) (root : NodeId)
    (after : Forest) : Prop where
  /-- Every node within a child that is handed over has a position there. -/
  positioned : ∀ child ∈ builder.children, ∀ inner ∈ before.idsWithin child,
    ∃ path : List Hop, (∀ hop ∈ path, hop.Descends) ∧
      Source.walk? before child path = some inner
  /-- The node in this position below the new one reads what is declared from there up to the
  child, and then what is declared on the new node, and nothing else. -/
  reused : ∀ (place : Nat) (child inner : NodeId) (path : List Hop),
    builder.children[place]? = some child → (∀ hop ∈ path, hop.Descends) →
      Source.walk? before child path = some inner →
        ∃ entry way, Source.walk? after root (.child place :: path) = some entry ∧
          after.contents? entry = before.contents? inner ∧
          Way before.parent? inner way child ∧
          after.host.ReadsOff entry
            (before.host.declarationsAlong way ++ after.host.declarations root)
  /-- It has the namespaces that it has wherever else the like is built, with a child of the
  same shape that may never have been put under any node. -/
  renewed : ∀ (fresh : Forest) (anew : Builder), fresh.Reachable →
    (∀ id ∈ anew.handed, id ∈ fresh.ids) →
      anew.container = builder.container →
        anew.attributes.map fresh.contents? = builder.attributes.map before.contents? →
          ∀ (place slot : Nat) (child new inner : NodeId) (path : List Hop),
            builder.children[place]? = some child → anew.children[slot]? = some new →
              fresh.contents? new = before.contents? child → (∀ hop ∈ path, hop.Descends) →
                Source.walk? before child path = some inner →
                  ∃ entry counterpart,
                    Source.walk? after root (.child place :: path) = some entry ∧
                    Source.walk? (anew.build fresh).2 (anew.build fresh).1
                      (.child slot :: path) = some counterpart ∧
                    after.host.ReadsAlike entry (anew.build fresh).2.host counterpart
  /-- Nothing changes for the nodes of a tree unless the node at the top was handed over and
  had never been put under any. -/
  kept : ∀ id ∈ before.ids, ∀ top, before.top? id = some top →
    ¬ (top ∈ builder.handed ∧ before.link? top = none) →
      ∀ inner ∈ before.idsWithin id, after.host.ReadsAlike inner before.host inner
  /-- If it was, what is declared on the new node comes after all that was in scope. -/
  taken : ∀ id ∈ before.ids, ∀ top, before.top? id = some top →
    top ∈ builder.handed ∧ before.link? top = none →
      ∀ inner ∈ before.idsWithin id, after.host.ReadsOff inner
        (before.host.declarationsAlong (before.host.ancestorsOrSelf inner) ++
          after.host.declarations root)

namespace Builder

variable {forest source : Forest} {id child inner top : NodeId} {chain : List NodeId}

/-! ## New places -/

/-- A node in some position below a child reads the declarations on the way up to the child
and those of the new node. The way may be read off any forest where the like of the child is. -/
theorem exists_reused (builder : Builder) (hforest : forest.WellFormed)
    (hhanded : ∀ id ∈ builder.handed, id ∈ forest.ids) (hsource : source.WellFormed)
    {place : Nat} (hplace : builder.children[place]? = some child)
    (hshape : forest.contents? child = source.contents? id) {path : List Hop}
    (hdown : ∀ hop ∈ path, hop.Descends) (hwalk : Source.walk? source id path = some inner) :
    ∃ entry way,
      Source.walk? (builder.build forest).2 forest.next (.child place :: path) = some entry ∧
        (builder.build forest).2.contents? entry = source.contents? inner ∧
        Way source.parent? inner way id ∧
        (builder.build forest).2.host.ReadsOff entry (source.host.declarationsAlong way ++
          (builder.build forest).2.host.declarations forest.next) := by
  have hafter := builder.wellFormed_build hforest
  obtain ⟨first, hfirst, hsame⟩ :=
    exists_getElem?_of_map_eq (builder.map_contents?_build_apart hforest hhanded).2 hplace
  obtain ⟨entry, way, passed, hentry, hcontents, hway, hpassed, hmap⟩ :=
    exists_walk?_of_contents? hsource hafter hdown (hsame.trans hshape) hwalk
  refine ⟨entry, way, Option.bind_eq_some_iff.mpr ⟨first, hfirst, hentry⟩, hcontents, hway, ?_⟩
  have hparent : (builder.build forest).2.parent? first = some forest.next :=
    hafter.parent?_eq_some_iff.mpr (List.mem_append_right _ (List.mem_of_getElem? hfirst))
  have hchain := hpassed.parentChain (.step hparent (.top (builder.parent?_build_self hforest)))
  have hreads := (builder.build forest).2.host.readsOff hchain
  rwa [Host.declarationsAlong_append, declarationsAlong_eq_of_map_contents? hsource hafter hmap,
    Host.declarationsAlong_singleton] at hreads

/-- What is declared on a new node is decided by its container and the shapes of what it was
handed as attributes. -/
theorem declarations_build_eq (builder anew : Builder) (hforest : forest.WellFormed)
    (hhanded : ∀ id ∈ builder.handed, id ∈ forest.ids) (hsource : source.WellFormed)
    (hanew : ∀ id ∈ anew.handed, id ∈ source.ids) (hcontainer : anew.container = builder.container)
    (hattributes : anew.attributes.map source.contents? =
      builder.attributes.map forest.contents?) :
    (anew.build source).2.host.declarations source.next =
      (builder.build forest).2.host.declarations forest.next := by
  have hsame := (anew.map_contents?_build_apart hsource hanew).1.trans
    (hattributes.trans (builder.map_contents?_build_apart hforest hhanded).1.symm)
  rw [declarations_eq, declarations_eq, anew.content?_build_self hsource,
    builder.content?_build_self hforest, hcontainer, map_content?_eq_of_map_contents? hsame]

/-! ## Old places -/

/-- A chain goes on to the new node if the node at its end is put there itself, and is the same
as before otherwise. -/
theorem parentChain_build (builder : Builder) (hforest : forest.WellFormed) (hid : id ∈ forest.ids)
    (hchain : ParentChain forest.parent? id chain) (htop : chain.getLast? = some top) :
    ParentChain (builder.build forest).2.parent? id
      (chain ++ if top ∈ builder.handed ∧ forest.link? top = none then [forest.next] else []) := by
  induction hchain with
  | @top node hnone =>
      obtain rfl : node = top := Option.some.inj htop
      have hparent := builder.parent?_build hforest hid
      split
      next hmoved =>
        rw [if_pos hmoved] at hparent
        exact .step hparent (.top (builder.parent?_build_self hforest))
      next hstays =>
        rw [if_neg hstays, hnone] at hparent
        exact .top hparent
  | @step node above rest habove hrest ih =>
      have hparent := builder.parent?_build hforest hid
      have hlinked : ¬ (node ∈ builder.handed ∧ forest.link? node = none) := by
        rintro ⟨_, hnone⟩
        rw [(parent?_iff_linked.mp habove).1] at hnone
        cases hnone
      rw [if_neg hlinked, habove] at hparent
      refine .step hparent (ih (forest.mem_ids_of_parent? habove) ?_)
      rw [← htop, hrest.eq_cons_tail, List.getLast?_cons_cons]

theorem readsOff_build (builder : Builder) (hforest : forest.WellFormed) (hid : id ∈ forest.ids)
    (hchain : ParentChain forest.parent? id chain) (htop : chain.getLast? = some top) :
    (builder.build forest).2.host.ReadsOff id (forest.host.declarationsAlong chain ++
      if top ∈ builder.handed ∧ forest.link? top = none then
        (builder.build forest).2.host.declarations forest.next
      else []) := by
  have hsame := (builder.grows_build hforest).keeps.declarationsAlong_eq hforest
    (builder.wellFormed_build hforest) hid hchain
  have hreads := (builder.build forest).2.host.readsOff
    (builder.parentChain_build hforest hid hchain htop)
  rw [Host.declarationsAlong_append, hsame] at hreads
  split
  next hmoved =>
    rwa [if_pos hmoved, Host.declarationsAlong_singleton] at hreads
  next hstays =>
    rwa [if_neg hstays] at hreads

end Builder

namespace Forest

variable {forest : Forest}

/-- The chain of a node within a tree ends at the top of that tree. -/
theorem WellFormed.exists_chain_of_mem_idsWithin (hforest : forest.WellFormed)
    {id inner top : NodeId} (hid : id ∈ forest.ids) (htop : forest.top? id = some top)
    (hinner : inner ∈ forest.idsWithin id) :
    ∃ chain, ParentChain forest.parent? inner chain ∧ chain.getLast? = some top := by
  obtain ⟨path, hdown, hwalk⟩ := hforest.exists_walk?_of_mem_idsWithin hid hinner
  obtain ⟨_, way, _, _, _, hway, _⟩ := exists_walk?_of_contents? hforest hforest hdown rfl hwalk
  obtain ⟨chain, hchain⟩ := hforest.exists_parentChain inner
  exact ⟨chain, hchain, by rw [← top?_eq hchain, hforest.top?_eq_of_way hway, htop]⟩

/-- Whatever is reused, its namespaces are those of its new place. -/
theorem Reachable.rescopes (hforest : forest.Reachable) (builder : Builder)
    (hhanded : ∀ id ∈ builder.attributes ++ builder.children, id ∈ forest.ids) :
    builder.Rescopes forest (builder.build forest).1 (builder.build forest).2 := by
  have hbefore := hforest.wellFormed
  have hkeeps := (builder.grows_build hbefore).keeps
  refine {
    positioned := ?positioned
    reused := ?reused
    renewed := ?renewed
    kept := ?kept
    taken := ?taken }
  case positioned =>
    intro child hchild inner hinner
    have hthere := hhanded child (List.mem_append_right _ hchild)
    exact hbefore.exists_walk?_of_mem_idsWithin hthere hinner
  case reused =>
    intro place child inner path hplace hdown hwalk
    exact builder.exists_reused hbefore hhanded hbefore hplace rfl hdown hwalk
  case renewed =>
    intro fresh anew hfresh hanew hcontainer hattributes place slot child new inner path hplace
      hslot hshape hdown hwalk
    obtain ⟨entry, way, hentry, hcontents, hway, hreads⟩ :=
      builder.exists_reused hbefore hhanded hbefore hplace rfl hdown hwalk
    obtain ⟨counterpart, again, hcounterpart, hcontents', hagain, hreads'⟩ :=
      anew.exists_reused hfresh.wellFormed hanew hbefore hslot hshape hdown hwalk
    -- Both ways are read off the forest before the build, where there is only one.
    obtain ⟨chain, hchain⟩ := hbefore.exists_parentChain child
    obtain rfl := hway.unique hagain hchain
    rw [builder.declarations_build_eq anew hbefore hhanded hfresh.wellFormed hanew hcontainer
      hattributes] at hreads'
    refine ⟨entry, counterpart, hentry, hcounterpart, hreads.readsAlike hreads' ?_⟩
    exact kind_eq_of_contents? (hcontents.trans hcontents'.symm)
  case kept =>
    intro id hid top htop hstays inner hinner
    obtain ⟨chain, hchain, hlast⟩ := hbefore.exists_chain_of_mem_idsWithin hid htop hinner
    have hthere := mem_ids_of_mem_idsWithin hinner
    have hreads := builder.readsOff_build hbefore hthere hchain hlast
    rw [if_neg hstays, List.append_nil] at hreads
    exact hreads.readsAlike (forest.host.readsOff hchain)
      (kind_eq_of_contents? (hkeeps.contents?_eq hthere))
  case taken =>
    intro id hid top htop hmoved inner hinner
    obtain ⟨chain, hchain, hlast⟩ := hbefore.exists_chain_of_mem_idsWithin hid htop hinner
    have hthere := mem_ids_of_mem_idsWithin hinner
    have hreads := builder.readsOff_build hbefore hthere hchain hlast
    rwa [if_pos hmoved, ← forest.host.ancestorsOrSelf_eq hchain] at hreads

end Forest

/-- An element that stands in another and is handed over together with that one, for an
element with a declaration. -/
def sharedForest : Forest :=
  let inner := ((Builder.mk (.ofElement "x") [] []).build Forest.empty).2
  let outer := ((Builder.mk (.ofElement "r") [] [0]).build inner).2
  (outer.sow (.ofDeclaration "p" "urn:p")).2

def sharingBuilder : Builder := ⟨.ofElement "q", [2], [0, 1]⟩

/-- A node that is copied may still get other namespaces, since a node that it stands in may be
moved by the same build. -/
theorem not_kept_of_copied :
    ¬ ∀ (forest : Forest) (builder : Builder), forest.Reachable →
      (∀ id ∈ builder.handed, id ∈ forest.ids) →
        ∀ id ∈ builder.children, forest.link? id ≠ none →
          ∀ inner ∈ forest.idsWithin id,
            (builder.build forest).2.host.axisPairs inner = forest.host.axisPairs inner := by
  intro hkept
  have hreachable : sharedForest.Reachable :=
    ((Reachable.empty.build _).build _).sow _
  have hsame := hkept sharedForest sharingBuilder hreachable (by decide +kernel) 0
    (by decide +kernel) (by decide +kernel) 0 (by decide +kernel)
  have hbefore : sharedForest.host.axisPairs 0 = [⟨xmlPrefix, xmlUri⟩] := by decide +kernel
  have hafter : (sharingBuilder.build sharedForest).2.host.axisPairs 0 =
      [⟨"p", "urn:p"⟩, ⟨xmlPrefix, xmlUri⟩] := by
    decide +kernel
  rw [hbefore, hafter] at hsame
  exact absurd hsame (by decide)

/-- An element in an element in a third. The inner one declares nothing, the middle one `b`,
the outer one `a`, and there is a declaration of `c` for a fourth. -/
def formerForest : Forest :=
  let sown := (Forest.empty.sow (.ofDeclaration "b" "urn:b")).2
  let inner := ((Builder.mk (.ofElement "y") [] []).build sown).2
  let middle := ((Builder.mk (.ofElement "x") [0] [1]).build inner).2
  let outer := (middle.sow (.ofDeclaration "a" "urn:a")).2
  let outer := ((Builder.mk (.ofElement "former") [3] [2]).build outer).2
  (outer.sow (.ofDeclaration "c" "urn:c")).2

def formerBuilder : Builder := ⟨.ofElement "q", [5], [2]⟩

theorem rescopes_former :
    formerForest.Reachable ∧ (∀ id ∈ formerBuilder.handed, id ∈ formerForest.ids) ∧
      formerBuilder.Rescopes formerForest 6 (formerBuilder.build formerForest).2 ∧
      formerForest.host.axisPairs 1 =
        [⟨"b", "urn:b"⟩, ⟨"a", "urn:a"⟩, ⟨xmlPrefix, xmlUri⟩] ∧
      Source.walk? (formerBuilder.build formerForest).2 6 [.child 0, .child 0] = some 9 ∧
      (formerBuilder.build formerForest).2.host.axisPairs 9 =
        [⟨"b", "urn:b"⟩, ⟨"c", "urn:c"⟩, ⟨xmlPrefix, xmlUri⟩] ∧
      (formerBuilder.build formerForest).2.host.axisPairs 1 =
        [⟨"b", "urn:b"⟩, ⟨"a", "urn:a"⟩, ⟨xmlPrefix, xmlUri⟩] := by
  have hreachable : formerForest.Reachable :=
    (((((Reachable.empty.sow _).build _).build _).sow _).build _).sow _
  have hhanded : ∀ id ∈ formerBuilder.handed, id ∈ formerForest.ids := by decide +kernel
  refine ⟨hreachable, hhanded, hreachable.rescopes formerBuilder hhanded, ?_⟩
  decide +kernel

end XPathTree

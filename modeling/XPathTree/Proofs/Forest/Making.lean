import XPathTree.Proofs.Declaration
import XPathTree.Proofs.Forest.Origin
import XPathTree.Proofs.StringValue

/-! # Kinds of made nodes

Nodes are made by a few calls only, and documents and elements by builders that take nothing
but attributes as attributes. A content could have any name and any value with any kind, but
each call gives its kind the ones that suit it. So what a node has and has not is decided by
its kind, and its name is the one that was given when it was made, also if it is the copy of
a copy.
-/

namespace XPathTree

/-- The calls that make a node with nothing below it. -/
inductive Leaf
  | attribute (written value : String)
  | placedAttribute (localPart uri value : String)
  | declaration (pfx uri : String)
  | text (value : String)
  | comment (value : String)
  | instruction (target data : String)
deriving DecidableEq, Repr

/-- The calls that begin a node for which others can be handed over. -/
inductive Opening
  | document
  | element (written : String)
deriving DecidableEq, Repr

def Leaf.content : Leaf → Content
  | .attribute written value => .ofAttribute written value
  | .placedAttribute localPart uri value => .ofPlacedAttribute localPart uri value
  | .declaration pfx uri => .ofDeclaration pfx uri
  | .text value => .text value
  | .comment value => .comment value
  | .instruction target data => .ofInstruction target data

def Opening.container : Opening → Container
  | .document => .document
  | .element written => .ofElement written

/-- Whether name and value are there as it suits the kind. -/
structure Content.Suits (content : Content) : Prop where
  kind_ne : content.kind ≠ .namespaceNode
  name?_iff : content.name?.isSome ↔
    content.kind = .element ∨ content.kind = .attribute ∨ content.kind = .instruction
  value?_iff : content.value?.isSome ↔ content.kind ≠ .element ∧ content.kind ≠ .document

/-- A name is written as it is, and without one it is written what the kind is. -/
theorem Content.Suits.nodeName_eq {content : Content} (hsuits : content.Suits) :
    (∀ name, content.name? = some name → content.nodeName = name.toString) ∧
      (content.name? = none → content.nodeName ∈ ["#document", "#text", "#comment"]) := by
  obtain ⟨kind, name?, value?⟩ := content
  obtain ⟨hkind, hname, _⟩ := hsuits
  cases name? with
  | none => cases kind <;> simp_all [nodeName]
  | some name => cases kind <;> simp_all [nodeName]

/-- A call that makes a node. -/
inductive Making
  | leaf (call : Leaf)
  | opening (call : Opening)
deriving DecidableEq, Repr

namespace Making

def content : Making → Content
  | .leaf call => call.content
  | .opening call => call.container.content

/-- The name that is given in the call. A declaration is given its prefix, which is written
into its name. -/
def given? : Making → Option String
  | .leaf (.attribute written _) => some written
  | .leaf (.placedAttribute localPart _ _) => some localPart
  | .leaf (.declaration pfx _) => some (declarationName pfx)
  | .leaf (.instruction target _) => some target
  | .leaf (.text _) | .leaf (.comment _) | .opening .document => none
  | .opening (.element written) => some written

/-- The shapes of nodes that are made by a call: nothing is below a leaf, and nothing but
attributes are the attributes of a document or element. -/
def Forms : Making → Tree Content → Prop
  | .leaf call, shape => shape = ⟨call.content, .nil, .nil⟩
  | .opening call, shape => shape.root = call.container.content ∧
      ∀ content ∈ shape.attributes.roots, content.kind = .attribute

variable {making : Making} {shape : Tree Content}

theorem Forms.root_eq (hforms : making.Forms shape) : shape.root = making.content := by
  cases making with
  | leaf call =>
      obtain rfl := hforms
      rfl
  | opening call => exact hforms.1

/-- Every call gives a name and a value that suit the kind. -/
theorem suits_content (making : Making) : making.content.Suits := by
  rcases making with (written | localPart | ⟨pfx, uri⟩ | value | value | target) | (_ | written)
  case leaf.declaration =>
    have hcontent : (leaf (.declaration pfx uri)).content =
        .ofAttribute (declarationName pfx) uri := Content.ofDeclaration_eq pfx uri
    rw [hcontent]
    exact ⟨nofun, by simp [Content.ofAttribute], by simp [Content.ofAttribute]⟩
  all_goals
    refine ⟨nofun, ?_, ?_⟩ <;>
      simp [content, Leaf.content, Opening.container, Content.ofAttribute,
        Content.ofPlacedAttribute, Content.text, Content.comment, Content.ofInstruction,
        Container.content, Container.document, Container.ofElement]

/-- A name that was split when it was given is written as it was. -/
theorem nodeName_content {name : String} (hname : making.given? = some name) :
    making.content.nodeName = name := by
  -- A name that is taken whole has no prefix, and all others are split at their first colon.
  rcases making with (_ | _ | ⟨pfx, uri⟩ | _ | _ | _) | (_ | _) <;> cases hname
  · exact Content.nodeName_ofAttribute _ _
  · rfl
  · rw [content, Leaf.content, Content.ofDeclaration_eq]
    exact Content.nodeName_ofAttribute _ _
  · exact QName.toString_parse _ _
  · exact QName.toString_parse _ _

/-- Only attributes are placed in a namespace. -/
theorem namespaceUri?_content (hkind : making.content.kind ≠ .attribute) :
    making.content.namespaceUri? = none := by
  rcases making with (_ | _ | ⟨pfx, uri⟩ | _ | _ | _) | (_ | _)
  · exact absurd rfl hkind
  · exact absurd rfl hkind
  · rw [content, Leaf.content, Content.ofDeclaration_eq] at hkind
    exact absurd rfl hkind
  · rfl
  · rfl
  · exact QName.uri_parse _ _
  · rfl
  · exact QName.uri_parse _ _

/-- What is begun for others is a document or an element. -/
theorem bears_of_opening {call : Opening} (hroot : shape.root = call.container.content) :
    shape.Bears := by
  intro helement hdocument
  rw [hroot] at helement hdocument
  cases call with
  | document => exact absurd rfl hdocument
  | element written => exact absurd rfl helement

end Making

/-- What a builder has become by calls that it passed, with nodes that are there. -/
structure Opening.Called (call : Opening) (forest : Forest) (builder : Builder) : Prop where
  passed : ∃ calls, (Builder.ofContainer call.container).callAll forest calls = .ok builder
  handed : ∀ id ∈ builder.handed, id ∈ forest.ids

theorem Opening.Called.container_eq {call : Opening} {forest : Forest} {builder : Builder}
    (hbuilder : call.Called forest builder) : builder.container = call.container := by
  obtain ⟨calls, hcalls⟩ := hbuilder.passed
  obtain ⟨_, rfl⟩ := Builder.callAll_eq_ok_iff.mp hcalls
  rfl

theorem Opening.Called.isAttribute {call : Opening} {forest : Forest} {builder : Builder}
    (hbuilder : call.Called forest builder) : ∀ id ∈ builder.attributes, forest.IsAttribute id := by
  obtain ⟨calls, hcalls⟩ := hbuilder.passed
  obtain ⟨hall, rfl⟩ := Builder.callAll_eq_ok_iff.mp hcalls
  exact hall

namespace Forest

variable {forest before after : Forest} {id : NodeId} {making : Making} {builder : Builder}
  {shape : Tree Content}

/-- The forests that come about from nothing by the calls, whether or not it is checked what
is handed over as an attribute. -/
inductive Composed : Forest → Prop
  | empty : Composed Forest.empty
  | leaf {forest : Forest} (hforest : Composed forest) (call : Leaf) :
      Composed (forest.sow call.content).2
  | opening {forest : Forest} (hforest : Composed forest) (call : Opening)
      (attributes children : List NodeId) (hhanded : ∀ id ∈ attributes ++ children, id ∈ forest.ids) :
      Composed ((Builder.mk call.container attributes children).build forest).2
  | retain {forest : Forest} (hforest : Composed forest) (held : List NodeId) :
      Composed (forest.retain held)

/-- What can be done to a forest where it is checked: making a leaf, finishing a document or
element, and letting go. -/
inductive Step (before : Forest) : Forest → Prop
  | leaf (call : Leaf) : Step before (before.sow call.content).2
  | opening (call : Opening) {builder : Builder} (hbuilder : call.Called before builder) :
      Step before (builder.build before).2
  | retain (held : List NodeId) : Step before (before.retain held)

/-- The forests that the calls lead to from nothing, with the check. -/
inductive Made : Forest → Prop
  | empty : Made Forest.empty
  | step {before after : Forest} (hbefore : Made before) (hstep : Step before after) : Made after

/-- The call that a node goes back to: the one that made it, or that made the node of which it
is a copy, or that of which this one is. -/
inductive Stems : Forest → NodeId → Making → Prop
  | leaf {before : Forest} (hbefore : before.Made) (call : Leaf) :
      Stems (before.sow call.content).2 (before.sow call.content).1 (.leaf call)
  | opening {before : Forest} (hbefore : before.Made) (call : Opening) {builder : Builder}
      (hbuilder : call.Called before builder) :
      Stems (builder.build before).2 (builder.build before).1 (.opening call)
  | kept {before after : Forest} {id : NodeId} {making : Making} (hbefore : before.Made)
      (hid : Stems before id making) (hstep : Step before after) (hleft : id ∈ after.ids) :
      Stems after id making
  | copied {before : Forest} {source copy : NodeId} {making : Making} (hbefore : before.Made)
      (hsource : Stems before source making) {call : Opening} {builder : Builder}
      (hbuilder : call.Called before builder) (hcopy : builder.Copies before source copy) :
      Stems (builder.build before).2 copy making

/-- What the kinds of its nodes say in a forest. -/
structure KindDiscipline (forest : Forest) : Prop where
  kind_ne : ∀ id ∈ forest.ids, forest.host.kind id ≠ .namespaceNode
  kind_attributes : ∀ id ∈ forest.ids, ∀ inner ∈ forest.host.attributes id,
    forest.host.kind inner = .attribute
  kind_of_below : ∀ id ∈ forest.ids,
    forest.host.attributes id ≠ [] ∨ forest.children id ≠ [] →
      forest.host.kind id = .element ∨ forest.host.kind id = .document
  nodeValue_iff : ∀ id ∈ forest.ids, (forest.host.nodeValue id).isSome ↔
    forest.host.kind id ≠ .element ∧ forest.host.kind id ≠ .document
  name?_iff : ∀ id ∈ forest.ids, (Source.name? forest id).isSome ↔
    forest.host.kind id = .element ∨ forest.host.kind id = .attribute ∨
      forest.host.kind id = .instruction
  nodeName_of_name : ∀ id ∈ forest.ids, ∀ name, Source.name? forest id = some name →
    forest.host.nodeName id = name.toString
  nodeName_of_none : ∀ id ∈ forest.ids, Source.name? forest id = none →
    forest.host.nodeName id ∈ ["#document", "#text", "#comment"]
  kind_of_namespaceUri : ∀ id ∈ forest.ids, (forest.host.namespaceUri id).isSome →
    forest.host.kind id = .attribute
  /-- Every node goes back to a call. -/
  stems : ∀ id ∈ forest.ids, ∃ making, forest.Stems id making
  /-- A node that goes back to a call with a name is called by this name, whatever it is. -/
  nodeName_eq : ∀ id making name, forest.Stems id making → making.given? = some name →
    forest.host.nodeName id = name

/-! ## Steps -/

/-- A builder is brought about by handing over its attributes and then its children. -/
theorem called_of_isAttribute (call : Opening) (attributes children : List NodeId)
    (hattributes : ∀ id ∈ attributes, forest.IsAttribute id)
    (hhanded : ∀ id ∈ attributes ++ children, id ∈ forest.ids) :
    call.Called forest ⟨call.container, attributes, children⟩ where
  passed := by
    refine ⟨[.addAttributes attributes, .addChildren children], ?_⟩
    apply Builder.callAll_eq_ok_iff.mpr
    simpa [Builder.ofContainer, Builder.Call.toAttributes, Builder.Call.toChildren] using
      hattributes
  handed := hhanded

theorem Composed.reachable (hforest : forest.Composed) : forest.Reachable := by
  induction hforest with
  | empty => exact .empty
  | leaf _ call ih => exact ih.sow call.content
  | opening _ call attributes children _ ih => exact ih.build _
  | retain _ held ih => exact ih.retain held

theorem Composed.wellFormed (hforest : forest.Composed) : forest.WellFormed :=
  hforest.reachable.wellFormed

theorem Step.composed (hbefore : before.Composed) (hstep : Step before after) :
    after.Composed := by
  cases hstep with
  | leaf call => exact hbefore.leaf call
  | @opening call builder hbuilder =>
      obtain ⟨container, attributes, children⟩ := builder
      obtain rfl := hbuilder.container_eq
      exact hbefore.opening call attributes children hbuilder.handed
  | retain held => exact hbefore.retain held

theorem Made.composed (hforest : forest.Made) : forest.Composed := by
  induction hforest with
  | empty => exact .empty
  | step _ hstep ih => exact hstep.composed ih

theorem Made.wellFormed (hforest : forest.Made) : forest.WellFormed := hforest.composed.wellFormed

/-- A step changes no shape. -/
theorem Step.contents?_eq (hbefore : before.WellFormed) (hstep : Step before after)
    (hid : id ∈ before.ids) (hleft : id ∈ after.ids) :
    after.contents? id = before.contents? id := by
  cases hstep with
  | leaf call => exact (grows_sow before call.content).keeps.contents?_eq hid
  | opening call hbuilder => exact (Builder.grows_build _ hbefore).keeps.contents?_eq hid
  | retain held => exact ((hbefore.keeps_retain held).contents?_eq hleft).symm

/-- What is there after a step was there before, or it is made by the step, itself or as a
copy. -/
theorem Made.exists_stems_step (hbefore : before.Made)
    (hstems : ∀ id ∈ before.ids, ∃ making, before.Stems id making) (hstep : Step before after)
    (hid : id ∈ after.ids) : ∃ making, after.Stems id making := by
  by_cases hold : id ∈ before.ids
  · obtain ⟨making, hmaking⟩ := hstems id hold
    exact ⟨making, .kept hbefore hmaking hstep hid⟩
  -- What was not there is the one new node of the step, or else a copy within it.
  cases hstep with
  | leaf call =>
      rw [sow_eq_copy, ids_copy] at hid
      rcases List.mem_append.mp hid with hthere | hnew
      · exact absurd hthere hold
      · obtain rfl := List.mem_singleton.mp hnew
        exact ⟨_, .leaf hbefore call⟩
  | @opening call builder hbuilder =>
      rcases builder.exists_origin hbefore.wellFormed hbuilder.handed hid with
        hthere | rfl | ⟨source, hsource, hcopy⟩
      · exact absurd hthere hold
      · exact ⟨_, .opening hbefore call hbuilder⟩
      · obtain ⟨making, hmaking⟩ := hstems source hsource
        exact ⟨making, .copied hbefore hmaking hbuilder hcopy⟩
  | retain held => exact absurd ((before.ids_retain_sublist held).subset hid) hold

theorem Made.exists_stems (hforest : forest.Made) :
    ∀ id ∈ forest.ids, ∃ making, forest.Stems id making := by
  induction hforest with
  | empty => simp [ids, Forest.empty]
  | step hbefore hstep ih => exact fun id => hbefore.exists_stems_step ih hstep

/-! ## Shapes -/

theorem forms_build {call : Opening} (hforest : forest.WellFormed)
    (hbuilder : call.Called forest builder) :
    ∃ shape, (builder.build forest).2.contents? (builder.build forest).1 = some shape ∧
      (Making.opening call).Forms shape := by
  obtain ⟨shape, hshape, hroot, hattributes, _⟩ :=
    builder.contents?_build hforest hbuilder.handed
  refine ⟨shape, hshape, by rw [hroot, hbuilder.container_eq], ?_⟩
  intro content hcontent
  obtain ⟨tree, htree, rfl⟩ := List.mem_map.mp hcontent
  obtain ⟨id, hid, hcontents⟩ := List.mem_map.mp (hattributes ▸ List.mem_map_of_mem htree)
  have hkind := hbuilder.isAttribute id hid
  rw [IsAttribute, content?_of_contents? hcontents] at hkind
  exact Option.some.inj hkind

/-- Steps and copies leave the shapes as they are, so a node has the shape of one that was made
by the call it goes back to. -/
theorem Stems.exists_forms (hstems : forest.Stems id making) :
    ∃ shape, forest.contents? id = some shape ∧ making.Forms shape := by
  induction hstems with
  | leaf hbefore call => exact ⟨_, contents?_sow hbefore.wellFormed call.content, rfl⟩
  | opening hbefore call hbuilder => exact forms_build hbefore.wellFormed hbuilder
  | kept hbefore _ hstep hleft ih =>
      obtain ⟨shape, hshape, hforms⟩ := ih
      have hsame := hstep.contents?_eq hbefore.wellFormed (mem_ids_of_contents? hshape) hleft
      exact ⟨shape, hsame.trans hshape, hforms⟩
  | copied hbefore _ hbuilder hcopy ih =>
      obtain ⟨shape, hshape, hforms⟩ := ih
      have hsame := hcopy.contents?_eq hbefore.wellFormed hbuilder.handed
      exact ⟨shape, hsame.trans hshape, hforms⟩

theorem Made.exists_forms (hforest : forest.Made) (hid : id ∈ forest.ids) :
    ∃ (making : Making) (shape : Tree Content), forest.contents? id = some shape ∧
      making.Forms shape := by
  obtain ⟨making, hstems⟩ := hforest.exists_stems id hid
  exact ⟨making, hstems.exists_forms⟩

/-- What is listed under a node has the contents that the shape of the node lists. -/
theorem WellFormed.exists_root_of_mem_attributes (hforest : forest.WellFormed)
    (hshape : forest.contents? id = some shape) {inner : NodeId}
    (hinner : inner ∈ forest.attributes id) :
    ∃ content ∈ shape.attributes.roots, forest.host.kind inner = content.kind := by
  have hmem := List.mem_map_of_mem (f := forest.contents?) hinner
  rw [(hforest.map_contents?_below hshape).1] at hmem
  obtain ⟨tree, htree, hcontents⟩ := List.mem_map.mp hmem
  exact ⟨tree.root, List.mem_map_of_mem htree, kind_of_contents? hcontents.symm⟩

/-- Where a shape lists nothing, nothing is listed. -/
theorem WellFormed.below_eq_nil (hforest : forest.WellFormed)
    (hshape : forest.contents? id = some shape) (hattributes : shape.attributes = .nil)
    (hchildren : shape.children = .nil) : forest.attributes id = [] ∧ forest.children id = [] := by
  have hlisted := hforest.map_contents?_below hshape
  rw [hattributes, hchildren] at hlisted
  exact ⟨List.map_eq_nil_iff.mp hlisted.1, List.map_eq_nil_iff.mp hlisted.2⟩

/-- What a node holds suits its kind, and only documents and elements have anything below. -/
structure SuitedAt (forest : Forest) (id : NodeId) (shape : Tree Content) : Prop where
  contents?_eq : forest.contents? id = some shape
  suits : shape.root.Suits
  bears : shape.Bears

/-- Every call makes a node that is suited, and a copy has the shape of one. -/
theorem Composed.exists_suitedAt (hforest : forest.Composed) (hid : id ∈ forest.ids) :
    ∃ shape, forest.SuitedAt id shape := by
  induction hforest generalizing id with
  | empty => cases hid
  | @leaf before hbefore call ih =>
      rw [sow_eq_copy, ids_copy] at hid
      rcases List.mem_append.mp hid with hold | hnew
      · obtain ⟨shape, hshape, hsuits, hbears⟩ := ih hold
        have hsame := (grows_sow before call.content).keeps.contents?_eq hold
        exact ⟨shape, hsame.trans hshape, hsuits, hbears⟩
      · obtain rfl := List.mem_singleton.mp hnew
        exact ⟨_, contents?_sow hbefore.wellFormed call.content,
          (Making.leaf call).suits_content, fun _ _ => ⟨rfl, rfl⟩⟩
  | @opening before hbefore call attributes children hhanded ih =>
      let builder := Builder.mk call.container attributes children
      rcases builder.exists_origin hbefore.wellFormed hhanded hid with
        hold | rfl | ⟨source, hsource, hcopy⟩
      · obtain ⟨shape, hshape, hsuits, hbears⟩ := ih hold
        have hsame := (builder.grows_build hbefore.wellFormed).keeps.contents?_eq hold
        exact ⟨shape, hsame.trans hshape, hsuits, hbears⟩
      · obtain ⟨shape, hshape, hroot, _⟩ := builder.contents?_build hbefore.wellFormed hhanded
        exact ⟨shape, hshape, hroot ▸ (Making.opening call).suits_content,
          Making.bears_of_opening hroot⟩
      · obtain ⟨shape, hshape, hsuits, hbears⟩ := ih hsource
        have hsame := hcopy.contents?_eq hbefore.wellFormed hhanded
        exact ⟨shape, hsame.trans hshape, hsuits, hbears⟩
  | @retain before hbefore held ih =>
      have hthere := (before.ids_retain_sublist held).subset hid
      obtain ⟨shape, hshape, hsuits, hbears⟩ := ih hthere
      have hsame := (hbefore.wellFormed.keeps_retain held).contents?_eq hid
      exact ⟨shape, hsame.symm.trans hshape, hsuits, hbears⟩

/-- The kind of a node decides what it has, and it is called by the name it was given. -/
theorem Made.kindDiscipline (hforest : forest.Made) : forest.KindDiscipline := by
  have hwell := hforest.wellFormed
  refine {
    kind_ne := ?kind_ne
    kind_attributes := ?kind_attributes
    kind_of_below := ?kind_of_below
    nodeValue_iff := ?nodeValue_iff
    name?_iff := ?name?_iff
    nodeName_of_name := ?nodeName_of_name
    nodeName_of_none := ?nodeName_of_none
    kind_of_namespaceUri := ?kind_of_namespaceUri
    stems := hforest.exists_stems
    nodeName_eq := ?nodeName_eq }
  case kind_ne =>
    intro id hid
    obtain ⟨shape, hshape, hsuits, _⟩ := hforest.composed.exists_suitedAt hid
    rw [kind_of_contents? hshape]
    exact hsuits.kind_ne
  case kind_attributes =>
    intro id hid inner hinner
    -- A leaf lists no attributes, and a builder was handed nothing else for them.
    obtain ⟨making, shape, hshape, hforms⟩ := hforest.exists_forms hid
    obtain ⟨content, hcontent, hkind⟩ := hwell.exists_root_of_mem_attributes hshape hinner
    rw [hkind]
    cases making with
    | leaf call =>
        obtain rfl := hforms
        cases hcontent
    | opening call => exact hforms.2 content hcontent
  case kind_of_below =>
    intro id hid hbelow
    obtain ⟨shape, hshape, _, hbears⟩ := hforest.composed.exists_suitedAt hid
    rw [kind_of_contents? hshape]
    by_contra hkind
    obtain ⟨helement, hdocument⟩ := not_or.mp hkind
    obtain ⟨hattributes, hchildren⟩ := hbears helement hdocument
    obtain ⟨hattributeIds, hchildIds⟩ := hwell.below_eq_nil hshape hattributes hchildren
    rcases hbelow with hattribute | hchild
    · exact hattribute hattributeIds
    · exact hchild hchildIds
  case nodeValue_iff =>
    intro id hid
    obtain ⟨shape, hshape, hsuits, _⟩ := hforest.composed.exists_suitedAt hid
    rw [nodeValue_of_contents? hshape, kind_of_contents? hshape]
    exact hsuits.value?_iff
  case name?_iff =>
    intro id hid
    obtain ⟨shape, hshape, hsuits, _⟩ := hforest.composed.exists_suitedAt hid
    rw [name?_of_contents? hshape, kind_of_contents? hshape]
    exact hsuits.name?_iff
  case nodeName_of_name =>
    intro id hid name hname
    obtain ⟨shape, hshape, hsuits, _⟩ := hforest.composed.exists_suitedAt hid
    rw [name?_of_contents? hshape] at hname
    rw [nodeName_of_contents? hshape]
    exact hsuits.nodeName_eq.1 name hname
  case nodeName_of_none =>
    intro id hid hname
    obtain ⟨shape, hshape, hsuits, _⟩ := hforest.composed.exists_suitedAt hid
    rw [name?_of_contents? hshape] at hname
    rw [nodeName_of_contents? hshape]
    exact hsuits.nodeName_eq.2 hname
  case kind_of_namespaceUri =>
    intro id hid hplaced
    obtain ⟨making, shape, hshape, hforms⟩ := hforest.exists_forms hid
    rw [namespaceUri_of_contents? hshape, hforms.root_eq] at hplaced
    rw [kind_of_contents? hshape, hforms.root_eq]
    by_contra hkind
    rw [Making.namespaceUri?_content hkind] at hplaced
    cases hplaced
  case nodeName_eq =>
    intro id making name hstems hname
    obtain ⟨shape, hshape, hforms⟩ := hstems.exists_forms
    rw [nodeName_of_contents? hshape, hforms.root_eq, Making.nodeName_content hname]

/-- Attributes with colons at the ends of their names and an instruction, under an element that
comes twice in a document, once as itself and once as a copy; of all that the copy is left. -/
def oddlyNamedForest : Forest :=
  let sown := (Forest.empty.sow (.ofAttribute "a:b:" "1")).2
  let sown := (sown.sow (.ofPlacedAttribute ":x:y" "urn:y" "2")).2
  let sown := (sown.sow (.ofInstruction ":t" "d")).2
  let built := ((Builder.mk (.ofElement "e:f:g") [0, 1] [2, 0]).build sown).2
  let built := ((Builder.mk .document [] [3, 3]).build built).2
  built.retain [6]

theorem kindDiscipline_oddlyNamed :
    oddlyNamedForest.Made ∧ oddlyNamedForest.KindDiscipline ∧
      oddlyNamedForest.ids.map oddlyNamedForest.host.nodeName =
        ["e:f:g", "a:b:", ":x:y", ":t", "a:b:"] := by
  have hsown : (((Forest.empty.sow (.ofAttribute "a:b:" "1")).2.sow
      (.ofPlacedAttribute ":x:y" "urn:y" "2")).2.sow (.ofInstruction ":t" "d")).2.Made :=
    ((Made.empty.step (.leaf (.attribute "a:b:" "1"))).step
      (.leaf (.placedAttribute ":x:y" "urn:y" "2"))).step (.leaf (.instruction ":t" "d"))
  have hbuilt := hsown.step (.opening (.element "e:f:g")
    (called_of_isAttribute _ [0, 1] [2, 0] (by unfold IsAttribute; decide +kernel)
      (by decide +kernel)))
  have hdocument := hbuilt.step (.opening .document
    (called_of_isAttribute _ [] [3, 3] nofun (by decide +kernel)))
  have hmade : oddlyNamedForest.Made := hdocument.step (.retain [6])
  refine ⟨hmade, hmade.kindDiscipline, ?_⟩
  decide +kernel

end Forest

end XPathTree

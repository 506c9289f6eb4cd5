import XPathTree.Forest.Basic

/-! # Building documents and elements

A builder collects nodes and puts them under a new one: first its attributes,
then its children, each in order. A node is put there itself only if its link was
never made. Otherwise it keeps its place, even when the node above it is gone, and
a copy of it with all below takes the new place.
-/

namespace XPathTree

namespace Hedge

/-- Makes the links of the roots. -/
def linkRoots (above : NodeId) : Hedge Node → Hedge Node
  | nil => nil
  | cons root attributes children rest =>
      cons (root.linkTo above) attributes children (rest.linkRoots above)

/-- Copies every tree of the row. Each copied node is new, is numbered before what
is below it, and has that linked to it; the links of the roots are still to be made. -/
def copy (next : NodeId) : Hedge Node → Hedge Node
  | nil => nil
  | cons root attributes children rest =>
      cons ⟨next, root.content, none⟩
        ((attributes.copy (next + 1)).linkRoots next)
        ((children.copy (next + 1 + attributes.size)).linkRoots next)
        (rest.copy (next + 1 + attributes.size + children.size))

end Hedge

namespace Forest

/-- Takes an identity for a node that is about to be made. -/
def reserve (forest : Forest) : NodeId × Forest :=
  (forest.next, { forest with next := forest.next + 1 })

/-- Makes the link of a node. -/
def link (forest : Forest) (above id : NodeId) : Forest :=
  { forest with
    trees := forest.trees.map fun node => if node.id = id then node.linkTo above else node }

def copy (forest : Forest) (tree : Tree Node) : NodeId × Forest :=
  (forest.next,
    { trees := forest.trees ++ tree.toHedge.copy forest.next
      next := forest.next + tree.toHedge.size })

/-- Links a node to the one it is to stand under, or else a copy of it, whose link
was never made. -/
def attach (forest : Forest) (above id : NodeId) : Option NodeId × Forest :=
  match forest.tree? id with
  | none => (none, forest)
  | some tree =>
      match tree.root.link with
      | none => (some id, forest.link above id)
      | some _ =>
          let (copied, forest) := forest.copy tree
          (some copied, forest.link above copied)

/-- Links nodes one after another; one that comes again is copied. -/
def attachAll (forest : Forest) (above : NodeId) : List NodeId → List NodeId × Forest
  | [] => ([], forest)
  | id :: ids =>
      let (attached, forest) := forest.attach above id
      let (others, forest) := forest.attachAll above ids
      (attached.toList ++ others, forest)

/-- The trees with the given roots, in the order of the roots. Where a builder gathers,
each of the roots that were attached has its tree (`Builder.attributes_build`,
`Builder.children_build`): none is left out. -/
def gather (forest : Forest) (roots : List NodeId) : Hedge Node :=
  roots.foldr (fun id others => forest.trees.filterRoots (·.id = id) ++ others) .nil

/-- Makes a node over those that were linked to it. -/
def assemble (forest : Forest) (id : NodeId) (content : Content)
    (attributes children : List NodeId) : Forest :=
  { forest with
    trees := forest.trees.filterRoots (·.id ∉ attributes ++ children) ++
      .cons ⟨id, content, none⟩ (forest.gather attributes) (forest.gather children) .nil }

end Forest

inductive BuildError
  | notAnAttribute
deriving DecidableEq, Repr

def BuildError.message : BuildError → String
  | .notAnAttribute => "assertion failed: attr.kind() == NodeKind::Attribute"

/-- A document or element to be made, with what was handed over for it so far. -/
structure Builder where
  container : Container
  attributes : List NodeId
  children : List NodeId
deriving Repr

namespace Builder

def ofContainer (container : Container) : Builder := ⟨container, [], []⟩

/-- Hands over an attribute. Only attributes can be one. -/
def addAttribute (forest : Forest) (builder : Builder) (id : NodeId) :
    Except BuildError Builder :=
  if (forest.content? id).map (·.kind) = some .attribute then
    .ok { builder with attributes := builder.attributes ++ [id] }
  else .error .notAnAttribute

def addAttributes (forest : Forest) (builder : Builder) (ids : List NodeId) :
    Except BuildError Builder :=
  ids.foldlM (fun builder id => builder.addAttribute forest id) builder

/-- Hands over a child. Any node can be one. -/
def addChild (builder : Builder) (id : NodeId) : Builder :=
  { builder with children := builder.children ++ [id] }

def addChildren (builder : Builder) (ids : List NodeId) : Builder :=
  ids.foldl addChild builder

/-- Makes the node and puts under it what was handed over. -/
def build (builder : Builder) (forest : Forest) : NodeId × Forest :=
  let (id, forest) := forest.reserve
  let (attributes, forest) := forest.attachAll id builder.attributes
  let (children, forest) := forest.attachAll id builder.children
  (id, forest.assemble id builder.container.content attributes children)

end Builder

/-- What comes to be a child: a node, or a builder that has yet to build it. -/
inductive Offer
  | made (id : NodeId)
  | pending (builder : Builder)
deriving Repr

/-- The node that is offered. A pending builder builds it now. -/
def Offer.build : Offer → Forest → NodeId × Forest
  | made id, forest => (id, forest)
  | pending builder, forest => builder.build forest

end XPathTree

import XPathTree.Axis
import XPathTree.Content
import XPathTree.Declaration
import XPathTree.Forest.Basic
import XPathTree.Forest.Build
import XPathTree.Forest.Host
import XPathTree.HashCode
import XPathTree.Hedge
import XPathTree.Hedge.Lemmas
import XPathTree.Host
import XPathTree.Host.Table
import XPathTree.NamespaceNode.Basic
import XPathTree.NamespaceNode.Reading
import XPathTree.NamespaceNode.Request
import XPathTree.NoChildren
import XPathTree.NodeKind
import XPathTree.NodeSet
import XPathTree.ParentChain
import XPathTree.Proofs.Axis
import XPathTree.Proofs.Coherence
import XPathTree.Proofs.Declaration
import XPathTree.Proofs.Declared
import XPathTree.Proofs.Expansion
import XPathTree.Proofs.Firsts
import XPathTree.Proofs.Forest.Ancestry
import XPathTree.Proofs.Forest.Assemble
import XPathTree.Proofs.Forest.Attach
import XPathTree.Proofs.Forest.Attempts
import XPathTree.Proofs.Forest.Calls
import XPathTree.Proofs.Forest.Copy
import XPathTree.Proofs.Forest.CopyEvents
import XPathTree.Proofs.Forest.Declarations
import XPathTree.Proofs.Forest.Encoding
import XPathTree.Proofs.Forest.Follows
import XPathTree.Proofs.Forest.Grows
import XPathTree.Proofs.Forest.Identity
import XPathTree.Proofs.Forest.Links
import XPathTree.Proofs.Forest.Making
import XPathTree.Proofs.Forest.Origin
import XPathTree.Proofs.Forest.Owner
import XPathTree.Proofs.Forest.Reachable
import XPathTree.Proofs.Forest.Reading
import XPathTree.Proofs.Forest.Retain
import XPathTree.Proofs.Forest.Reuse
import XPathTree.Proofs.Forest.Shape
import XPathTree.Proofs.Forest.StringValue
import XPathTree.Proofs.Forest.Ways
import XPathTree.Proofs.Forest.WellFormed
import XPathTree.Proofs.Hedge
import XPathTree.Proofs.Inheritance
import XPathTree.Proofs.LocalName
import XPathTree.Proofs.Lookup
import XPathTree.Proofs.LookupPrefix
import XPathTree.Proofs.Merging
import XPathTree.Proofs.Nearest
import XPathTree.Proofs.Offering
import XPathTree.Proofs.Reordering
import XPathTree.Proofs.Scope
import XPathTree.Proofs.Session.Acts
import XPathTree.Proofs.Session.Declaring
import XPathTree.Proofs.Session.Failing
import XPathTree.Proofs.Session.Hiding
import XPathTree.Proofs.Session.Holdings
import XPathTree.Proofs.Session.Owning
import XPathTree.Proofs.Session.Parents
import XPathTree.Proofs.Session.Release
import XPathTree.Proofs.Session.Shape
import XPathTree.Proofs.Session.Sharing
import XPathTree.Proofs.Session.Spelled
import XPathTree.Proofs.Session.Spending
import XPathTree.Proofs.Session.Steps
import XPathTree.Proofs.Splitting
import XPathTree.Proofs.StringValue
import XPathTree.QName
import XPathTree.Refusal
import XPathTree.Reserved
import XPathTree.ResultNode
import XPathTree.Scope
import XPathTree.Session.Basic
import XPathTree.Session.Holdings
import XPathTree.Session.Plan
import XPathTree.Session.Source
import XPathTree.Session.Value
import XPathTree.Session.Walk
import XPathTree.Text.Outline
import XPathTree.Text.Quoted

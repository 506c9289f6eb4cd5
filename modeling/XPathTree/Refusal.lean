import XPathTree.Text.Outline

/-! # Refusals

Why a namespace node turns a request down: it may not be changed, and it has
no place in the document from which some questions could be answered.
-/

namespace XPathTree

open Text

inductive Refusal
  | noModificationAllowed
  | unsupported (operation : String)
deriving DecidableEq, Repr

namespace Refusal

def message : Refusal → String
  | .noModificationAllowed => "Namespace node may not be modified"
  | .unsupported operation => "operation not supported on namespace nodes: " ++ operation

/-- The exception code of a refusal that DOM interfaces number. -/
def code? : Refusal → Option Nat
  | .noModificationAllowed => some 7
  | .unsupported _ => none

def outline : Refusal → Outline
  | .noModificationAllowed => .word "NoModificationAllowed"
  | .unsupported operation => .wrap "Unsupported" (.quoted operation)

end Refusal

end XPathTree

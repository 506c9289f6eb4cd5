import XPathTree.Text.Outline

/-! # Qualified names

A name as a document writes it, split into prefix and local part, with the
namespace it was placed in. Writing a name back gives the text it was read from.
-/

namespace XPathTree

open Text

/-- A name with an optional prefix and the namespace it belongs to, if any. -/
structure QName where
  pfx : Option String
  localPart : String
  uri : Option String
deriving DecidableEq, Repr

namespace QName

/-- Splits at the first colon; without one, all is the local part. -/
def parse (written : String) (uri : Option String) : QName :=
  match written.toList.dropWhile (· != ':') with
  | [] => { pfx := none, localPart := written, uri }
  | _ :: rest =>
      { pfx := some (.ofList (written.toList.takeWhile (· != ':')))
        localPart := .ofList rest
        uri }

def toString (name : QName) : String :=
  match name.pfx with
  | none => name.localPart
  | some pfx => pfx ++ ":" ++ name.localPart

instance : ToString QName := ⟨toString⟩

def outline (name : QName) : Outline :=
  .record "QName"
    [("prefix", .option (name.pfx.map .quoted)),
      ("local", .quoted name.localPart),
      ("ns_uri", .option (name.uri.map .quoted))]

end QName

/-- The part of a written name after its last colon; the whole of it if it has none. -/
def afterLastColon (written : String) : String :=
  .ofList (written.toList.reverse.takeWhile (· != ':')).reverse

end XPathTree

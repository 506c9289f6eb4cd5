import XPathTree.Text.Quoted

/-! # Printed values

A value prints as a word, as a name around one item, or as a name with labelled
fields. Each has a form on one line and a form over several, in which every item
has lines of its own, four columns further in and closed by a comma. An `Outline`
holds both forms; a printer builds it from the inside out.
-/

namespace XPathTree.Text

structure Outline where
  inline : String
  lines : List String

namespace Outline

def word (text : String) : Outline := ⟨text, [text]⟩

def quoted (text : String) : Outline := word (quote text)

/-- A comma after the last line. -/
def closed : List String → List String
  | [] => []
  | [line] => [line ++ ","]
  | line :: lines => line :: closed lines

/-- The label before the first line. -/
def labelled (label : String) : List String → List String
  | [] => []
  | line :: lines => (label ++ line) :: lines

def item (label : String) (inner : Outline) : List String :=
  (closed (labelled label inner.lines)).map ("    " ++ ·)

/-- A name around one item. -/
def wrap (name : String) (inner : Outline) : Outline where
  inline := name ++ "(" ++ inner.inline ++ ")"
  lines := (name ++ "(") :: item "" inner ++ [")"]

/-- A name with labelled fields, in order. -/
def record (name : String) (fields : List (String × Outline)) : Outline where
  inline := name ++ " \x7b " ++
    ", ".intercalate (fields.map fun (label, inner) => label ++ ": " ++ inner.inline) ++ " \x7d"
  lines := (name ++ " \x7b") ::
    fields.flatMap (fun (label, inner) => item (label ++ ": ") inner) ++ ["\x7d"]

def option : Option Outline → Outline
  | none => word "None"
  | some inner => wrap "Some" inner

/-- The form over several lines if `pretty`, otherwise the form on one. -/
def render (outline : Outline) (pretty : Bool) : String :=
  if pretty then "\n".intercalate outline.lines else outline.inline

end Outline

end XPathTree.Text

/-! # Quoted text

How a string stands inside a printed value: between double quotes, with the
characters that would not show as themselves written as escapes.
-/

namespace XPathTree.Text

/-- Blocks of characters that leave no mark of their own on the page: controls, blanks
other than the space, and common blocks of format characters, of marks that combine
with the character before them and of code points for private use. Marks of single
scripts and unassigned code points are left out, so outside these blocks a character
can stand as it is where a full table of such classes would escape it. -/
def unseen : List (Nat × Nat) :=
  [(0x00, 0x1F), (0x7F, 0xA0), (0xAD, 0xAD), (0x300, 0x36F), (0x483, 0x489), (0x591, 0x5BD),
    (0x61C, 0x61C), (0x64B, 0x65F), (0x1680, 0x1680), (0x1AB0, 0x1ACE), (0x1DC0, 0x1DFF),
    (0x2000, 0x200F), (0x2028, 0x202F), (0x205F, 0x206F), (0x20D0, 0x20F0), (0x3000, 0x3000),
    (0x3099, 0x309A), (0xE000, 0xF8FF), (0xFE00, 0xFE0F), (0xFE20, 0xFE2F), (0xFEFF, 0xFEFF),
    (0xFFF0, 0xFFFB), (0xE0000, 0xE0FFF), (0xF0000, 0x10FFFF)]

def isUnseen (c : Char) : Bool :=
  unseen.any fun (low, high) => low ≤ c.toNat && c.toNat ≤ high

/-- The code point between braces, in lower-case hexadecimal without padding. -/
def codePoint (c : Char) : List Char :=
  ['\\', 'u', '\x7b'] ++ Nat.toDigits 16 c.toNat ++ ['\x7d']

/-- One character as it is written between double quotes. The single quote
needs no escape there. -/
def escape (c : Char) : List Char :=
  match c with
  | '"' => ['\\', '"']
  | '\\' => ['\\', '\\']
  | '\t' => ['\\', 't']
  | '\n' => ['\\', 'n']
  | '\r' => ['\\', 'r']
  | '\x00' => ['\\', '0']
  | c => if isUnseen c then codePoint c else [c]

def quote (text : String) : String :=
  .ofList ('"' :: text.toList.flatMap escape ++ ['"'])

end XPathTree.Text

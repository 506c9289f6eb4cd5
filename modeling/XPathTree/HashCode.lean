/-! # Hash codes

A hash code is kept as the sum it is, not as the number it comes to, which hangs
on the way single texts and nodes are hashed. Terms may change places in a sum
(`HashCode.add_right_comm`), and codes that are one sum come to one number
whatever the single hashes are (`HashCode.eval_add`).
-/

namespace XPathTree

/-- What is hashed on its own: a node, through a key of it, or a text. -/
inductive HashTerm
  | node (key : Int)
  | text (text : String)
deriving DecidableEq, Repr

namespace HashTerm

/-- The order in which terms are listed: nodes by key, then texts. -/
def le : HashTerm → HashTerm → Bool
  | node a, node b => a ≤ b
  | node _, text _ => true
  | text _, node _ => false
  | text a, text b => a ≤ b

theorem le_total (a b : HashTerm) : a.le b = true ∨ b.le a = true := by
  cases a <;> cases b <;> simp [le, Int.le_total, String.le_total]

theorem le_trans {a b c : HashTerm} (hab : a.le b = true) (hbc : b.le c = true) :
    a.le c = true := by
  cases a <;> cases b <;> cases c <;> simp [le] at hab hbc ⊢
  · exact Int.le_trans hab hbc
  · exact String.le_trans hab hbc

theorem le_antisymm {a b : HashTerm} (hab : a.le b = true) (hba : b.le a = true) : a = b := by
  cases a <;> cases b <;> simp [le] at hab hba ⊢
  · exact Int.le_antisymm hab hba
  · exact String.le_antisymm hab hba

end HashTerm

/-- A sum of hashes, its terms listed in order. -/
structure HashCode where
  terms : List HashTerm
deriving DecidableEq, Repr

namespace HashCode

/-- The sum of nothing. -/
def zero : HashCode := ⟨[]⟩

/-- Puts a term in its place among others. -/
def insertTerm (term : HashTerm) : List HashTerm → List HashTerm
  | [] => [term]
  | other :: rest =>
      if term.le other then term :: other :: rest else other :: insertTerm term rest

def add (code : HashCode) (term : HashTerm) : HashCode := ⟨insertTerm term code.terms⟩

/-- The number a code comes to, given the hash of each single term. -/
def eval (hash : HashTerm → UInt64) (code : HashCode) : UInt64 :=
  code.terms.foldr (fun term sum => hash term + sum) 0

theorem insertTerm_comm (a b : HashTerm) (terms : List HashTerm) :
    insertTerm a (insertTerm b terms) = insertTerm b (insertTerm a terms) := by
  induction terms with
  | nil => grind [insertTerm, HashTerm.le_total, HashTerm.le_antisymm]
  | cons other rest ih =>
      grind [insertTerm, HashTerm.le_total, HashTerm.le_antisymm, HashTerm.le_trans]

theorem add_right_comm (code : HashCode) (a b : HashTerm) :
    (code.add a).add b = (code.add b).add a := by
  simp only [add, insertTerm_comm]

theorem eval_zero (hash : HashTerm → UInt64) : zero.eval hash = 0 := rfl

theorem eval_add (hash : HashTerm → UInt64) (code : HashCode) (term : HashTerm) :
    (code.add term).eval hash = code.eval hash + hash term := by
  obtain ⟨terms⟩ := code
  simp only [add, eval]
  induction terms with
  | nil => simp [insertTerm, UInt64.add_comm]
  | cons other rest ih =>
      simp only [insertTerm]
      split
      next => simp [UInt64.add_comm]
      next => simp only [List.foldr_cons, ih, UInt64.add_assoc]

end HashCode

end XPathTree

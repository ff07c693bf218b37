/-
**Places in a source text.**

A place is a line and a column, both counted from one. Columns count the bytes of the UTF-8 text, so
a character moves the column by its own width:

* `Position.after`: the place just behind a character;
* `Position.notAfter`: reading order, used to list diagnostics in the order of the text.
-/

namespace ScopedScript

/-- A place in a source text: line and byte column, both from one. -/
structure Position where
  line : Nat
  column : Nat
deriving DecidableEq, Repr, Inhabited

namespace Position

def start : Position := ⟨1, 1⟩

/-- The place of what the text does not hold, such as a built-in name. -/
def nowhere : Position := ⟨0, 0⟩

/-- The place behind a character that stands at `place`. -/
def after (place : Position) (char : Char) : Position :=
  if char = '\n' then ⟨place.line + 1, 1⟩ else ⟨place.line, place.column + char.utf8Size⟩

/-- The place behind a run of characters that starts at `place`. -/
def afterAll (place : Position) (chars : List Char) : Position :=
  chars.foldl after place

/-- Reading order: `first` does not come after `second`. -/
def notAfter (first second : Position) : Bool :=
  first.line < second.line || (first.line == second.line && first.column ≤ second.column)

end Position

end ScopedScript

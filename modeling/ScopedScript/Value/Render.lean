/-
**Values as text.**

A text at the top is shown as it is; inside a container it stands between quotes, with nothing
escaped. A container that is met again inside itself is abbreviated. The text comes as a list of
pieces, because a buffered file takes it piece by piece:

* `Value.pieces`: the pieces of a value, given the containers around it;
* `Value.shown`: the whole text.
-/

import ScopedScript.Text.Decimal
import ScopedScript.Value.Heap

namespace ScopedScript

/-- The pieces of an integer: a sign if it is negative, and the digits. -/
def intPieces (value : Int64) : List String :=
  let digits := Decimal.natText value.toInt.natAbs
  if value < 0 then ["-", digits] else [digits]

def boolText (value : Bool) : String := if value then "True" else "False"

def quotedPieces (text : String) : List String := ["\"", text, "\""]

def Key.pieces : Key → List String
  | .int value => intPieces value
  | .text value => quotedPieces value
  | .bool value => [boolText value]

def Key.shown (key : Key) : String := String.join key.pieces

/-- Lists of pieces with commas between them. -/
def separated : List (List String) → List String
  | [] => []
  | [only] => only
  | first :: rest => first ++ ", " :: separated rest

namespace Value

/-- The pieces of a value inside the containers `around` it; `nested` says that there are any. At
most `bound` containers lie inside one another. -/
def pieces (heap : Heap) : Nat → List Value → Bool → Value → List String
  | _, _, _, .int value => intPieces value
  | _, _, _, .bool value => [boolText value]
  | _, _, true, .text value => quotedPieces value
  | _, _, false, .text value => [value]
  | _, _, _, .none => ["None"]
  | 0, _, _, .array _ => ["[...]"]
  | bound + 1, around, _, .array place =>
    if around.contains (.array place) then ["[...]"]
    else
      "[" :: separated ((heap.items place).toList.map
        (pieces heap bound (.array place :: around) true)) ++ ["]"]
  | 0, _, _, .map _ => ["\x7b...\x7d"]
  | bound + 1, around, _, .map place =>
    if around.contains (.map place) then ["\x7b...\x7d"]
    else
      "\x7b" :: separated ((heap.entries place).toList.map fun entry =>
        entry.1.pieces ++ ": " :: pieces heap bound (.map place :: around) true entry.2) ++ ["\x7d"]
  | _, _, _, .function name _ => [name]
  | _, _, _, .builtin name => [name]
  | _, _, _, .file ref => ["<file ", ref.path, ">"]

/-- The pieces of a value. Containers inside one another are different ones, so their number bounds
the nesting. -/
def written (heap : Heap) (value : Value) : List String := pieces heap (heap.size + 1) [] false value

def shown (heap : Heap) (value : Value) : String := String.join (value.written heap)

end Value

end ScopedScript

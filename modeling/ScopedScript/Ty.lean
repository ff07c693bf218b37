/-
**Static types.**

`unknown` stands for what is only known when the program runs: results of functions, loop variables,
elements. It goes with every other type:

* `Ty.acceptedBy`: a type is among the allowed ones, where an empty list allows all;
* `Ty.assignableTo`: a value of one type may be stored where another is expected;
* `Ty.isKey`: the types that key a map;
* `Ty.describe`: a list of alternatives in words.
-/

namespace ScopedScript

/-- The static type of an expression or a declaration. -/
inductive Ty where
  | int | bool | string | array | map | none | file | unknown
deriving DecidableEq, Repr, Inhabited

namespace Ty

def name : Ty → String
  | .int => "int"
  | .bool => "bool"
  | .string => "string"
  | .array => "array"
  | .map => "map"
  | .none => "None"
  | .file => "file"
  | .unknown => "unknown"

/-- The type is one of those allowed, or not known; no alternatives allow any type. -/
def acceptedBy (ty : Ty) (allowed : List Ty) : Bool :=
  ty == .unknown || allowed.isEmpty || allowed.contains ty

/-- A value of type `ty` may be stored where `target` is expected. -/
def assignableTo (ty target : Ty) : Bool :=
  ty == .unknown || ty == .none || target == .unknown || ty == target

def isKey (ty : Ty) : Bool :=
  ty == .int || ty == .string || ty == .bool || ty == .unknown

/-- Alternatives in words: `int`, `int or string`, `array, map or string`. -/
def describe : List Ty → String
  | [] => "any value"
  | [only] => only.name
  | first :: second :: rest =>
    let all := first :: second :: rest
    String.intercalate ", " (all.dropLast.map name) ++ " or " ++ ((second :: rest).getLast?.getD second).name

end Ty

end ScopedScript

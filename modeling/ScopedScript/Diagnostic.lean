/-
**Diagnostics.**

What can be wrong with a program before it runs, as causes; the code, the family and the wording of
each cause are functions on it:

* `Problem`: the causes, in the order of the passes that find them;
* `Problem.code`, `Problem.family`, `Problem.message`: what a reader sees of a cause;
* `Diagnostic`: a cause and its place, `Diagnostic.report` the same in plain words;
* `Diagnostic.sort`: reading order, where equal places keep the order in which they were found.
-/

import ScopedScript.Operator
import ScopedScript.Position
import ScopedScript.Token
import ScopedScript.Ty

namespace ScopedScript

/-- The roles in which an expression must have a certain type. -/
inductive Role where
  | loopSource | condition | negated | complemented | arraySize
  | comprehensionSource | comprehensionFilter
deriving DecidableEq, Repr

def Role.allowed : Role → List Ty
  | .loopSource | .comprehensionSource => [.array]
  | .condition | .complemented | .comprehensionFilter => [.bool]
  | .negated | .arraySize => [.int]

def Role.phrase : Role → String
  | .loopSource => "`for` iterates over"
  | .condition => "a condition must be"
  | .negated => "`-` negates"
  | .complemented => "`not` negates"
  | .arraySize => "an array size must be"
  | .comprehensionSource => "a list comprehension iterates over"
  | .comprehensionFilter => "a comprehension filter must be"

/-- The ways in which types do not go together. -/
inductive Mismatch where
  | unfit (role : Role) (found : Ty)
  | operands (op : BinaryOp) (left right : Ty)
  | argument (function parameter : String) (allowed : List Ty) (found : Ty)
  | store (value slot : Ty)
  | key (found : Ty)
  | noneIndex
  | arrayIndex (found : Ty)
  | notIndexable (found : Ty)
deriving DecidableEq, Repr

def Mismatch.message : Mismatch → String
  | .unfit role found =>
    role.phrase ++ " " ++ Ty.describe role.allowed ++ ", found " ++ found.name
  | .operands op left right =>
    "operator `" ++ op.spelling ++ "` cannot combine " ++ left.name ++ " and " ++ right.name
  | .argument function parameter allowed found =>
    "`" ++ function ++ "` expects " ++ Ty.describe allowed ++ " for `" ++ parameter ++ "`, found "
      ++ found.name
  | .store value slot =>
    "cannot store " ++ value.name ++ " in an element of type " ++ slot.name
  | .key found => "map keys must be strings, integers or booleans, found " ++ found.name
  | .noneIndex => "cannot index with None"
  | .arrayIndex found => "arrays are indexed only by integers, found " ++ found.name
  | .notIndexable found => "only arrays and maps can be indexed, found " ++ found.name

/-- Everything that can be wrong with a program before it runs. -/
inductive Problem where
  | strayCharacter (shown : Char)
  | bareBang
  | unterminatedText
  | unknownEscape (shown : Char)
  | integerTooLarge (digits : String)
  | expectedName (found : Token)
  | expectedExpr (found : Token)
  | expectedToken (wanted found : Token)
  | badTarget
  | unresolved (name : String)
  | usedTooEarly (name : String)
  | mismatch (cause : Mismatch)
  | argumentCount (name : String) (expected found : Nat)
  | finalAssigned (name : String)
  | functionRepeated (name : String)
  | functionIsBuiltin (name : String)
  | parameterRepeated (name : String)
  | returnOutside
  | elsifAfterElse
  | elseAfterElse
  | notCallable (name : String)
  | undetermined
  | builtinAssigned (name : String)
deriving DecidableEq, Repr

inductive Family where
  | lexical | syntactic | unresolved | usedTooEarly | typeMismatch | arity | structural
deriving DecidableEq, Repr

namespace Problem

def code : Problem → String
  | .strayCharacter _ | .bareBang => "L001"
  | .unterminatedText => "L002"
  | .unknownEscape _ => "L003"
  | .integerTooLarge _ => "L004"
  | .expectedName _ | .expectedExpr _ => "P001"
  | .expectedToken _ _ => "P002"
  | .badTarget => "P003"
  | .unresolved _ => "S001"
  | .usedTooEarly _ => "S002"
  | .mismatch _ => "S003"
  | .argumentCount _ _ _ => "S004"
  | .finalAssigned _ => "S005"
  | .functionRepeated _ | .functionIsBuiltin _ | .parameterRepeated _ => "S006"
  | .returnOutside => "S007"
  | .elsifAfterElse | .elseAfterElse => "S008"
  | .notCallable _ => "S009"
  | .undetermined => "S010"
  | .builtinAssigned _ => "S011"

def family : Problem → Family
  | .strayCharacter _ | .bareBang | .unterminatedText | .unknownEscape _ | .integerTooLarge _ =>
    .lexical
  | .expectedName _ | .expectedExpr _ | .expectedToken _ _ | .badTarget => .syntactic
  | .unresolved _ => .unresolved
  | .usedTooEarly _ => .usedTooEarly
  | .mismatch _ | .notCallable _ | .undetermined => .typeMismatch
  | .argumentCount _ _ _ => .arity
  | .finalAssigned _ | .functionRepeated _ | .functionIsBuiltin _ | .parameterRepeated _
  | .returnOutside | .elsifAfterElse | .elseAfterElse | .builtinAssigned _ => .structural

def message : Problem → String
  | .strayCharacter shown => "unexpected character `" ++ shown.toString ++ "`"
  | .bareBang => "expected `!=`, bare `!` is not valid (use `not`)"
  | .unterminatedText => "unterminated string literal"
  | .unknownEscape shown => "unknown escape sequence `\\" ++ shown.toString ++ "`"
  | .integerTooLarge digits => "integer literal `" ++ digits ++ "` does not fit in 64 bits"
  | .expectedName found => "expected identifier, found " ++ found.describe
  | .expectedExpr found => "expected expression, found " ++ found.describe
  | .expectedToken wanted found => "expected " ++ wanted.describe ++ ", found " ++ found.describe
  | .badTarget => "only a name or an indexed element can be assigned to"
  | .unresolved name => "could not resolve `" ++ name ++ "`"
  | .usedTooEarly name => "`" ++ name ++ "` is used before its declaration"
  | .mismatch cause => cause.message
  | .argumentCount name expected found =>
    "`" ++ name ++ "` expects " ++ Decimal.natText expected ++ " argument(s), found "
      ++ Decimal.natText found
  | .finalAssigned name => "cannot assign to final variable `" ++ name ++ "`"
  | .functionRepeated name => "function `" ++ name ++ "` is already declared in this scope"
  | .functionIsBuiltin name => "function `" ++ name ++ "` is a built-in"
  | .parameterRepeated name => "parameter `" ++ name ++ "` is declared twice"
  | .returnOutside => "cannot return outside function"
  | .elsifAfterElse => "`elsif` cannot follow `else`"
  | .elseAfterElse => "`else` cannot follow `else`"
  | .notCallable name => "`" ++ name ++ "` is not a function"
  | .undetermined =>
    "cannot determine this type: it depends on itself or on a value that is never computed"
  | .builtinAssigned name => "cannot assign to built-in `" ++ name ++ "`"

end Problem

structure Diagnostic where
  problem : Problem
  position : Position
deriving DecidableEq, Repr

structure Report where
  code : String
  family : Family
  position : Position
  message : String
deriving DecidableEq, Repr

def Report.text (report : Report) : String :=
  "[" ++ report.code ++ "] " ++ Decimal.natText report.position.line ++ ":"
    ++ Decimal.natText report.position.column ++ ": " ++ report.message

namespace Diagnostic

def report (diagnostic : Diagnostic) : Report where
  code := diagnostic.problem.code
  family := diagnostic.problem.family
  position := diagnostic.position
  message := diagnostic.problem.message

def ofMismatch (cause : Mismatch) (position : Position) : Diagnostic := ⟨.mismatch cause, position⟩

/-- Puts a diagnostic before the first one that stands after or at the same place. -/
def insert (diagnostic : Diagnostic) : List Diagnostic → List Diagnostic
  | [] => [diagnostic]
  | head :: tail =>
    if diagnostic.position.notAfter head.position then diagnostic :: head :: tail
    else head :: insert diagnostic tail

/-- Reading order; diagnostics at one place stay in the order in which they were found. -/
def sort (diagnostics : List Diagnostic) : List Diagnostic := diagnostics.foldr insert []

end Diagnostic

end ScopedScript

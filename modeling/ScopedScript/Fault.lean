/-
**Failures of a run.**

A run that fails names the line and the cause. Causes are data; their wording is here and nowhere
else:

* `TypeFault`, `KeyFault`, `NullFault`, `FileFault`: the causes that come in several forms;
* `Cause`: every cause, `Cause.message` its wording;
* `Fault.text`: the line and the cause as one text.
-/

import ScopedScript.File.Handle
import ScopedScript.Operator
import ScopedScript.Text.Decimal
import ScopedScript.Text.Quoted
import ScopedScript.Value.Render

namespace ScopedScript

/-- A value of the wrong sort, or a call that cannot be made. -/
inductive TypeFault where
  | eachSource (got : Kind)
  | comprehensionSource (got : Kind)
  | condition (got : Kind)
  | logical (op : BinaryOp) (got : Kind)
  | negated (got : Kind)
  | inverted (got : Kind)
  | negativeSize (count : Int64)
  | size (got : Kind)
  | operands (op : BinaryOp) (left right : Kind)
  | arrayIndex (got : Kind)
  | notIndexed (got : Kind)
  | notAssigned (got : Kind)
  | unsorted (got : Kind)
  | mixed (first other : Kind)
  | notProvided (name : String)
  | notFunction (name : String)
  | undefined
  | argumentCount (name : String) (expected got : Nat)
  | argument (name : String) (accepted : List Ty) (got : Kind)
deriving DecidableEq, Repr

def TypeFault.message : TypeFault → String
  | .eachSource got => "`for` iterates over an array, got " ++ got.name
  | .comprehensionSource got => "a list comprehension iterates over an array, got " ++ got.name
  | .condition got => "a condition must be a bool, got " ++ got.name
  | .logical op got => "operator `" ++ op.spelling ++ "` needs bools, got " ++ got.name
  | .negated got => "cannot negate " ++ got.name
  | .inverted got => "`not` needs a bool, got " ++ got.name
  | .negativeSize count => "array size cannot be negative, got " ++ Decimal.text count
  | .size got => "an array size must be an int, got " ++ got.name
  | .operands op left right =>
    "operator `" ++ op.spelling ++ "` cannot combine " ++ left.name ++ " and " ++ right.name
  | .arrayIndex got => "arrays are indexed only by integers, got " ++ got.name
  | .notIndexed got => "only arrays and maps can be indexed, got " ++ got.name
  | .notAssigned got => "only arrays and maps can be assigned into, got " ++ got.name
  | .unsorted got => "cannot sort values of type " ++ got.name
  | .mixed first other => "cannot sort an array mixing " ++ first.name ++ " and " ++ other.name
  | .notProvided name => "no library provides `" ++ name ++ "`"
  | .notFunction name => "`" ++ name ++ "` is not a function"
  | .undefined => "call to a function with no definition"
  | .argumentCount name expected got =>
    "`" ++ name ++ "` expects " ++ Decimal.natText expected ++ " argument(s), got " ++
      Decimal.natText got
  | .argument name accepted got =>
    "`" ++ name ++ "` expects " ++ Ty.describe accepted ++ ", got " ++ got.name

/-- A key that cannot be one, or that a map does not have. -/
inductive KeyFault where
  | unfit (got : Kind)
  | missing (key : Key)
deriving DecidableEq, Repr

def KeyFault.message : KeyFault → String
  | .unfit got => got.name ++ " cannot be a map key"
  | .missing key => key.shown ++ " is not in the map"

/-- A use of `None` as a container. -/
inductive NullFault where
  | load | store
deriving DecidableEq, Repr

def NullFault.message : NullFault → String
  | .load => "cannot index None"
  | .store => "cannot assign into None"

/-- An operation on files or on the output that failed. -/
inductive FileFault where
  | unknownMode (mode : String)
  | openReading (path : String) (error : OsError)
  | openWriting (path : String) (error : OsError)
  | alreadyClosed (path : String)
  | flush (path : String) (error : OsError)
  | notReading (path : String) (mode : FileMode)
  | read (path : String) (error : OsError)
  | notWriting (path : String) (mode : FileMode)
  | write (path : String) (error : OsError)
  | outputLimit
deriving DecidableEq, Repr

def FileFault.message : FileFault → String
  | .unknownMode mode =>
    "unknown file mode `" ++ mode ++ "` (expected \"r\", \"read\", \"w\" or \"write\")"
  | .openReading path error => "cannot open `" ++ path ++ "` for reading: " ++ error.message
  | .openWriting path error => "cannot open `" ++ path ++ "` for writing: " ++ error.message
  | .alreadyClosed path => "`" ++ path ++ "` is already closed"
  | .flush path error => "cannot flush `" ++ path ++ "`: " ++ error.message
  | .notReading path mode => "cannot read from `" ++ path ++ "`: file is " ++ mode.name
  | .read path error => "cannot read `" ++ path ++ "`: " ++ error.message
  | .notWriting path mode => "cannot write to `" ++ path ++ "`: file is " ++ mode.name
  | .write path error => "cannot write `" ++ path ++ "`: " ++ error.message
  | .outputLimit => "output limit reached"

/-- Why a run failed. -/
inductive Cause where
  | type (fault : TypeFault)
  | indexOutOfRange (index : Int64) (length : Nat)
  | key (fault : KeyFault)
  | file (fault : FileFault)
  | divideByZero
  | moduloByZero
  | null (fault : NullFault)
  | invalidInteger (text : String)
  | unbound (name : String)
  | callDepth (limit : Nat)
  | allocation (count : Int64)
deriving DecidableEq, Repr

def Cause.message : Cause → String
  | .type fault => "type error: " ++ fault.message
  | .indexOutOfRange index length =>
    "index " ++ Decimal.text index ++ " out of range for array of length " ++
      Decimal.natText length
  | .key fault => "invalid key: " ++ fault.message
  | .file fault => "i/o error: " ++ fault.message
  | .divideByZero => "division by zero"
  | .moduloByZero => "modulo by zero"
  | .null fault => "null reference: " ++ fault.message
  | .invalidInteger text => "cannot parse " ++ Text.quoted text ++ " as an integer"
  | .unbound name => "variable `" ++ name ++ "` has no value in this activation"
  | .callDepth limit => "call depth exceeded " ++ Decimal.natText limit
  | .allocation count => "cannot allocate an array of " ++ Decimal.text count ++ " elements"

/-- A failure of a run: where and why. -/
structure Fault where
  line : Nat
  cause : Cause
deriving DecidableEq, Repr

def Fault.text (fault : Fault) : String :=
  "[runtime] line " ++ Decimal.natText fault.line ++ ": " ++ fault.cause.message

end ScopedScript

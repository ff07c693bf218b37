/-
**Operators.**

The binary and unary operators, their spelling in messages, and the four classes that typing and
evaluation tell apart: arithmetic, ordering, equality and logic.
-/

namespace ScopedScript

inductive BinaryOp where
  | add | sub | mul | div | mod
  | and | or
  | eq | notEq
  | lt | le | gt | ge
deriving DecidableEq, Repr, Inhabited

/-- The unary operators: arithmetic minus and logical negation. -/
inductive UnaryOp where
  | neg | not
deriving DecidableEq, Repr, Inhabited

inductive OperatorClass where
  | arithmetic | ordering | equality | logical
deriving DecidableEq, Repr

namespace BinaryOp

def spelling : BinaryOp → String
  | .add => "+" | .sub => "-" | .mul => "*" | .div => "/" | .mod => "%"
  | .and => "and" | .or => "or"
  | .eq => "==" | .notEq => "!="
  | .lt => "<" | .le => "<=" | .gt => ">" | .ge => ">="

def kind : BinaryOp → OperatorClass
  | .add | .sub | .mul | .div | .mod => .arithmetic
  | .lt | .le | .gt | .ge => .ordering
  | .eq | .notEq => .equality
  | .and | .or => .logical

end BinaryOp

def UnaryOp.spelling : UnaryOp → String
  | .neg => "-"
  | .not => "not"

end ScopedScript

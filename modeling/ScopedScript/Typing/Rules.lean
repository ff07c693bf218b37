/-
**The typing rules.**

What each construct asks of the types of its parts and what type it has, on types alone:

* `Typing.binary`, `Typing.unary`, `Typing.index`: operators and subscripts;
* `Typing.store`: an element assignment;
* `Typing.keys`, `Typing.comprehension`, `Typing.call`: map literals, comprehensions, built-in calls.

A part of unknown type goes with everything. The inputs come as a list, one type per part.
-/

import ScopedScript.Diagnostic
import ScopedScript.Builtin.Signature

namespace ScopedScript.Typing

def fits (role : Role) (position : Position) (ty : Ty) : Except Diagnostic Unit :=
  if ty.acceptedBy role.allowed then .ok () else .error (.ofMismatch (.unfit role ty) position)

/-- Whether an operator takes operands of these types. -/
def combines (op : BinaryOp) (left right : Ty) : Bool :=
  match op.kind with
  | .equality => true
  | .arithmetic => left == .unknown || right == .unknown || (left == .int && right == .int)
  | .ordering =>
    left == .unknown || right == .unknown || (left == right && (left == .int || left == .string))
  | .logical => left == .unknown || right == .unknown || (left == .bool && right == .bool)

def resultOf (op : BinaryOp) : Ty :=
  match op.kind with
  | .arithmetic => .int
  | .ordering | .equality | .logical => .bool

def binary (op : BinaryOp) (position : Position) (left right : Ty) : Except Diagnostic Ty :=
  if combines op left right then .ok (resultOf op)
  else .error (.ofMismatch (.operands op left right) position)

/-- The role of the operand of a unary operator. -/
def operandRole : UnaryOp → Role
  | .neg => .negated
  | .not => .complemented

def unary (op : UnaryOp) (position : Position) (operand : Ty) : Except Diagnostic Ty := do
  fits (operandRole op) position operand
  return match op with
    | .neg => .int
    | .not => .bool

/-- The type of an element; elements have no type before the program runs. -/
def index (position : Position) (base index : Ty) : Except Diagnostic Ty :=
  let fail (cause : Mismatch) : Except Diagnostic Ty := .error (.ofMismatch cause position)
  if index == .none then fail .noneIndex
  else
    match base with
    | .unknown | .map => .ok .unknown
    | .array => if index.acceptedBy [.int] then .ok .unknown else fail (.arrayIndex index)
    | other => fail (.notIndexable other)

/-- Whether a value may be stored in an element. -/
def store (position : Position) (value element : Ty) : Except Diagnostic Unit :=
  if value.assignableTo element then .ok ()
  else .error (.ofMismatch (.store value element) position)

/-- The type of a map literal; the first key of a wrong type is reported at its place. -/
def keys (positions : List Position) (types : List Ty) : Except Diagnostic Ty :=
  match (types.zip positions).find? fun entry => !entry.1.isKey with
  | some (ty, position) => .error (.ofMismatch (.key ty) position)
  | none => .ok .map

/-- The type of a comprehension, from the types of its source and its filter. -/
def comprehension (source : Position) (filter : Option Position) (types : List Ty) :
    Except Diagnostic Ty :=
  match types, filter with
  | [items], none => do
    fits .comprehensionSource source items
    return .array
  | [items, kept], some position => do
    fits .comprehensionSource source items
    fits .comprehensionFilter position kept
    return .array
  | _, _ => .ok .array

/-- The first argument that its parameter does not accept. -/
def badArgument? : List Ty → List Param → List Position → Option (Ty × Param × Position)
  | ty :: types, param :: params, position :: positions =>
    if ty.acceptedBy param.accepts then badArgument? types params positions
    else some (ty, param, position)
  | _, _, _ => none

def call (name : String) (signature : Signature) (positions : List Position) (types : List Ty) :
    Except Diagnostic Ty :=
  match badArgument? types signature.params positions with
  | some (ty, param, position) =>
    .error (.ofMismatch (.argument name param.name param.accepts ty) position)
  | none => .ok signature.returns

/-! ### Rules on lists of inputs -/

def one {α : Type} (default : α) (rule : Ty → Except Diagnostic α) :
    List Ty → Except Diagnostic α
  | [ty] => rule ty
  | _ => .ok default

def two {α : Type} (default : α) (rule : Ty → Ty → Except Diagnostic α) :
    List Ty → Except Diagnostic α
  | [first, second] => rule first second
  | _ => .ok default

end ScopedScript.Typing

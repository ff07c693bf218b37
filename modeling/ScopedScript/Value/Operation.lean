/-
**Operators on values.**

What the operators do with values, and what indexing loads and stores. Integers wrap at 64 bits;
division goes toward zero:

* `BinaryOp.apply`, `UnaryOp.apply`: the operators, `and` and `or` apart;
* `Value.load`, `Value.slot`, `Value.store`: an element of an array or a map.
-/

import ScopedScript.Fault
import ScopedScript.Value.Equality

namespace ScopedScript

def BinaryOp.arithmetic (op : BinaryOp) (left right : Int64) : Except Cause Int64 :=
  match op with
  | .add => .ok (left + right)
  | .sub => .ok (left - right)
  | .mul => .ok (left * right)
  | .div => if right = 0 then .error .divideByZero else .ok (left / right)
  | .mod => if right = 0 then .error .moduloByZero else .ok (left % right)
  | _ => .error (.type (.operands op .int .int))

/-- What an ordering operator makes of an ordering. -/
def BinaryOp.holds (op : BinaryOp) (ordering : Ordering) : Bool :=
  match op with
  | .lt => ordering.isLT
  | .le => ordering.isLE
  | .gt => ordering.isGT
  | _ => ordering.isGE

/-- The value of a binary operator other than `and` and `or`. -/
def BinaryOp.apply (heap : Heap) (op : BinaryOp) (left right : Value) : Except Cause Value :=
  match op.kind with
  | .equality => .ok (.bool (if op = .eq then left.same heap right else !left.same heap right))
  | .ordering =>
    match left, right with
    | .int first, .int second => .ok (.bool (op.holds (compare first second)))
    | .text first, .text second => .ok (.bool (op.holds (Text.order first second)))
    | _, _ => .error (.type (.operands op left.kind right.kind))
  | _ =>
    match left, right with
    | .int first, .int second => (op.arithmetic first second).map .int
    | _, _ => .error (.type (.operands op left.kind right.kind))

def UnaryOp.apply : UnaryOp → Value → Except Cause Value
  | .neg, .int value => .ok (.int (-value))
  | .neg, value => .error (.type (.negated value.kind))
  | .not, .bool value => .ok (.bool !value)
  | .not, value => .error (.type (.inverted value.kind))

namespace Value

def asKey (value : Value) : Except Cause Key :=
  match Key.ofValue? value with
  | some key => .ok key
  | .none => .error (.key (.unfit value.kind))

/-- The place in an array of some length that a value names. -/
def asIndex (value : Value) (length : Nat) : Except Cause Nat :=
  match value with
  | .int index =>
    if index < 0 ∨ length ≤ index.toNatClampNeg then .error (.indexOutOfRange index length)
    else .ok index.toNatClampNeg
  | _ => .error (.type (.arrayIndex value.kind))

def load (heap : Heap) (base index : Value) : Except Cause Value :=
  match base with
  | .array place => do
    let items := heap.items place
    return items.getD (← index.asIndex items.size) .none
  | .map place => do
    let key ← index.asKey
    match (heap.entries place)[key]? with
    | some value => return value
    | .none => throw (.key (.missing key))
  | .none => .error (.null .load)
  | _ => .error (.type (.notIndexed base.kind))

/-- The slot of a container that an index names for a store; a map has one for every key. -/
def slot (heap : Heap) (base index : Value) : Except Cause Heap.Slot :=
  match base with
  | .array place => (index.asIndex (heap.items place).size).map (.item place)
  | .map place => index.asKey.map (.entry place)
  | .none => .error (.null .store)
  | _ => .error (.type (.notAssigned base.kind))

def store (heap : Heap) (base index value : Value) : Except Cause Heap :=
  (base.slot heap index).map fun slot => heap.put slot value

end Value

end ScopedScript

/-
**Equality of values.**

Values are equal when they look the same from outside: the same numbers and texts, arrays with equal
items in order, maps with the same keys and equal values. Two containers that are being compared
already count as equal when they meet again inside themselves, so the comparison ends on cycles:

* `Value.sameWithin`: the comparison, given the pairs under comparison;
* `Value.same`: equality of two values on a heap.
-/

import ScopedScript.Value.Heap

namespace ScopedScript.Value

/-- Whether two values are equal, taking the pairs of containers in `assumed` as equal. No more than
`bound` pairs of containers lie inside one another. -/
def sameWithin (heap : Heap) : Nat → List (Value × Value) → Value → Value → Bool
  | _, _, .int first, .int second => first == second
  | _, _, .bool first, .bool second => first == second
  | _, _, .text first, .text second => first == second
  | _, _, .none, .none => true
  | 0, _, .array _, .array _ => true
  | bound + 1, assumed, .array first, .array second =>
    first == second || assumed.contains (.array first, .array second) ||
      ((heap.items first).size == (heap.items second).size &&
        ((heap.items first).toList.zip (heap.items second).toList).all fun pair =>
          sameWithin heap bound ((.array first, .array second) :: assumed) pair.1 pair.2)
  | 0, _, .map _, .map _ => true
  | bound + 1, assumed, .map first, .map second =>
    first == second || assumed.contains (.map first, .map second) ||
      ((heap.entries first).size == (heap.entries second).size &&
        ((heap.entries first).toList.zip (heap.entries second).toList).all fun pair =>
          pair.1.1 == pair.2.1 &&
            sameWithin heap bound ((.map first, .map second) :: assumed) pair.1.2 pair.2.2)
  | _, _, .function _ first, .function _ second => first == second
  | _, _, .builtin first, .builtin second => first == second
  | _, _, .file first, .file second => first == second
  | _, _, _, _ => false

/-- Whether two values are equal. The pairs of containers under comparison are different ones, so
the number of such pairs bounds the nesting. -/
def same (heap : Heap) (first second : Value) : Bool :=
  sameWithin heap (heap.size * heap.size + 1) [] first second

end ScopedScript.Value

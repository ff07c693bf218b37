/-
**Values.**

A value is a number, a truth value, a text, `None`, a reference to a shared array or map, a function,
or a reference to an open file. Arrays and maps live in a `Heap`; a value only names the place:

* `Kind`: what sort of value it is at run time, `Kind.ty` the static type that matches it;
* `Key`: the values that can key a map, in the order ints, texts, truth values.
-/

import Std.Data.TreeMap
import ScopedScript.Scope.Tree
import ScopedScript.Text.Bytes
import ScopedScript.Ty

namespace ScopedScript

/-- A file that was opened: the number of its handle, which no other opening has, and the path it was
opened by. -/
structure FileRef where
  handle : Nat
  path : String
deriving DecidableEq, Repr

/-- A value. -/
inductive Value where
  | int (value : Int64)
  | bool (value : Bool)
  | text (value : String)
  | none
  /-- An array, by its place in the heap. -/
  | array (place : Nat)
  /-- A map, by its place in the heap. -/
  | map (place : Nat)
  /-- A function of the program, by name and declaration. -/
  | function (name : String) (decl : DeclId)
  | builtin (name : String)
  | file (ref : FileRef)
deriving DecidableEq, Repr

instance : Inhabited Value := ⟨.none⟩

inductive Kind where
  | int | bool | string | array | map | none | file | function
deriving DecidableEq, Repr

namespace Kind

/-- The static type of values of this sort; functions have none. -/
def ty : Kind → Ty
  | .int => .int
  | .bool => .bool
  | .string => .string
  | .array => .array
  | .map => .map
  | .none => .none
  | .file => .file
  | .function => .unknown

def name : Kind → String
  | .function => "function"
  | kind => kind.ty.name

end Kind

namespace Value

def kind : Value → Kind
  | .int _ => .int
  | .bool _ => .bool
  | .text _ => .string
  | .none => .none
  | .array _ => .array
  | .map _ => .map
  | .function _ _ | .builtin _ => .function
  | .file _ => .file

def ty (value : Value) : Ty := value.kind.ty

end Value

/-! ### Keys -/

inductive Key where
  | int (value : Int64)
  | text (value : String)
  | bool (value : Bool)
deriving DecidableEq, Repr

namespace Key

/-- The order of keys: every int before every text before every truth value. -/
def order : Key → Key → Ordering
  | .int first, .int second => compare first second
  | .int _, _ => .lt
  | .text _, .int _ => .gt
  | .text first, .text second => Text.order first second
  | .text _, .bool _ => .lt
  | .bool first, .bool second => compare first second
  | .bool _, _ => .gt

instance : Ord Key := ⟨order⟩

def toValue : Key → Value
  | .int value => .int value
  | .text value => .text value
  | .bool value => .bool value

/-- The key that a value is, if it can be one. -/
def ofValue? : Value → Option Key
  | .int value => some (.int value)
  | .text value => some (.text value)
  | .bool value => some (.bool value)
  | _ => none

/-- Equal in the order means the same key. -/
theorem order_eq_iff {first second : Key} : order first second = .eq ↔ first = second := by
  cases first <;> cases second <;>
    simp [order, Text.order_eq_iff]

theorem order_swap (first second : Key) : (order first second).swap = order second first := by
  cases first <;> cases second <;>
    simp only [order, Ordering.swap_lt, Ordering.swap_gt, Text.order] <;>
    exact Std.OrientedOrd.eq_swap.symm

theorem isLE_trans {first second third : Key} (left : (order first second).isLE)
    (right : (order second third).isLE) : (order first third).isLE := by
  cases first <;> cases second <;> cases third <;>
    simp only [order, Text.order, Ordering.isLE_lt, Ordering.isLE_gt, Bool.false_eq_true] at * <;>
    exact Std.TransCmp.isLE_trans left right

instance : Std.TransOrd Key where
  eq_swap := (order_swap _ _).symm
  isLE_trans := isLE_trans

instance : Std.LawfulEqOrd Key where
  eq_of_compare := order_eq_iff.mp
  compare_self := order_eq_iff.mpr rfl

end Key

end ScopedScript

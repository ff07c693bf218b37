/-
**The heap.**

Arrays and maps are shared: values name them by their place, and every value that names one place
sees the same content. Places are never reused:

* `Heap.newArray`, `Heap.newMap`: a container at a new place;
* `Heap.items`, `Heap.entries`: what is at a place;
* `Heap.setItem`, `Heap.setEntry`: a change in place.
-/

import ScopedScript.Value

namespace ScopedScript

/-- The arrays and maps of a run, by place. -/
structure Heap where
  arrays : Array (Array Value)
  maps : Array (Std.TreeMap Key Value)

namespace Heap

def empty : Heap := ⟨#[], #[]⟩

def newArray (heap : Heap) (items : Array Value) : Value × Heap :=
  (.array heap.arrays.size, { heap with arrays := heap.arrays.push items })

def newMap (heap : Heap) (entries : Std.TreeMap Key Value) : Value × Heap :=
  (.map heap.maps.size, { heap with maps := heap.maps.push entries })

def items (heap : Heap) (place : Nat) : Array Value := heap.arrays.getD place #[]

def entries (heap : Heap) (place : Nat) : Std.TreeMap Key Value := heap.maps.getD place ∅

/-- Replaces an item of an array; the array keeps its length. -/
def setItem (heap : Heap) (place index : Nat) (value : Value) : Heap :=
  { heap with arrays := heap.arrays.modify place (·.setIfInBounds index value) }

def pushItem (heap : Heap) (place : Nat) (value : Value) : Heap :=
  { heap with arrays := heap.arrays.modify place (·.push value) }

def setEntry (heap : Heap) (place : Nat) (key : Key) (value : Value) : Heap :=
  { heap with maps := heap.maps.modify place (·.insert key value) }

/-- A slot of a container, where a value can be stored. -/
inductive Slot where
  | item (place index : Nat)
  | entry (place : Nat) (key : Key)
deriving DecidableEq, Repr

def put (heap : Heap) (slot : Slot) (value : Value) : Heap :=
  match slot with
  | .item place index => heap.setItem place index value
  | .entry place key => heap.setEntry place key value

def at? (heap : Heap) : Slot → Option Value
  | .item place index => (heap.items place)[index]?
  | .entry place key => (heap.entries place)[key]?

def size (heap : Heap) : Nat := heap.arrays.size + heap.maps.size

/-- The values that a container holds directly. -/
def parts (heap : Heap) : Value → List Value
  | .array place => (heap.items place).toList
  | .map place => (heap.entries place).values
  | _ => []

/-! ### What a change shows -/

theorem items_setItem_self (heap : Heap) (place index : Nat) (value : Value) :
    (heap.setItem place index value).items place =
      (heap.items place).setIfInBounds index value := by
  by_cases known : place < heap.arrays.size <;>
    simp [items, setItem, Array.getD, known, Array.getElem_modify]

theorem items_setItem_other (heap : Heap) {place other : Nat} (index : Nat) (value : Value)
    (different : other ≠ place) :
    (heap.setItem place index value).items other = heap.items other := by
  by_cases known : other < heap.arrays.size <;>
    simp [items, setItem, Array.getD, known, Array.getElem_modify, different.symm]

theorem entries_setEntry_self (heap : Heap) {place : Nat} (key : Key) (value : Value)
    (known : place < heap.maps.size) :
    (heap.setEntry place key value).entries place = (heap.entries place).insert key value := by
  simp [entries, setEntry, Array.getD, known, Array.getElem_modify]

theorem entries_setEntry_other (heap : Heap) {place other : Nat} (key : Key) (value : Value)
    (different : other ≠ place) :
    (heap.setEntry place key value).entries other = heap.entries other := by
  by_cases known : other < heap.maps.size <;>
    simp [entries, setEntry, Array.getD, known, Array.getElem_modify, different.symm]

end Heap

end ScopedScript

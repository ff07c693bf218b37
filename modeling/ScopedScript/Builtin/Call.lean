/-
**The built-in functions.**

What each built-in function does with its arguments and the world:

* `sortValues`: the items of an array in order;
* `Builtin.one`, `Builtin.two`, `Builtin.pick`: how the number and the sorts of arguments are checked;
* `Builtin.call`: the call of a built-in function;
* `Constant.value`: the values of the built-in names.
-/

import ScopedScript.Builtin.Signature
import ScopedScript.World

namespace ScopedScript

def allocate (items : Array Value) : Action Value :=
  modifyGet fun world =>
    let (value, heap) := world.heap.newArray items
    (value, { world with heap })

/-- Adds an array of a given size to the heap, if it is not too large. -/
def allocateSized (count : Int64) (item : Nat → Value) : Action Value := fun world =>
  if world.largest < count.toNatClampNeg then .error (.allocation count) world
  else allocate (Array.ofFn fun index : Fin count.toNatClampNeg => item index) world

def intValue (number : Nat) : Value := .int (Int64.ofNat number)

/-- How values are compared for sorting: ints, texts and truth values among themselves. All others
count as equal. -/
def Value.order : Value → Value → Ordering
  | .int first, .int second => compare first second
  | .text first, .text second => Text.order first second
  | .bool first, .bool second => compare first second
  | _, _ => .eq

/-- The items of an array in order, if they are all of one sort that has an order. -/
def sortValues : List Value → Except TypeFault (List Value)
  | [] => .ok []
  | first :: rest =>
    if first.kind = .int ∨ first.kind = .string ∨ first.kind = .bool then
      match (first :: rest).find? fun other => other.kind != first.kind with
      | some other => .error (.mixed first.kind other.kind)
      | none => .ok ((first :: rest).mergeSort fun one other => (one.order other).isLE)
    else .error (.unsorted first.kind)

def onFiles {α : Type} (operation : Files → Except FileFault α × Files) : Action α := do
  let result ← modifyGet fun world =>
    let (result, files) := operation world.files
    (result, { world with files })
  match result with
  | .ok value => return value
  | .error fault => throw (.file fault)

def emit (text : String) : Action Value := do
  let complete ← modifyGet fun world =>
    let (complete, output) := world.output.write text
    (complete, { world with output })
  if complete then return .none else throw (.file .outputLimit)

/-- A new array of the items of an array in order. -/
def sortArray (place : Nat) : Action Value := do
  match sortValues ((← get).heap.items place).toList with
  | .ok items => allocate items.toArray
  | .error fault => throw (.type fault)

def readInt (text : String) : Action Value :=
  match Decimal.read? text with
  | some value => return .int value
  | none => throw (.invalidInteger text)

def openPath (path mode : String) : Action Value := do
  let world ← get
  match world.files.openFile path mode with
  | .ok (ref, files) => set { world with files }; return .file ref
  | .error fault => throw (.file fault)

namespace Builtin

/-! ### Arguments -/

def one (builtin : Builtin) (args : List Value) (work : Value → Action Value) : Action Value :=
  match args with
  | [value] => work value
  | _ => throw (.type (.argumentCount builtin.name 1 args.length))

def two (builtin : Builtin) (args : List Value) (work : Value → Value → Action Value) :
    Action Value :=
  match args with
  | [first, second] => work first second
  | _ => throw (.type (.argumentCount builtin.name 2 args.length))

/-- Takes from an argument what is wanted, if it is of an accepted type. -/
def pick {α : Type} (builtin : Builtin) (accepted : List Ty) (wanted : Value → Option α)
    (value : Value) : Action α :=
  match wanted value with
  | some found => return found
  | none => throw (.type (.argument builtin.name accepted value.kind))

def asInt (builtin : Builtin) : Value → Action Int64 := builtin.pick [.int] fun
  | .int number => some number
  | _ => none

def asText (builtin : Builtin) : Value → Action String := builtin.pick [.string] fun
  | .text text => some text
  | _ => none

def asArray (builtin : Builtin) : Value → Action Nat := builtin.pick [.array] fun
  | .array place => some place
  | _ => none

def asFile (builtin : Builtin) : Value → Action FileRef := builtin.pick [.file] fun
  | .file ref => some ref
  | _ => none

/-- The length of an array or a map. -/
def length (builtin : Builtin) (value : Value) : Action Nat := do
  let heap := (← get).heap
  builtin.pick [.array, .map] (fun
    | .array place => some (heap.items place).size
    | .map place => some (heap.entries place).size
    | _ => none) value

/-! ### Calls -/

def call (builtin : Builtin) (args : List Value) : Action Value :=
  match builtin with
  | .range => builtin.one args fun value => do allocateSized (← builtin.asInt value) intValue
  | .indexer => builtin.one args fun
    | .map place => do allocate (((← get).heap.entries place).keys.map Key.toValue).toArray
    | value => do
      let length ← builtin.length value
      allocate (Array.ofFn fun index : Fin length => intValue index)
  | .sort => builtin.one args fun value => do sortArray (← builtin.asArray value)
  | .len => builtin.one args fun value => do return intValue (← builtin.length value)
  | .int => builtin.one args fun value => do readInt (← builtin.asText value)
  | .print => builtin.one args fun value => do emit (value.shown (← get).heap)
  | .println => builtin.one args fun value => do emit (value.shown (← get).heap ++ "\n")
  | .open_ => builtin.two args fun path mode => do
    openPath (← builtin.asText path) (← builtin.asText mode)
  | .close => builtin.one args fun value => do
    let ref ← builtin.asFile value
    onFiles (·.close ref)
    return .none
  | .read => builtin.one args fun value => do
    let ref ← builtin.asFile value
    match ← onFiles (·.readLine ref) with
    | some line => return .text line
    | none => return .none
  | .write => builtin.two args fun file value => do
    let ref ← builtin.asFile file
    let pieces := value.written (← get).heap
    onFiles (·.writeLine ref pieces)
    return .none

end Builtin

/-- The value of a built-in name, given the arguments of the program. -/
def Constant.value (args : List String) : Constant → Action Value
  | .true_ => pure (.bool true)
  | .false_ => pure (.bool false)
  | .none_ => pure .none
  | .args => allocate (args.map .text).toArray

end ScopedScript

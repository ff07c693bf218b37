/-
**References given up.**

A container or a file ends with the last reference to it. The end of a container gives up what it
holds, items by index and entries by key, before anything else is given up; the end of a file writes
out the bytes it keeps back. So the order in which references are given up is the order in which
files are written out. A container that leads back to itself always has a reference and never ends:

* `Heap.knotted`: the containers that such a container leads to;
* `World.references`: how many references there are to each container and file;
* `World.giveUp`: what becomes of the files when references are given up one by one;
* `World.release`: the world after that.
-/

import ScopedScript.World

namespace ScopedScript

/-- Whether a value is a reference to something that can end. -/
def Value.isReference : Value → Bool
  | .array _ | .map _ | .file _ => true
  | _ => false

namespace Heap

/-- The number of a container among all containers: arrays first, then maps. -/
def number? (heap : Heap) : Value → Option Nat
  | .array place => if place < heap.arrays.size then some place else none
  | .map place => if place < heap.maps.size then some (heap.arrays.size + place) else none
  | _ => none

def containers (heap : Heap) : List Value :=
  (List.range heap.arrays.size).map .array ++ (List.range heap.maps.size).map .map

/-- How many values all containers hold. -/
def weight (heap : Heap) : Nat :=
  heap.arrays.foldl (fun sum items => sum + items.size) 0 +
    heap.maps.foldl (fun sum entries => sum + entries.size) 0

end Heap

/-- Counts values by their numbers. -/
def tally (number? : Value → Option Nat) (counts : Array Nat) (values : List Value) : Array Nat :=
  values.foldl (fun counts value =>
    match number? value with
    | some number => counts.modify number (· + 1)
    | none => counts) counts

namespace Heap

/-! ### Containers in use -/

/-- Marks the containers that values lead to; each is followed once. -/
def mark (heap : Heap) : Nat → Array Bool → List Value → Array Bool
  | 0, marks, _ => marks
  | _ + 1, marks, [] => marks
  | steps + 1, marks, value :: rest =>
    match heap.number? value with
    | some number =>
      if marks.getD number true then mark heap steps marks rest
      else mark heap steps (marks.setIfInBounds number true) (heap.parts value ++ rest)
    | none => mark heap steps marks rest

def reachable (heap : Heap) (values : List Value) : List Value :=
  let marks := heap.mark (values.length + heap.weight + 1) (Array.replicate heap.size false) values
  heap.containers.filter fun value => (heap.number? value).any fun number => marks.getD number false

/-- Takes away the parts of containers that nothing holds, and so on. -/
def peel (heap : Heap) : Nat → Array Nat → List Value → Array Nat
  | 0, counts, _ => counts
  | _ + 1, counts, [] => counts
  | steps + 1, counts, value :: rest =>
    let (counts, rest) := (heap.parts value).foldl (fun (counts, rest) part =>
      match heap.number? part with
      | some number =>
        (counts.modify number (· - 1), if counts.getD number 0 = 1 then part :: rest else rest)
      | none => (counts, rest)) (counts, rest)
    peel heap steps counts rest

/-- The containers that a container leading back to itself leads to. -/
def knotted (heap : Heap) : List Value :=
  let held := fun (counts : Array Nat) value =>
    (heap.number? value).any fun number => counts.getD number 0 != 0
  let counts := heap.containers.foldl (fun counts value => tally heap.number? counts (heap.parts value))
    (Array.replicate heap.size 0)
  let left := heap.peel (heap.size + 1) counts (heap.containers.filter fun value => !held counts value)
  heap.containers.filter (held left)

end Heap

namespace World

/-! ### References -/

/-- The number of a container or a file: containers first, then files. -/
def number? (world : World) : Value → Option Nat
  | .file ref => if ref.handle < world.files.handles.size then some (world.heap.size + ref.handle) else none
  | value => world.heap.number? value

/-- How many references there are to each container and file, given those outside containers. -/
def references (world : World) (outside : List Value) : Array Nat :=
  let zeros := Array.replicate (world.heap.size + world.files.handles.size) 0
  (world.heap.reachable (outside ++ world.heap.knotted)).foldl
    (fun counts value => tally world.number? counts (world.heap.parts value))
    (tally world.number? zeros outside)

/-- Gives up references one by one; `counts` are the references to each container and file. -/
def giveUp (world : World) : Nat → Array Nat → Files → List Value → Files
  | 0, _, files, _ => files
  | _ + 1, _, files, [] => files
  | steps + 1, counts, files, value :: rest =>
    match world.number? value with
    | none => giveUp world steps counts files rest
    | some number =>
      let last := counts.getD number 0 ≤ 1
      let counts := counts.modify number (· - 1)
      if last then
        match value with
        | .file ref => giveUp world steps counts (files.abandon ref.handle) rest
        | _ => giveUp world steps counts files (world.heap.parts value ++ rest)
      else giveUp world steps counts files rest

/-- The world after the references in `gone` are given up in order, while those in `kept` stay. -/
def release (world : World) (kept gone : List Value) : World :=
  if world.keepsBytes && gone.any Value.isReference then
    let counts := world.references (kept ++ gone)
    { world with
      files := world.giveUp (gone.length + world.heap.weight + 1) counts world.files gone }
  else world

end World

end ScopedScript

/-
**What a run changes outside its variables.**

The containers, the files and the output. Built-in functions are actions on a world; an action that
fails keeps what it changed before:

* `World`, `Action`.
-/

import ScopedScript.File.Table
import ScopedScript.Output

namespace ScopedScript

/-- The containers, files and output of a run. -/
structure World where
  heap : Heap
  files : Files
  output : Output
  /-- The most items that a new array can have. -/
  largest : Nat

/-- A change of the world that gives a value or fails. -/
abbrev Action (α : Type) := EStateM Cause World α

namespace World

/-- The size of an array up to which memory suffices where nothing else is said. -/
def usualLargest : Nat := 1 <<< 28

/-- A world with no containers and nothing printed. -/
def new (folder : Folder) (limit : Option Nat) (largest : Nat := usualLargest) : World :=
  ⟨.empty, .new folder, .new limit, largest⟩

def keepsBytes (world : World) : Bool := world.files.handles.any Handle.keepsBytes

end World

end ScopedScript

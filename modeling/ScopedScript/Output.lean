/-
**The output of a run.**

What a run prints, with an optional limit on the number of bytes. Output takes bytes in order up to
the limit, and a text that does not fit as a whole fails after the part that fits:

* `Output.write`: what a text leaves in the output, and whether all of it was taken.
-/

namespace ScopedScript

/-- The bytes printed so far, and how many can be printed in all. -/
structure Output where
  bytes : ByteArray
  limit : Option Nat

namespace Output

def new (limit : Option Nat) : Output := ⟨.empty, limit⟩

/-- The part of a text that still fits. -/
def fitting (output : Output) (bytes : ByteArray) : ByteArray :=
  match output.limit with
  | none => bytes
  | some limit => bytes.extract 0 (limit - output.bytes.size)

/-- Prints a text as far as it fits; tells whether it fits as a whole. -/
def write (output : Output) (text : String) : Bool × Output :=
  let bytes := text.toUTF8
  let taken := output.fitting bytes
  (taken.size == bytes.size, { output with bytes := output.bytes ++ taken })

end Output

end ScopedScript

/-
**Settings of a run.**

What a definition that reuses a name means, and how deep calls may nest.
-/

namespace ScopedScript

/-- What to do when a definition reuses the name of a function of its scope, or of a built-in. -/
inductive Redeclaration where
  /-- It is an error. -/
  | refuse
  /-- The new definition takes the place of the old one for every later use. -/
  | shadow
deriving DecidableEq, Repr

structure Options where
  redeclaration : Redeclaration := .refuse
  /-- How many calls of functions of the program may be in progress at once. -/
  maxCallDepth : Nat := 200
deriving DecidableEq, Repr

end ScopedScript

/-
**Runs of the machine.**

A run is a number of steps. After every step, the references that it gave up are dealt with, so that
files end as soon as nothing refers to them:

* `Config.tidied`: a configuration after that;
* `Code.run`: a number of steps, unless the run ends before.
-/

import ScopedScript.Machine.Step

namespace ScopedScript

namespace Config

/-- Whether a reference was given up that no name stands for; only then can something end. -/
def hasLooseEnd (config : Config) : Bool :=
  config.store.world.keepsBytes &&
    config.store.gone.any fun value => !config.store.frames.any (· == value)

/-- A configuration in which the references given up are dealt with. -/
def tidied (config : Config) : Config :=
  if config.store.gone.isEmpty then config
  else
    let kept := if config.hasLooseEnd then some config.values else none
    match config with
    | ⟨control, pending, ⟨frames, depth, returning, world, gone, orders⟩⟩ =>
      let world :=
        match kept with
        | some kept => world.release kept gone
        | none => world
      ⟨control, pending, ⟨frames, depth, returning, world, [], orders⟩⟩

end Config

/-- How a run stands after a number of steps. -/
inductive Outcome where
  | value (value : Value)
  | fault (fault : Fault)
  | unfinished

namespace Code

def run (code : Code) : Nat → Config → Outcome × Store
  | 0, config => (.unfinished, config.store)
  | steps + 1, config =>
    match code.step config with
    | .next config => code.run steps config.tidied
    | .finished value store => (.value value, store)
    | .failed fault store => (.fault fault, store)

end Code

end ScopedScript

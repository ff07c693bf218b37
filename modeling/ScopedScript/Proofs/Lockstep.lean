/-
**Runs side by side.**

Two runs that do the same work, over frames that agree on what both look at, above work that may
differ:

* `Lockstep`: two configurations that do the same work;
* `Lockstep.step`: **one step** of both runs keeps them side by side;
* `Config.EndsApart`, `Lockstep.next`: so does what follows a step, unless giving up a reference writes
  out a file in one run and not in the other;
* `Code.ends?`: the first configuration in which some work is over.
-/

import ScopedScript.Proofs.Alike
import ScopedScript.Proofs.Run

set_option linter.unusedSectionVars false

namespace ScopedScript

/-- The frame in which a called function was declared: the nearest one of the scope around its own. -/
def Code.declaringFrame? (code : Code) (store : Store) (function : Function) : Option Nat :=
  store.frames.frameFor store.current
    ((code.analysis.tree.parent? (code.scopeOf store function.id)).getD ScopeTree.root)

/-- Both runs are in frames that they look at, and write those they may write. -/
def Terms.leave (terms : Terms) : Leave :=
  { Leave.free with sees := terms.Seen, writes := fun number => terms.Seen number ∧ terms.Writes number }

/-! ### The same work -/

/-- Two configurations that do the same work, each above work of its own, in as many frames more than
`low` as that work has. -/
inductive Lockstep (terms : Terms) (low : Nat) (bottom bottom' : List Pending) :
    Config → Config → Prop
  | mk {size : Nat} {store store' : Store} (control : Control) (upper : List Pending)
      (fits : size = low + upper.countP Pending.ownsFrame) (alike : store.Alike terms size store') :
    Lockstep terms low bottom bottom' ⟨control, upper ++ bottom, store⟩
      ⟨control, upper ++ bottom', store'⟩

namespace Lockstep

variable {terms : Terms} {low size : Nat} {bottom bottom' upper : List Pending} {work : Pending}
  {store store' : Store} {code : Code}

section Calls

variable (fits : size = low + upper.countP Pending.ownsFrame) (alike : store.Alike terms size store')

include fits alike

theorem perform (line : Nat) (action : Action Value) (given : List Value) :
    Lockstep terms low bottom bottom' (perform line action given (upper ++ bottom) store)
      (perform line action given (upper ++ bottom') store') := by
  obtain ⟨outcome, later, later', here, there, alike⟩ := alike.act action
  rw [ScopedScript.perform, ScopedScript.perform, here, there]
  cases outcome with
  | ok | error => exact .mk _ upper fits (alike.drop given)

theorem storeElement (line : Nat) (base index value : Value) :
    Lockstep terms low bottom bottom' (storeElement line base index value (upper ++ bottom) store)
      (storeElement line base index value (upper ++ bottom') store') := by
  obtain ⟨outcome, later, later', here, there, alike⟩ :=
    alike.act (replaceElement base index value)
  rw [ScopedScript.storeElement, ScopedScript.storeElement, here, there]
  cases outcome with
  | ok | error => exact .mk _ upper fits (alike.drop _)

variable (floor : terms.old ≤ low)

include floor

/-- A call, if the runs look at the frame in which the function was declared. -/
theorem invoke {node : NodeId} (args : List Value) (line : Nat)
    (around : ∀ function parent, code.functions[node]? = some function →
      code.declaringFrame? store function = some parent → terms.Seen parent) :
    Lockstep terms low bottom bottom' (code.invoke node args line (upper ++ bottom) store)
      (code.invoke node args line (upper ++ bottom') store') := by
  have failed : ∀ cause, Lockstep terms low bottom bottom'
      (fail line cause (upper ++ bottom) (store.drop args))
      (fail line cause (upper ++ bottom') (store'.drop args)) := fun cause =>
    .mk _ upper fits (alike.drop args)
  unfold Code.invoke
  cases known : code.functions[node]? with
  | none => exact failed _
  | some function =>
    simp only
    rw [alike.depth, alike.scopeOf, alike.current, alike.frames.frameFor]
    split
    · exact failed _
    · split
      · exact failed _
      · cases found : store.frames.frameFor store.current ((code.analysis.tree.parent?
            (code.scopeOf store function.id)).getD ScopeTree.root) with
        | none => exact failed _
        | some parent =>
          have pushed := alike.push (around function parent known found)
            (code.scopeOf store function.id)
          have entered := pushed.bindParams (by omega) function.params args
          refine .mk _ (.call :: upper) ?_ { entered with depth := congrArg (· + 1) entered.depth }
          rw [Pending.countP_cons, fits]
          rfl

/-- A call from a frame that the runs look at. -/
theorem dispatch (here : terms.Seen store.current) (callee : Ident) (line : Nat)
    (args : List Value) :
    Lockstep terms low bottom bottom' (code.dispatch callee line args (upper ++ bottom) store)
      (code.dispatch callee line args (upper ++ bottom') store') := by
  unfold Code.dispatch
  split
  · exact .mk _ upper fits (alike.drop args)
  · exact invoke fits alike floor args line fun function parent _ found =>
      Frames.frameFor_closed alike.frames.closed here found
  · split
    · exact perform fits alike _ _ _
    · exact .mk _ upper fits (alike.drop args)
  · exact .mk _ upper fits (alike.drop args)

end Calls

theorem of_tandem {owned calls : Nat} {next next' : Config} (floor : terms.old ≤ low)
    (fits : size = low + upper.countP Pending.ownsFrame)
    (tandem : code.Tandem terms.leave (upper ++ bottom) (upper ++ bottom') owned calls store store'
      next next') (alike : store.Alike terms (size + owned) store') :
    Lockstep terms low bottom bottom' next next' := by
  have within : terms.old ≤ size := by omega
  induction tandem with
  | go control => exact .mk control upper fits alike
  | @part owned one two control work _ _ owns =>
    refine .mk control (work :: upper) ?_ alike
    rw [Pending.countP_cons, owns, fits, Nat.add_assoc]
  | act line => exact perform fits alike line _ _
  | store line => exact storeElement fits alike line _ _ _
  | drop values _ ih => exact ih (alike.drop values)
  | push _ around _ ih => exact ih (alike.push around _)
  | pop _ ih => exact ih (alike.pop (Nat.le_add_right_of_le within))
  | bind permitted _ _ _ ih => exact ih (alike.bind permitted.1 permitted.2)
  | bindHere _ _ _ ih => exact ih (alike.bindHere within)
  | returning _ _ ih => exact ih { alike with returning := rfl }
  | returned _ ih => exact ih { alike with depth := congrArg (· - 1) alike.depth }

/-- **One step of both runs.** -/
theorem step {one two : Config} (floor : terms.old ≤ low)
    (lock : Lockstep terms low bottom bottom' one two) (here : terms.Seen one.store.current)
    (above : one.control.isOver = true → one.pending ≠ bottom)
    (permitted : ∀ event, code.assignment? one = some event → terms.Writes event.number) :
    ∃ next next', code.step one = .next next ∧ code.step two = .next next' ∧
      Lockstep terms low bottom bottom' next next' := by
  obtain @⟨size, store, store', control, upper, fits, alike⟩ := lock
  have busy : control.isOver = true → upper ≠ [] := by
    rintro ended rfl
    exact above ended rfl
  obtain ⟨top, rest, rfl, about⟩ := Control.exists_split busy
  rw [List.append_assoc] at permitted
  rw [List.append_assoc, List.append_assoc]
  rw [List.countP_append, Nat.add_left_comm, Nat.add_comm] at fits
  cases calls : Config.call? ⟨control, top ++ (rest ++ bottom), store⟩ with
  | some call =>
    obtain ⟨calls', same, bare, -⟩ := Config.of_call? about calls
    rw [bare] at fits
    refine ⟨_, _, Code.step_of_call? calls, Code.step_of_call? (calls' _ _), ?_⟩
    rw [same]
    exact dispatch fits alike floor here call.callee call.line call.args
  | none =>
    have twins : code.Twins store store' :=
      ⟨congrArg World.heap alike.world, alike.returning, alike.current, fun _ => alike.scopeOf,
        alike.frames.frameFor _, fun _ name => alike.lookup here name⟩
    have covers : terms.leave.Covers code ⟨control, top ++ (rest ++ bottom), store⟩ := by
      refine { Leave.free_covers code _ with here := here, assigned := ?_ }
      rintro value name line below resolution number rfl shape noted found
      refine ⟨Frames.frameFor_closed alike.frames.closed here found,
        permitted ⟨number, name.name, resolution.decl⟩ ?_⟩
      change top ++ (rest ++ bottom) = _ at shape
      simp [Code.assignment?, shape, noted, found]
    obtain ⟨next, next', step, step', tandem⟩ := Code.step_tandem twins covers calls about
    exact ⟨next, next', step, step', of_tandem floor rfl tandem (fits ▸ alike)⟩

end Lockstep

/-! ### References given up -/

/-- Giving up references changes nothing but files. -/
theorem World.release_eq (world : World) (kept gone : List Value) :
    world.release kept gone = { world with files := (world.release kept gone).files } := by
  unfold World.release
  split <;> rfl

namespace Config

variable (config : Config)

theorem tidied_eq : config.tidied = ⟨config.control, config.pending,
    { config.store with world := config.tidied.store.world, gone := [] }⟩ := by
  obtain ⟨control, pending, ⟨frames, depth, returning, world, gone⟩⟩ := config
  unfold tidied
  split
  · rename_i empty
    obtain rfl : gone = [] := List.isEmpty_iff.mp empty
    rfl
  · rfl

theorem tidied_world : config.tidied.store.world =
    { config.store.world with files := config.tidied.store.world.files } := by
  unfold tidied
  split
  · rfl
  · simp only
    split
    · exact World.release_eq _ _ _
    · rfl

/-- Without bytes kept back, nothing is written out. -/
theorem tidied_world_of_flushed (flushed : config.store.world.keepsBytes = false) :
    config.tidied.store.world = config.store.world := by
  unfold tidied
  split
  · rfl
  · simp only [hasLooseEnd, flushed, Bool.false_and, Bool.false_eq_true, if_false]

end Config

/-- Two configurations give up the same references in the same world, where some file keeps bytes back,
and this ends files in one of them that something in the other still refers to. -/
structure Config.EndsApart (one two : Config) : Prop where
  gone : two.store.gone = one.store.gone
  world : two.store.world = one.store.world
  keepsBytes : one.store.world.keepsBytes = true
  files : two.tidied.store.world.files ≠ one.tidied.store.world.files

theorem Config.not_endsApart (config : Config) : ¬ config.EndsApart config :=
  fun apart => apart.files rfl

namespace Lockstep

variable {terms : Terms} {low : Nat} {bottom bottom' : List Pending} {code : Code}
  {one two : Config}

variable (lock : Lockstep terms low bottom bottom' one two)

include lock

/-- What two configurations that do the same work have in common. -/
theorem exists_upper :
    ∃ upper, two.control = one.control ∧ one.pending = upper ++ bottom ∧
      two.pending = upper ++ bottom' ∧
      one.store.Alike terms (low + upper.countP Pending.ownsFrame) two.store := by
  obtain ⟨control, upper, rfl, alike⟩ := lock
  exact ⟨upper, rfl, rfl, rfl, alike⟩

/-- Both runs deal with the references given up, and do so in the same way or end apart. -/
theorem tidied :
    one.EndsApart two ∨ Lockstep terms low bottom bottom' one.tidied two.tidied := by
  obtain ⟨control, upper, fits, alike⟩ := lock
  rename_i size store store'
  generalize first : (⟨control, upper ++ bottom, store⟩ : Config) = one
  generalize second : (⟨control, upper ++ bottom', store'⟩ : Config) = two
  have world : two.store.world = one.store.world := by
    rw [← first, ← second]
    exact alike.world
  by_cases same : two.tidied.store.world.files = one.tidied.store.world.files
  · right
    have after : two.tidied.store.world = one.tidied.store.world := by
      rw [two.tidied_world, one.tidied_world, world, same]
    rw [one.tidied_eq, two.tidied_eq, after, ← first, ← second]
    exact .mk control upper fits { alike with world := rfl, gone := rfl }
  · refine .inl ⟨by rw [← first, ← second]; exact alike.gone, world, ?_, same⟩
    by_contra flushed
    rw [Bool.not_eq_true] at flushed
    rw [two.tidied_world_of_flushed (world ▸ flushed), one.tidied_world_of_flushed flushed,
      world] at same
    exact same rfl

/-- **One step of both runs, with what follows it.** -/
theorem next (floor : terms.old ≤ low)
    (here : terms.Seen one.store.current)
    (above : one.control.isOver = true → one.pending ≠ bottom)
    (permitted : ∀ event, code.assignment? one = some event → terms.Writes event.number) :
    (∃ middle middle', code.step one = .next middle ∧ code.step two = .next middle' ∧
      middle.EndsApart middle') ∨
    ∃ next next', code.next? one = some next ∧ code.next? two = some next' ∧
      Lockstep terms low bottom bottom' next next' := by
  obtain ⟨middle, middle', step, step', lock⟩ := lock.step floor here above permitted
  rcases lock.tidied with apart | lock
  · exact .inl ⟨middle, middle', step, step', apart⟩
  · refine .inr ⟨_, _, ?_, ?_, lock⟩
    · rw [Code.next?, step]
    · rw [Code.next?, step']

/-- The frame in use is one that the runs made, or the last one there was before. -/
theorem current_seen (floor : terms.old ≤ low)
    (last : terms.Seen (low - 1)) : terms.Seen one.store.current := by
  obtain ⟨control, upper, fits, alike⟩ := lock
  rename_i size store store'
  have newest : store.current = size - 1 := by
    rw [Store.current, Frames.newest, alike.frames.size_one]
  show terms.Seen store.current
  rw [newest]
  rcases Nat.eq_zero_or_pos (upper.countP Pending.ownsFrame) with none | some
  · rw [none, Nat.add_zero] at fits
    rwa [fits]
  · exact .inr (by omega)

end Lockstep

/-! ### The end of some work -/

namespace Code

variable {code : Code} {steps : Nat} {below : List Pending} {config last : Config}

/-- The configuration after a number of steps, if the work above `below` is over then, and not
before. -/
def ends? (code : Code) (steps : Nat) (below : List Pending) (config : Config) : Option Config :=
  (code.after steps config).filter fun last =>
    last.control.isOver = true ∧ last.pending.length = below.length ∧
      ∀ earlier < steps, (code.after earlier config).all fun middle =>
        middle.control.isOver = true → below.length < middle.pending.length

theorem of_ends? (found : code.ends? steps below config = some last) :
    code.after steps config = some last ∧ last.control.isOver = true ∧
      last.pending.length = below.length ∧ code.Lasts steps config below := by
  obtain ⟨reached, passes⟩ := Option.filter_eq_some_iff.mp found
  obtain ⟨finished, short, longer⟩ := of_decide_eq_true passes
  refine ⟨reached, finished, short, ?_⟩
  intro earlier early middle before ended same
  have above := (Option.all_eq_true _ _).mp (longer earlier early) middle before
  have above := of_decide_eq_true above ended
  rw [same] at above
  exact Nat.lt_irrefl _ above

end Code

end ScopedScript

/-
**Runs with a higher limit on calls.**

The limit on calls in progress is looked at in one place only, where a function of the program is called.
With a higher limit a run is the same, step by step, unless and until the lower limit ends it:

* `Code.deepened`: the same code under another limit;
* `Code.step_deepened`: **one step** under a higher limit is the same, or the lower limit fails it;
* `Code.run_deepened`: so is a whole run, and where the lower limit fails it the other only prints more;
* `Script.deepening_conserves`: raising the limit keeps every run that the lower limit does not end.
-/

import ScopedScript.Proofs.CallFailure
import ScopedScript.Proofs.Emission

namespace ScopedScript

namespace Code

variable {code : Code} {depth : Nat}

/-- The same code under another limit on calls. -/
def deepened (code : Code) (depth : Nat) : Code := { code with maxCallDepth := depth }

/-! ### Steps -/

/-- A step that makes no call does not look at the limit. -/
theorem step_of_no_call {config : Config} (idle : config.call? = none) :
    (code.deepened depth).step config = code.step config := by
  obtain ⟨control, pending, store⟩ := config
  cases control with
  | eval expr =>
    cases expr with
    | call tag callee args =>
      cases args with
      | nil => cases idle
      | cons => rfl
    | _ => rfl
  | exec | enter => rfl
  | resume value =>
    cases pending with
    | nil => rfl
    | cons work pending =>
      cases work with
      | args callee line before rest =>
        cases rest with
        | nil => cases idle
        | cons => rfl
      | _ => rfl
  | unwind =>
    cases pending with
    | nil | cons => rfl

section Calls

variable (deeper : code.maxCallDepth ≤ depth) (args : List Value) (line : Nat)
  (pending : List Pending) (store : Store)

include deeper

theorem invoke_deepened (node : NodeId) :
    (code.deepened depth).invoke node args line pending store =
      code.invoke node args line pending store ∨
    code.invoke node args line pending store =
      fail line (.callDepth code.maxCallDepth) pending (store.drop args) := by
  have functions : (code.deepened depth).functions = code.functions := rfl
  unfold invoke
  rw [functions]
  cases code.functions[node]? with
  | none => exact .inl rfl
  | some function =>
    dsimp only
    by_cases count : args.length ≠ function.params.length
    · left
      rw [if_pos count, if_pos count]
    · rw [if_neg count, if_neg count]
      by_cases full : code.maxCallDepth ≤ store.depth
      · right
        rw [if_pos full]
      · have free : ¬ (code.deepened depth).maxCallDepth ≤ store.depth := fun high =>
          full (Nat.le_trans deeper high)
        left
        rw [if_neg full, if_neg free]
        rfl

theorem dispatch_deepened (callee : Ident) :
    (code.deepened depth).dispatch callee line args pending store =
      code.dispatch callee line args pending store ∨
    code.dispatch callee line args pending store =
      fail line (.callDepth code.maxCallDepth) pending (store.drop args) := by
  have resolved : (code.deepened depth).resolved? = code.resolved? := rfl
  unfold dispatch
  rw [resolved]
  split
  · exact .inl rfl
  · exact invoke_deepened deeper args line pending store _
  · exact .inl rfl
  · exact .inl rfl

end Calls

/-- **One step under a higher limit** is the same, or the lower limit fails it. -/
theorem step_deepened (deeper : code.maxCallDepth ≤ depth) (config : Config) :
    (code.deepened depth).step config = code.step config ∨
    ∃ line pending store, code.step config =
        .next (fail line (.callDepth code.maxCallDepth) pending store) ∧
      store.world.output = config.store.world.output := by
  cases about : config.call? with
  | none => exact .inl (step_of_no_call about)
  | some call =>
    rw [step_of_call? about, step_of_call? about]
    rcases dispatch_deepened deeper call.args call.line call.below config.store call.callee with
      same | fails
    · exact .inl (congrArg Progress.next same)
    · exact .inr ⟨_, _, _, congrArg Progress.next fails, rfl⟩

/-! ### Runs -/

theorem run_grows_add (steps more : Nat) (config : Config) :
    (code.run steps config).2.world.output.Extends
      (code.run (steps + more) config).2.world.output := by
  induction steps generalizing config with
  | zero =>
    rw [Nat.zero_add]
    exact run_grows more config
  | succ steps ih =>
    rw [Nat.succ_add, run, run]
    cases code.step config with
    | next next => exact ih next.tidied
    | finished | failed => exact .refl _

/-- **A run under a higher limit** is the same unless the lower limit ends it, and then it only prints
more. -/
theorem run_deepened (deeper : code.maxCallDepth ≤ depth) {steps : Nat} {config : Config}
    (ended : (code.run steps config).1 ≠ .unfinished) :
    (code.deepened depth).run steps config = code.run steps config ∨
    (∃ line, (code.run steps config).1 = .fault ⟨line, .callDepth code.maxCallDepth⟩) ∧
      (code.run steps config).2.world.output.Extends
        ((code.deepened depth).run steps config).2.world.output := by
  induction steps generalizing config with
  | zero => exact .inl rfl
  | succ steps ih =>
    rcases step_deepened deeper config with same | ⟨line, pending, store, fails, output⟩
    · cases step : code.step config with
      | next next =>
        rw [step] at same
        rw [run_next step] at ended ⊢
        rw [run_next same]
        exact ih ended
      | finished | failed =>
        left
        rw [run, run, same, step]
    · have grown := (code.deepened depth).run_grows (steps + 1) config
      rw [run_next fails] at ended ⊢
      obtain ⟨later, ends, kept⟩ := code.run_unwind (Config.tidied_control _) (pending_lt ended)
      rw [output_tidied] at kept
      rw [ends]
      exact .inr ⟨⟨line, rfl⟩, kept.trans output ▸ grown⟩

end Code

namespace Script

variable {source : String} {options : Options} {script : Script} {depth : Nat}

/-- The same script under another limit on calls. -/
def deepened (script : Script) (depth : Nat) : Script :=
  { script with options := { script.options with maxCallDepth := depth } }

theorem compile_deepened (compiled : Script.compile source options = .ok script) :
    Script.compile source { options with maxCallDepth := depth } = .ok (script.deepened depth) := by
  obtain ⟨lexemes, scanned, compiled⟩ := ok_of_bind compiled
  obtain ⟨program, parsed, compiled⟩ := ok_of_bind compiled
  obtain ⟨analysis, analyzed, compiled⟩ := ok_of_bind compiled
  cases compiled
  have analyzed' : program.analyze { options with maxCallDepth := depth } = .ok analysis := analyzed
  simp only [Script.compile, Script.ofProgram, scanned, parsed, analyzed', bind, Except.bind]
  rfl

/-- **Raising the limit on calls conserves runs.** What compiles under a limit compiles under a higher
one. A run that ends under the lower limit, and not because of it, has the same end and leaves the same
world under the higher one, after as many steps. If it ends because of the limit, then what it printed
is the beginning of what the run under the higher limit prints, if that ends. Both runs have the same
host. -/
theorem deepening_conserves (compiled : Script.compile source options = .ok script)
    (deeper : options.maxCallDepth ≤ depth) :
    ∃ deep, Script.compile source { options with maxCallDepth := depth } = .ok deep ∧
      ∀ host steps,
        (script.endingAfter steps host).outcome ≠ .unfinished →
        ((∀ line, (script.endingAfter steps host).outcome ≠
            .fault ⟨line, .callDepth options.maxCallDepth⟩) →
          deep.endingAfter steps host = script.endingAfter steps host) ∧
        (∀ line, (script.endingAfter steps host).outcome =
            .fault ⟨line, .callDepth options.maxCallDepth⟩ →
          ∀ more, (deep.endingAfter more host).outcome ≠ .unfinished →
            ∃ rest, (deep.endingAfter more host).world.output.bytes =
              (script.endingAfter steps host).world.output.bytes ++ rest) := by
  refine ⟨script.deepened depth, compile_deepened compiled, fun host steps ended => ?_⟩
  obtain ⟨-, -, same⟩ := of_compile compiled
  have high : script.code.maxCallDepth = options.maxCallDepth := congrArg Options.maxCallDepth same
  have compared := Code.run_deepened (high ▸ deeper) (closing_unfinished ended)
  rw [high] at compared
  constructor
  · intro spared
    rcases compared with same | ⟨⟨line, fails⟩, -⟩
    · exact congrArg closing same
    · exact absurd (closing_fault fails) (spared line)
  · intro line _ more ended'
    have grown : (script.code.run steps (script.start host)).2.world.output.Extends
        ((script.code.deepened depth).run steps (script.start host)).2.world.output := by
      rcases compared with same | ⟨-, grown⟩
      · rw [same]
        exact .refl _
      · exact grown
    have onward := grown.trans
      ((script.code.deepened depth).run_grows_add steps more (script.start host))
    have finished : ((script.code.deepened depth).run more (script.start host)).1 ≠
      .unfinished := closing_unfinished ended'
    rw [Nat.add_comm, Code.run_add finished] at onward
    obtain ⟨rest, adds⟩ := onward.bytes
    refine ⟨rest, ?_⟩
    calc ((script.deepened depth).endingAfter more host).world.output.bytes
        = ((script.code.deepened depth).run more (script.start host)).2.world.output.bytes :=
          congrArg Output.bytes (closing_output _)
      _ = (script.code.run steps (script.start host)).2.world.output.bytes ++ rest := adds
      _ = (script.endingAfter steps host).world.output.bytes ++ rest :=
          congrArg (fun output : Output => output.bytes ++ rest) (closing_output _).symm

/-- A function that counts down, by calls of itself. -/
def countdown : String :=
  "\n".intercalate ["def down(n):", "  println(n)", "  if n > 0:", "    down(n - 1)", "  end", "end",
    "down(3)", ""]

/-- Four calls are enough, and then nine change nothing. Of two calls the first two lines are left. -/
theorem deepening_conserves_countdown :
    (∃ script deep, Script.compile countdown { maxCallDepth := 4 } = .ok script ∧
      Script.compile countdown { maxCallDepth := 9 } = .ok deep ∧
      (script.endingAfter 200 .bare).outcome = .value .none ∧
      deep.endingAfter 200 .bare = script.endingAfter 200 .bare) ∧
    ∃ script deep, Script.compile countdown { maxCallDepth := 2 } = .ok script ∧
      Script.compile countdown { maxCallDepth := 9 } = .ok deep ∧
      (script.endingAfter 200 .bare).outcome = .fault ⟨4, .callDepth 2⟩ ∧
      ∃ rest, (deep.endingAfter 200 .bare).world.output.bytes =
        (script.endingAfter 200 .bare).world.output.bytes ++ rest := by
  constructor
  · obtain ⟨script, compiled, outcome⟩ : ∃ script,
        Script.compile countdown { maxCallDepth := 4 } = .ok script ∧
          (script.endingAfter 200 .bare).outcome = .value .none :=
      exists_compiled (fun script => (script.endingAfter 200 .bare).outcome = .value .none)
        (by decide +kernel) fun _ _ passes => of_decide_eq_true passes
    obtain ⟨deep, compiled', runs⟩ := deepening_conserves compiled (show 4 ≤ 9 by decide)
    obtain ⟨same, -⟩ := runs .bare 200 (by rw [outcome]; exact nofun)
    exact ⟨script, deep, compiled, compiled', outcome, same (by rw [outcome]; exact nofun)⟩
  · obtain ⟨script, compiled, outcome⟩ : ∃ script,
        Script.compile countdown { maxCallDepth := 2 } = .ok script ∧
          (script.endingAfter 200 .bare).outcome = .fault ⟨4, .callDepth 2⟩ :=
      exists_compiled
        (fun script => (script.endingAfter 200 .bare).outcome = .fault ⟨4, .callDepth 2⟩)
        (by decide +kernel) fun _ _ passes => of_decide_eq_true passes
    obtain ⟨deep, compiled', runs⟩ := deepening_conserves compiled (show 2 ≤ 9 by decide)
    obtain ⟨-, cut⟩ := runs .bare 200 (by rw [outcome]; exact nofun)
    have ended : (Script.compile countdown { maxCallDepth := 9 }).toOption.any (fun deep =>
        (deep.endingAfter 200 .bare).outcome = .value .none) = true := by decide +kernel
    rw [compiled'] at ended
    have ended : (deep.endingAfter 200 .bare).outcome = .value .none :=
      of_decide_eq_true ended
    exact ⟨script, deep, compiled, compiled', outcome,
      cut 4 outcome 200 (by rw [ended]; exact nofun)⟩

end Script

end ScopedScript

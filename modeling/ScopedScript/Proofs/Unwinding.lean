/-
**Work that waits.**

Whatever a step does, it leaves in place the work below the work that it is about:

* `Code.Tandem.suffix`, `Code.suffix_dispatch`: changes of the store, and calls;
* `Code.suffix_step`: **one step** ends at most one work that waits;
* `Code.pending_lt`: a run that ends takes more steps than work waits.
-/

import ScopedScript.Proofs.Refinement

namespace ScopedScript

variable {code : Code} {pending : List Pending} {store : Store}

theorem settle_pending (line : Nat) (result : Except Cause Value) :
    (settle line result pending store).pending = pending := by
  cases result <;> rfl

theorem perform_pending (line : Nat) (action : Action Value) (given : List Value) :
    (perform line action given pending store).pending = pending := by
  rw [perform_eq_settle, settle_pending]

theorem storeElement_pending (line : Nat) (base index value : Value) :
    (storeElement line base index value pending store).pending = pending := by
  unfold storeElement
  split <;> rfl

theorem Code.Tandem.suffix {leave : Leave} {below below' : List Pending} {owned calls : Nat}
    {one two : Store} {next next' : Config}
    (tandem : code.Tandem leave below below' owned calls one two next next') : below <:+ next.pending := by
  induction tandem with
  | go => exact List.suffix_rfl
  | part => exact List.suffix_cons _ _
  | act line => exact (perform_pending line _ _).symm ▸ List.suffix_rfl
  | store line => exact (storeElement_pending line _ _ _).symm ▸ List.suffix_rfl
  | drop _ _ ih | push _ _ _ ih | pop _ ih | bind _ _ _ _ ih | bindHere _ _ _ ih | returning _ _ ih
  | returned _ ih => exact ih

namespace Code

theorem suffix_dispatch (callee : Ident) (line : Nat) (args : List Value) :
    pending <:+ (code.dispatch callee line args pending store).pending := by
  refine dispatch_rule callee (fun cause => List.suffix_rfl)
    (fun _ _ _ _ => List.suffix_cons _ _) fun builtin => ?_
  exact (perform_pending line _ _).symm ▸ List.suffix_rfl

/-- **One step** leaves the work below the work that it is about. -/
theorem suffix_step {control : Control} {top below : List Pending} {next : Config}
    (about : top.length = control.isOver.toNat)
    (step : code.step ⟨control, top ++ below, store⟩ = .next next) : below <:+ next.pending := by
  rcases step_cases (Leave.free_covers code _) about step with ⟨call, -, -, -, rfl⟩ | tandem
  · exact suffix_dispatch call.callee call.line call.args
  · exact tandem.suffix

theorem run_next {steps : Nat} {config next : Config} (step : code.step config = .next next) :
    code.run (steps + 1) config = code.run steps next.tidied := by
  rw [run, step]

/-- A value ends a run only when no work waits. -/
theorem step_finished {config : Config} {value : Value} {store : Store}
    (step : code.step config = .finished value store) : config = ⟨.resume value, [], store⟩ := by
  unfold Code.step at step
  split at step <;> cases step
  rfl

/-- **A run that ends takes more steps than work waits.** -/
theorem pending_lt {steps : Nat} {config : Config}
    (ended : (code.run steps config).1 ≠ .unfinished) : config.pending.length < steps := by
  induction steps generalizing config with
  | zero => exact absurd rfl ended
  | succ steps ih =>
    cases step : code.step config with
    | next next =>
      rw [run_next step] at ended
      have fewer := ih ended
      obtain ⟨control, top, below, store, rfl, about⟩ := split_of_step step
      have shorter := (suffix_step about step).length_le
      have one : top.length ≤ 1 := about ▸ Bool.toNat_le _
      rw [Config.tidied_pending] at fewer
      rw [List.length_append]
      omega
    | finished value store =>
      rw [step_finished step]
      exact Nat.succ_pos _
    | failed fault store =>
      rw [step_failed step]
      exact Nat.succ_pos _

end Code

end ScopedScript

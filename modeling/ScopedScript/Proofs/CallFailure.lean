/-
**Failures of calls.**

A call fails in ways of its own: nothing can be called by its name, the number of arguments is not the
right one, or too many calls are in progress. Nothing else fails in these ways, neither operators nor
the work of built-in functions:

* `Cause.ofCall`: those failures;
* `Spares`, `Action.Spares`: a computation or an action without them, like all that fail at their work;
* `Builtin.call_spares`: a built-in function that gets as many arguments as it takes;
* `Config.call?`: the call that a configuration is about to make, with the values of its arguments.
-/

import ScopedScript.Proofs.Operation

namespace ScopedScript

/-- The failures of a call itself. -/
def Cause.ofCall : Cause → Bool
  | .callDepth _ => true
  | .type (.notProvided _) | .type (.notFunction _) | .type .undefined
  | .type (.argumentCount ..) => true
  | _ => false

/-- A computation does not fail as calls do. -/
def Spares {α : Type} : Except Cause α → Prop
  | .ok _ => True
  | .error cause => cause.ofCall = false

theorem Cause.ofCall_of_work {cause : Cause} (work : cause.ofWork = true) : cause.ofCall = false := by
  cases cause with
  | type fault => cases fault <;> first | rfl | cases work
  | callDepth => cases work
  | _ => rfl

theorem Works.spares {α : Type} {good : α → Prop} {result : Except Cause α}
    (works : Works good result) : Spares result := by
  cases result with
  | ok => trivial
  | error => exact Cause.ofCall_of_work works

theorem Code.lookup_spares (code : Code) (store : Store) (node : NodeId) (name : String) :
    Spares (code.lookup store node name) := by
  unfold Code.lookup
  split
  · trivial
  · trivial
  · split
    · trivial
    · exact rfl
  · exact rfl

/-! ### Actions -/

/-- An action does not fail as calls do. -/
def Action.Spares {α : Type} (action : Action α) : Prop :=
  ∀ world, match action world with
    | .ok _ _ => True
    | .error cause _ => cause.ofCall = false

theorem Action.Works.spares {α : Type} {good : α → Prop} {action : Action α}
    (works : action.Works good) : action.Spares := by
  intro world
  have ends := works world
  cases result : action world with
  | ok => trivial
  | error =>
    rw [result] at ends
    exact Cause.ofCall_of_work ends

theorem Action.Spares.act {α : Type} {action : Action α} (spares : action.Spares) (store : Store) :
    ScopedScript.Spares (store.act action).1 := by
  obtain ⟨frames, depth, returning, world, gone⟩ := store
  have here := spares world
  simp only [Store.act]
  cases result : action world with
  | ok => trivial
  | error =>
    rw [result] at here
    exact here

/-- **A built-in function that gets as many arguments as it takes** refuses none for their number. -/
theorem Builtin.call_spares (builtin : Builtin) {args : List Value}
    (count : args.length = builtin.signature.arity) : Action.Spares (builtin.call args) := by
  intro world
  cases taken : builtin.takes args with
  | false =>
    obtain ⟨pair, -, -, complaint⟩ := refusal_eq count taken
    rw [call_refused taken, complaint]
    exact rfl
  | true =>
    have ends := call_ends taken world
    cases result : builtin.call args world with
    | ok => trivial
    | error =>
      rw [result] at ends
      exact Cause.ofCall_of_work ends.1

/-! ### Calls about to be made -/

/-- A call whose arguments all have their values. -/
structure Call where
  callee : Ident
  line : Nat
  args : List Value
  /-- The work that waits for the call. -/
  below : List Pending

/-- The call that a configuration is about to make. -/
def Config.call? : Config → Option Call
  | ⟨.eval (.call tag callee []), below, _⟩ => some ⟨callee, tag.position.line, [], below⟩
  | ⟨.resume value, .args callee line before [] :: below, _⟩ =>
    some ⟨callee, line, (before.push value).toList, below⟩
  | _ => none

theorem Code.step_of_call? {code : Code} {config : Config} {call : Call}
    (about : config.call? = some call) : code.step config =
      .next (code.dispatch call.callee call.line call.args call.below config.store) := by
  unfold Config.call? at about
  split at about <;> cases about <;> rfl

end ScopedScript

/-
**What operations give.**

What operators and built-in functions give, whatever the world is like: a value of the type that
their form says, or a failure, which is never that of a name without a value:

* `Cause.isUnbound`: that failure;
* `Works`, `Action.Works`: a computation or an action that gives a value or fails at its work;
* `BinaryOp.apply_works`, `Builtin.call_gives` and others: operators and built-in functions.
-/

import ScopedScript.Machine.Step
import ScopedScript.Proofs.Outcome

namespace ScopedScript

/-- The failure of a name that has no value. -/
def Cause.isUnbound : Cause → Bool
  | .unbound _ => true
  | _ => false

theorem Cause.isUnbound_of_work {cause : Cause} (work : cause.ofWork = true) :
    cause.isUnbound = false := by
  cases cause <;> first | rfl | cases work

/-- A computation gives a value that passes a test, or fails at its work. -/
def Works {α : Type} (good : α → Prop) : Except Cause α → Prop
  | .ok value => good value
  | .error cause => cause.ofWork = true

theorem Works.map {α β : Type} {good : α → Prop} {better : β → Prop} {result : Except Cause α}
    {f : α → β} (works : Works good result) (better_of : ∀ value, good value → better (f value)) :
    Works better (result.map f) := by
  cases result with
  | ok value => exact better_of value works
  | error cause => exact works

theorem Works.bind {α β : Type} {good : α → Prop} {better : β → Prop} {result : Except Cause α}
    {f : α → Except Cause β} (works : Works good result)
    (next : ∀ value, good value → Works better (f value)) : Works better (result >>= f) := by
  cases result with
  | ok value => exact next value works
  | error cause => exact works

/-! ### Operators -/

theorem BinaryOp.arithmetic_works (op : BinaryOp) (left right : Int64) :
    Works (fun _ => True) (op.arithmetic left right) := by
  cases op with
  | div | mod =>
    rw [arithmetic]
    split
    · exact rfl
    · trivial
  | add | sub | mul => trivial
  | _ => exact rfl

/-- An operator other than `and` and `or` gives a value of its type. -/
theorem BinaryOp.apply_works (heap : Heap) (op : BinaryOp) (left right : Value) :
    Works (fun value => op.kind ≠ .logical → value.ty = Typing.resultOf op)
      (op.apply heap left right) := by
  unfold BinaryOp.apply Typing.resultOf
  cases kind : op.kind with
  | equality => exact fun _ => rfl
  | ordering =>
    dsimp only
    split
    · exact fun _ => rfl
    · exact fun _ => rfl
    · exact rfl
  | arithmetic =>
    dsimp only
    split
    · exact (op.arithmetic_works _ _).map fun _ _ _ => rfl
    · exact rfl
  | logical =>
    dsimp only
    split
    · exact (op.arithmetic_works _ _).map fun _ _ other => absurd rfl other
    · exact rfl

/-- The type of what a unary operator gives. -/
def UnaryOp.resultOf : UnaryOp → Ty
  | .neg => .int
  | .not => .bool

theorem UnaryOp.apply_works (op : UnaryOp) (operand : Value) :
    Works (fun value => value.ty = op.resultOf) (op.apply operand) := by
  cases op <;> cases operand <;> exact rfl

theorem Value.asKey_works (value : Value) : Works (fun _ => True) value.asKey := by
  cases value <;> trivial

theorem Value.asIndex_works (value : Value) (length : Nat) :
    Works (fun _ => True) (value.asIndex length) := by
  cases value with
  | int index =>
    simp only [Value.asIndex]
    split
    · exact rfl
    · trivial
  | _ => exact rfl

theorem Value.load_works (heap : Heap) (base index : Value) :
    Works (fun _ => True) (base.load heap index) := by
  cases base with
  | array place => exact (index.asIndex_works _).bind fun _ _ => trivial
  | map place =>
    refine index.asKey_works.bind fun key _ => ?_
    split
    · trivial
    · exact rfl
  | _ => exact rfl

theorem Value.slot_works (heap : Heap) (base index : Value) :
    Works (fun _ => True) (base.slot heap index) := by
  cases base with
  | array place => exact (index.asIndex_works _).map fun _ _ => trivial
  | map place => exact index.asKey_works.map fun _ _ => trivial
  | _ => exact rfl

/-! ### Actions -/

/-- An action gives a value that passes a test, or fails at its work. -/
def Action.Works {α : Type} (good : α → Prop) (action : Action α) : Prop :=
  ∀ world, Ends (fun value _ => good value) (fun cause _ => cause.ofWork = true) (action world)

theorem Action.Works.gives {α : Type} {good : α → Prop} {action : Action α} (works : action.Works good)
    (world : World) :
    Ends (fun value _ => good value) (fun cause _ => cause.isUnbound = false) (action world) :=
  (works world).mono (fun _ _ => id) fun _ _ => Cause.isUnbound_of_work

theorem allocate_works (items : Array Value) :
    Action.Works (fun value => value.ty = .array) (allocate items) := fun _ => rfl

theorem allocateMap_works (entries : Std.TreeMap Key Value) :
    Action.Works (fun value => value.ty = .map) (allocateMap entries) := fun _ => rfl

theorem allocateSized_works (count : Int64) (item : Nat → Value) :
    Action.Works (fun value => value.ty = .array) (allocateSized count item) := by
  refine fun world => (allocateSized_ends count item world).mono (fun value after given => ?_)
    fun _ _ failed => failed.1
  obtain ⟨items, -, made⟩ := given
  exact congrArg (fun pair => Value.ty pair.1) made

theorem replaceElement_works (base index value : Value) :
    Action.Works (fun _ => True) (replaceElement base index value) := by
  intro world
  have slot := base.slot_works world.heap index
  unfold replaceElement
  cases found : base.slot world.heap index with
  | ok slot => trivial
  | error cause =>
    rw [found] at slot
    exact slot

/-- A built-in function gives a value of its result type, but for `read` at the end of a file. -/
theorem Builtin.call_gives (builtin : Builtin) (args : List Value) (world : World) :
    Action.Ends (fun value _ => builtin ≠ .read → value.ty = builtin.signature.returns)
      (fun cause _ => cause.isUnbound = false) (builtin.call args world) := by
  cases taken : builtin.takes args with
  | false =>
    rw [call_refused taken]
    exact rfl
  | true =>
    refine (call_ends taken world).mono (fun value after returns other => ?_)
      fun _ _ failed => Cause.isUnbound_of_work failed.1
    exact returns.typed.resolve_right fun ends => other ends.1

end ScopedScript

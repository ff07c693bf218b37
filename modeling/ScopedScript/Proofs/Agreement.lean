/-
**Rules for types and checks of values.**

The same demands are made twice, of types before a run and of values during it. A value that is not a
function has one known type, and there the two agree: what a rule refuses fails when it is carried out,
and what a rule accepts does not fail for the sorts of its operands:

* `Value.ty_eq_unknown_iff`: only functions have no known type;
* `Typing.combines_arithmetic`, `Typing.combines_ordering`, `Typing.index_accepts_iff`: the values that
  the rules accept;
* `Typing.apply_of_refused`, `Typing.apply_of_accepted`: what the operators do with them;
* `Builtin.takes_eq_false_iff`: the arguments that are taken are those of accepted types;
* `Typing.rules_come_true`: **rules and checks agree** for operators, subscripts, keys and built-in
  functions.
-/

import ScopedScript.Proofs.Elements
import ScopedScript.Proofs.Outcome
import ScopedScript.Typing.Rules

namespace ScopedScript

variable {left right base index value : Value} {op : BinaryOp} {heap : Heap} {slot : Heap.Slot}
  {cause : Cause} {position : Position}

/-! ### Types of values -/

namespace Value

theorem ty_eq_unknown_iff : value.ty = .unknown ↔ value.kind = .function := by
  cases value <;> simp [ty, kind, Kind.ty]

theorem ty_eq_int_iff : value.ty = .int ↔ ∃ number, value = .int number := by
  cases value <;> simp [ty, kind, Kind.ty]

theorem ty_eq_string_iff : value.ty = .string ↔ ∃ text, value = .text text := by
  cases value <;> simp [ty, kind, Kind.ty]

theorem isSome_ofValue?_iff (data : value.kind ≠ .function) :
    (Key.ofValue? value).isSome = true ↔ value.ty.isKey = true := by
  cases value with
  | function | builtin => exact absurd rfl data
  | _ => simp [Key.ofValue?, ty, kind, Kind.ty, Ty.isKey]

end Value

/-! ### Operators -/

namespace Typing

variable {problem : Diagnostic} {ty : Ty}

theorem combines_arithmetic (kind : op.kind = .arithmetic) (data : left.kind ≠ .function)
    (data' : right.kind ≠ .function) : combines op left.ty right.ty = true ↔
      ∃ first second, left = .int first ∧ right = .int second := by
  have known : left.ty ≠ .unknown := mt Value.ty_eq_unknown_iff.mp data
  have known' : right.ty ≠ .unknown := mt Value.ty_eq_unknown_iff.mp data'
  simp [combines, kind, known, known', Value.ty_eq_int_iff]

theorem combines_ordering (kind : op.kind = .ordering) (data : left.kind ≠ .function)
    (data' : right.kind ≠ .function) : combines op left.ty right.ty = true ↔
      (∃ first second, left = .int first ∧ right = .int second) ∨
        ∃ first second, left = .text first ∧ right = .text second := by
  have known : left.ty ≠ .unknown := mt Value.ty_eq_unknown_iff.mp data
  have known' : right.ty ≠ .unknown := mt Value.ty_eq_unknown_iff.mp data'
  have accepted : combines op left.ty right.ty = true ↔
      left.ty = right.ty ∧ (left.ty = .int ∨ left.ty = .string) := by
    simp [combines, kind, known, known']
  rw [accepted]
  constructor
  · rintro ⟨same, number | text⟩
    · obtain ⟨second, rfl⟩ := Value.ty_eq_int_iff.mp (same.symm.trans number)
      obtain ⟨first, rfl⟩ := Value.ty_eq_int_iff.mp number
      exact .inl ⟨first, second, rfl, rfl⟩
    · obtain ⟨second, rfl⟩ := Value.ty_eq_string_iff.mp (same.symm.trans text)
      obtain ⟨first, rfl⟩ := Value.ty_eq_string_iff.mp text
      exact .inr ⟨first, second, rfl, rfl⟩
  · rintro (⟨first, second, rfl, rfl⟩ | ⟨first, second, rfl, rfl⟩)
    · exact ⟨rfl, .inl rfl⟩
    · exact ⟨rfl, .inr rfl⟩

theorem apply_of_refused (other : op.kind ≠ .logical) (data : left.kind ≠ .function)
    (data' : right.kind ≠ .function) (refused : combines op left.ty right.ty = false) :
    op.apply heap left right = .error (.type (.operands op left.kind right.kind)) := by
  have refused : ¬ combines op left.ty right.ty = true := Bool.eq_false_iff.mp refused
  unfold BinaryOp.apply
  cases kind : op.kind with
  | equality => exact absurd (by rw [combines, kind]) refused
  | logical => exact absurd kind other
  | ordering =>
    rw [combines_ordering kind data data'] at refused
    dsimp only
    split
    · exact absurd (.inl ⟨_, _, rfl, rfl⟩) refused
    · exact absurd (.inr ⟨_, _, rfl, rfl⟩) refused
    · rfl
  | arithmetic =>
    rw [combines_arithmetic kind data data'] at refused
    dsimp only
    split
    · exact absurd ⟨_, _, rfl, rfl⟩ refused
    · rfl

/-- Arithmetic on integers gives an integer, unless zero divides. -/
theorem apply_arithmetic (kind : op.kind = .arithmetic) (first second : Int64) :
    (∃ result, op.apply heap (.int first) (.int second) = .ok (.int result)) ∨
      second = 0 ∧ (op = .div ∧ op.apply heap (.int first) (.int second) = .error .divideByZero ∨
        op = .mod ∧ op.apply heap (.int first) (.int second) = .error .moduloByZero) := by
  cases op with
  | add | sub | mul => exact .inl ⟨_, rfl⟩
  | div =>
    by_cases zero : second = 0
    · subst zero
      exact .inr ⟨rfl, .inl ⟨rfl, rfl⟩⟩
    · have divides : BinaryOp.div.arithmetic first second = .ok (first / second) := if_neg zero
      exact .inl ⟨_, congrArg (Except.map Value.int) divides⟩
  | mod =>
    by_cases zero : second = 0
    · subst zero
      exact .inr ⟨rfl, .inr ⟨rfl, rfl⟩⟩
    · have leaves : BinaryOp.mod.arithmetic first second = .ok (first % second) := if_neg zero
      exact .inl ⟨_, congrArg (Except.map Value.int) leaves⟩
  | _ => cases kind

/-- Operands that the rule accepts give a value of the type that it says, unless zero divides. -/
theorem apply_of_accepted (other : op.kind ≠ .logical) (data : left.kind ≠ .function)
    (data' : right.kind ≠ .function) (accepted : combines op left.ty right.ty = true) :
    (∃ value, op.apply heap left right = .ok value ∧ value.ty = resultOf op) ∨
      right = .int 0 ∧ (op = .div ∧ op.apply heap left right = .error .divideByZero ∨
        op = .mod ∧ op.apply heap left right = .error .moduloByZero) := by
  cases kind : op.kind with
  | equality =>
    have result : resultOf op = .bool := by rw [resultOf, kind]
    unfold BinaryOp.apply
    rw [kind]
    exact .inl ⟨_, rfl, result.symm⟩
  | logical => exact absurd kind other
  | ordering =>
    have result : resultOf op = .bool := by rw [resultOf, kind]
    unfold BinaryOp.apply
    rw [kind]
    obtain ⟨first, second, rfl, rfl⟩ | ⟨first, second, rfl, rfl⟩ :=
      (combines_ordering kind data data').mp accepted
    · exact .inl ⟨_, rfl, result.symm⟩
    · exact .inl ⟨_, rfl, result.symm⟩
  | arithmetic =>
    have result : resultOf op = .int := by rw [resultOf, kind]
    obtain ⟨first, second, rfl, rfl⟩ := (combines_arithmetic kind data data').mp accepted
    rcases apply_arithmetic kind first second with ⟨number, given⟩ | ⟨rfl, fails⟩
    · exact .inl ⟨_, given, result.symm⟩
    · exact .inr ⟨rfl, fails⟩

theorem binary_refused (other : op.kind ≠ .logical) (data : left.kind ≠ .function)
    (data' : right.kind ≠ .function)
    (refused : Typing.binary op position left.ty right.ty = .error problem) :
    op.apply heap left right = .error (.type (.operands op left.kind right.kind)) := by
  refine apply_of_refused other data data' (Bool.eq_false_iff.mpr fun accepted => ?_)
  rw [Typing.binary, if_pos accepted] at refused
  cases refused

theorem binary_eq_ok_iff : Typing.binary op position left.ty right.ty = .ok ty ↔
    combines op left.ty right.ty = true ∧ resultOf op = ty := by
  unfold Typing.binary
  split <;> simp [*]

theorem unary_refused {op : UnaryOp} (refused : Typing.unary op position value.ty = .error problem) :
    ∃ fault, op.apply value = .error (.type fault) := by
  cases value with
  | int =>
    cases op with
    | neg => cases refused
    | not => exact ⟨_, rfl⟩
  | bool =>
    cases op with
    | neg => exact ⟨_, rfl⟩
    | not => cases refused
  | _ => cases op <;> exact ⟨_, rfl⟩

theorem unary_accepted {op : UnaryOp} (data : value.kind ≠ .function)
    (accepted : Typing.unary op position value.ty = .ok ty) :
    ∃ result, op.apply value = .ok result ∧ result.ty = ty := by
  cases value with
  | int =>
    cases op with
    | neg =>
      cases accepted
      exact ⟨_, rfl, rfl⟩
    | not => cases accepted
  | bool =>
    cases op with
    | neg => cases accepted
    | not =>
      cases accepted
      exact ⟨_, rfl, rfl⟩
  | function | builtin => exact absurd rfl data
  | _ => cases op <;> cases accepted

end Typing

/-! ### Subscripts -/

/-- The failures for the sort of a value. -/
def Cause.ofSort : Cause → Bool
  | .type _ | .null _ => true
  | _ => false

namespace Value

/-- A container and an index of sorts that go together; any value but none goes with a map, although
not all can be keys. -/
def Subscripts (base index : Value) : Prop :=
  (∃ place, base = .array place) ∧ (∃ number, index = .int number) ∨
    (∃ place, base = .map place) ∧ index ≠ .none

theorem subscripts_of_names (names : heap.Names base index slot) : base.Subscripts index := by
  cases names with
  | item => exact .inl ⟨⟨_, rfl⟩, _, rfl⟩
  | entry place key => exact .inr ⟨⟨_, rfl⟩, by cases key <;> nofun⟩

theorem asIndex_error {number : Int64} {length : Nat}
    (failed : (Value.int number).asIndex length = .error cause) : cause.ofSort = false := by
  unfold asIndex at failed
  dsimp only at failed
  split at failed
  · cases failed
    rfl
  · cases failed

theorem asKey_error (failed : index.asKey = .error cause) : cause.ofSort = false := by
  unfold asKey at failed
  split at failed
  · cases failed
  · cases failed
    rfl

/-- A container and an index that go together name a slot, or fail otherwise than for their sorts. -/
theorem slot_error (together : base.Subscripts index)
    (failed : base.slot heap index = .error cause) : cause.ofSort = false := by
  rcases together with ⟨⟨place, rfl⟩, number, rfl⟩ | ⟨⟨place, rfl⟩, -⟩
  · cases named : (Value.int number).asIndex (heap.items place).size with
    | ok => rw [Value.slot, named] at failed; cases failed
    | error =>
      rw [Value.slot, named] at failed
      cases failed
      exact asIndex_error named
  · cases named : index.asKey with
    | ok => rw [Value.slot, named] at failed; cases failed
    | error =>
      rw [Value.slot, named] at failed
      cases failed
      exact asKey_error named

theorem load_error (together : base.Subscripts index)
    (failed : base.load heap index = .error cause) : cause.ofSort = false := by
  rcases together with ⟨⟨place, rfl⟩, number, rfl⟩ | ⟨⟨place, rfl⟩, -⟩
  · rw [load_array] at failed
    cases named : (Value.int number).asIndex (heap.items place).size with
    | ok => rw [named] at failed; cases failed
    | error =>
      rw [named] at failed
      cases failed
      exact asIndex_error named
  · rw [load_map] at failed
    cases named : index.asKey with
    | ok key =>
      rw [named, Except.bind] at failed
      cases held : (heap.entries place)[key]? with
      | some => rw [held] at failed; cases failed
      | none =>
        rw [held] at failed
        cases failed
        rfl
    | error =>
      rw [named] at failed
      cases failed
      exact asKey_error named

end Value

namespace Typing

/-- The containers and indices that the rule for subscripts accepts. -/
theorem index_accepts_iff (data : base.kind ≠ .function) (data' : index.kind ≠ .function) :
    (∃ ty, Typing.index position base.ty index.ty = .ok ty) ↔ base.Subscripts index := by
  cases base with
  | function | builtin => exact absurd rfl data
  | array place =>
    cases index with
    | function | builtin => exact absurd rfl data'
    | _ => simp [Typing.index, Value.Subscripts, Value.ty, Value.kind, Kind.ty, Ty.acceptedBy]
  | map place =>
    cases index <;> simp [Typing.index, Value.Subscripts, Value.ty, Value.kind, Kind.ty]
  | _ =>
    simp only [Typing.index, Value.Subscripts, Value.ty, Value.kind, Kind.ty]
    split <;> simp

/-- What the rule refuses can be neither loaded nor stored. -/
theorem not_names_of_refused {problem : Diagnostic} (data : base.kind ≠ .function)
    (data' : index.kind ≠ .function)
    (refused : Typing.index position base.ty index.ty = .error problem) :
    ¬ heap.Names base index slot := by
  intro names
  obtain ⟨ty, accepted⟩ := (index_accepts_iff data data').mpr (Value.subscripts_of_names names)
  cases refused.symm.trans accepted

end Typing

/-! ### Arguments -/

theorem Param.takes_eq (param : Param) (data : value.kind ≠ .function) :
    param.takes value.kind = value.ty.acceptedBy param.accepts := by
  have known : (value.ty == .unknown) = false :=
    beq_false_of_ne (mt Value.ty_eq_unknown_iff.mp data)
  rw [Param.takes, Ty.acceptedBy, bne_iff_ne.mpr data, known, Bool.true_and, Bool.false_or]
  rfl

variable {builtin : Builtin} {args : List Value} {world after : World}

namespace Builtin

theorem takes_eq_false_iff (count : args.length = builtin.signature.arity)
    (data : ∀ arg ∈ args, arg.kind ≠ .function) : builtin.takes args = false ↔
      ∃ pair ∈ builtin.signature.params.zip args, pair.2.ty.acceptedBy pair.1.accepts = false := by
  rw [takes, count, beq_self_eq_true, Bool.true_and, List.all_eq_false]
  refine exists_congr fun pair => and_congr_right fun member => ?_
  rw [pair.1.takes_eq (data pair.2 (List.of_mem_zip member).2), Bool.not_eq_true]

theorem takes_of_call {name : String} {accepted : List Ty} {got : Kind}
    (failed : builtin.call args world = .error (.type (.argument name accepted got)) after) :
    builtin.takes args = false := by
  refine Bool.eq_false_iff.mpr fun taken => ?_
  have ends := call_ends taken world
  rw [failed] at ends
  cases ends.1

end Builtin

namespace Typing

variable {positions : List Position}

/-- The rule for calls finds a bad argument just when one has a type that is not accepted. -/
theorem isSome_badArgument?_iff {params : List Param} (count : positions.length = args.length) :
    (badArgument? (args.map Value.ty) params positions).isSome = true ↔
      ∃ pair ∈ params.zip args, pair.2.ty.acceptedBy pair.1.accepts = false := by
  induction args generalizing params positions with
  | nil => simp [badArgument?]
  | cons arg args ih =>
    cases positions with
    | nil => cases count
    | cons position positions =>
      cases params with
      | nil => simp [badArgument?]
      | cons param params =>
        have rest : (badArgument? (args.map Value.ty) params positions).isSome = true ↔ _ :=
          ih (Nat.succ.inj count)
        cases accepted : arg.ty.acceptedBy param.accepts <;> simp [badArgument?, accepted, rest]

theorem exists_call_eq_error_iff {name : String} {signature : Signature} {types : List Ty} :
    (∃ problem, Typing.call name signature positions types = .error problem) ↔
      (badArgument? types signature.params positions).isSome = true := by
  unfold Typing.call
  cases badArgument? types signature.params positions <;> simp

end Typing

/-- **Rules and checks agree**, for all values but functions. Operands that the rule of an operator refuses
fail with a type error, and those that it accepts give a value of the type that it says, unless zero
divides. A subscript that the rule refuses can be neither loaded nor stored, and one that it accepts fails
for the sort of no value. The values that are keys are those with the types of keys. A built-in function
complains of an argument just when one has a type that its parameter does not accept, which is when the
rule for calls refuses; what it complains of is such an argument, and what it gives has the type of its
signature, or is none at the end of a file. -/
theorem Typing.rules_come_true (world : World) (position : Position) :
    (∀ (op : BinaryOp) (left right : Value), op.kind ≠ .logical →
      left.kind ≠ .function → right.kind ≠ .function →
      (∀ problem, Typing.binary op position left.ty right.ty = .error problem →
        ∃ fault, op.apply world.heap left right = .error (.type fault)) ∧
      (∀ ty, Typing.binary op position left.ty right.ty = .ok ty →
        (∃ value, op.apply world.heap left right = .ok value ∧ value.ty = ty) ∨
          right = .int 0 ∧ (op = .div ∧ op.apply world.heap left right = .error .divideByZero ∨
            op = .mod ∧ op.apply world.heap left right = .error .moduloByZero))) ∧
    (∀ (op : UnaryOp) (operand : Value), operand.kind ≠ .function →
      (∀ problem, Typing.unary op position operand.ty = .error problem →
        ∃ fault, op.apply operand = .error (.type fault)) ∧
      (∀ ty, Typing.unary op position operand.ty = .ok ty →
        ∃ value, op.apply operand = .ok value ∧ value.ty = ty)) ∧
    (∀ base index value : Value, base.kind ≠ .function → index.kind ≠ .function →
      (∀ problem, Typing.index position base.ty index.ty = .error problem →
        (∃ cause, base.load world.heap index = .error cause) ∧
        ∃ cause after, replaceElement base index value world = .error cause after) ∧
      (∀ ty, Typing.index position base.ty index.ty = .ok ty →
        (∀ cause, base.load world.heap index = .error cause → cause.ofSort = false) ∧
        ∀ cause after, replaceElement base index value world = .error cause after →
          cause.ofSort = false)) ∧
    (∀ value : Value, value.kind ≠ .function →
      ((∃ key, Key.ofValue? value = some key) ↔ value.ty.isKey = true)) ∧
    ∀ (builtin : Builtin) (args : List Value) (positions : List Position),
      args.length = builtin.signature.arity → positions.length = args.length →
      (∀ arg ∈ args, arg.kind ≠ .function) →
      ((∃ name accepted got after,
          builtin.call args world = .error (.type (.argument name accepted got)) after) ↔
        ∃ pair ∈ builtin.signature.params.zip args, pair.2.ty.acceptedBy pair.1.accepts = false) ∧
      ((∃ problem, Typing.call builtin.name builtin.signature positions (args.map Value.ty) =
          .error problem) ↔
        ∃ pair ∈ builtin.signature.params.zip args, pair.2.ty.acceptedBy pair.1.accepts = false) ∧
      (∀ name accepted got after,
        builtin.call args world = .error (.type (.argument name accepted got)) after →
          name = builtin.name ∧ after = world ∧ ∃ pair ∈ builtin.signature.params.zip args,
            pair.2.ty.acceptedBy pair.1.accepts = false ∧ accepted = pair.1.accepts ∧
              got = pair.2.kind) ∧
      ∀ value after, builtin.call args world = .ok value after →
        value.ty = builtin.signature.returns ∨ builtin = .read ∧ value.ty = .none := by
  refine ⟨fun op left right other data data' => ⟨fun problem refused => ?_, fun ty accepted => ?_⟩,
    fun op operand data => ⟨fun _ => unary_refused, fun _ => unary_accepted data⟩,
    fun base index value data data' => ⟨fun problem refused => ⟨?_, ?_⟩, fun ty accepted => ?_⟩,
    fun value data => ?_,
    fun builtin args positions count places data => ⟨⟨?_, ?_⟩, ?_, ?_, ?_⟩⟩
  · exact ⟨_, binary_refused other data data' refused⟩
  · obtain ⟨combined, rfl⟩ := binary_eq_ok_iff.mp accepted
    exact apply_of_accepted other data data' combined
  · cases loaded : base.load world.heap index with
    | ok held =>
      obtain ⟨slot, names, -⟩ := Value.load_eq_ok_iff.mp loaded
      exact absurd names (not_names_of_refused data data' refused)
    | error cause => exact ⟨cause, rfl⟩
  · cases stored : replaceElement base index value world with
    | ok old after =>
      obtain ⟨slot, names, -⟩ := replaceElement_eq_ok_iff.mp stored
      exact absurd names (not_names_of_refused data data' refused)
    | error cause after => exact ⟨cause, after, rfl⟩
  · have together := (index_accepts_iff data data').mp ⟨ty, accepted⟩
    exact ⟨fun cause => Value.load_error together,
      fun cause after failed => Value.slot_error together (replaceElement_error failed).1⟩
  · rw [← Option.isSome_iff_exists]
    exact Value.isSome_ofValue?_iff data
  · rintro ⟨name, accepted, got, after, failed⟩
    exact (Builtin.takes_eq_false_iff count data).mp (Builtin.takes_of_call failed)
  · intro unfit
    have refused := (Builtin.takes_eq_false_iff count data).mpr unfit
    obtain ⟨pair, -, -, complaint⟩ := Builtin.refusal_eq count refused
    rw [Builtin.call_refused refused, complaint]
    exact ⟨_, _, _, _, rfl⟩
  · rw [exists_call_eq_error_iff, isSome_badArgument?_iff places]
  · intro name accepted got after failed
    have refused := Builtin.takes_of_call failed
    obtain ⟨pair, member, untaken, complaint⟩ := Builtin.refusal_eq count refused
    rw [Builtin.call_refused refused, complaint] at failed
    cases failed
    have data : pair.2.kind ≠ .function := data pair.2 (List.of_mem_zip member).2
    exact ⟨rfl, rfl, pair, member, pair.1.takes_eq data ▸ untaken, rfl, rfl⟩
  · intro value after given
    cases taken : builtin.takes args with
    | true =>
      have ends := Builtin.call_ends taken world
      rw [given] at ends
      exact ends.typed
    | false =>
      rw [Builtin.call_refused taken] at given
      cases given

/-- A sum with a text, a store at none and a line written into a text. -/
theorem Typing.rules_come_true_knotted :
    (∃ fault, BinaryOp.add.apply World.knotted.heap (.int 1) (.text "a") = .error (.type fault)) ∧
    (∃ cause after, replaceElement (.array 0) .none (.int 1) World.knotted = .error cause after) ∧
    ∃ name accepted got after, Builtin.write.call [.text "a", .int 1] World.knotted =
      .error (.type (.argument name accepted got)) after := by
  obtain ⟨operators, -, subscripts, -, calls⟩ := Typing.rules_come_true World.knotted .start
  refine ⟨(operators .add (.int 1) (.text "a") nofun nofun nofun).1 _ rfl,
    ((subscripts (.array 0) .none (.int 1) nofun nofun).1 _ rfl).2, ?_⟩
  exact (calls .write [.text "a", .int 1] [⟨1, 7⟩, ⟨1, 12⟩] rfl rfl (by decide)).1.mpr
    ⟨_, .head _, rfl⟩

end ScopedScript

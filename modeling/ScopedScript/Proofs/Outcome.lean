/-
**Outcomes of built-in functions.**

A built-in function either takes its arguments or refuses them before it does anything. If it takes them,
it gives a value of its type or fails in one of the ways of its work, and the only change it makes to the
containers is a new array of keys for its result:

* `Action.Ends`: what an action comes to, with the world that is left; `Action.Ends.bind` for two in a row;
* `Builtin.takes`: the arguments that signatures allow, `Builtin.refusal` what they have against others;
* `Cause.ofWork`: the failures of work that is taken on;
* `Builtin.makesArray`: the functions whose results are new arrays;
* `Builtin.call_refused`, `Builtin.call_ends`: **what a call comes to.**
-/

import Mathlib.Data.List.Basic
import ScopedScript.Proofs.Elements

namespace ScopedScript

/-! ### Actions -/

namespace Action

variable {α β : Type} {good good' : α → World → Prop} {better : β → World → Prop}
  {fails fails' : Cause → World → Prop} {world : World}

/-- An action has come to a value or to a failure that passes a test, together with the world. -/
def Ends (good : α → World → Prop) (fails : Cause → World → Prop) :
    EStateM.Result Cause World α → Prop
  | .ok value after => good value after
  | .error cause after => fails cause after

theorem Ends.mono {result : EStateM.Result Cause World α} (ends : Ends good fails result)
    (weaker : ∀ value after, good value after → good' value after)
    (weaker' : ∀ cause after, fails cause after → fails' cause after) : Ends good' fails' result := by
  cases result with
  | ok value after => exact weaker value after ends
  | error cause after => exact weaker' cause after ends

theorem Ends.bind {action : Action α} {next : α → Action β} (first : Ends good fails (action world))
    (then_ : ∀ value after, good value after → Ends better fails (next value after)) :
    Ends better fails ((action >>= next) world) := by
  show Ends better fails (EStateM.bind action next world)
  unfold EStateM.bind
  cases result : action world with
  | ok value after =>
    rw [result] at first
    exact then_ value after first
  | error cause after =>
    rw [result] at first
    exact first

theorem Ends.get {next : World → Action β} (then_ : Ends better fails (next world world)) :
    Ends better fails ((get >>= next) world) := then_

end Action

/-- The failures of operators, and of built-in functions on arguments that they take. -/
def Cause.ofWork : Cause → Bool
  | .allocation _ | .invalidInteger _ | .file _ => true
  | .indexOutOfRange .. | .key _ | .null _ | .divideByZero | .moduloByZero => true
  | .type (.operands ..) | .type (.negated _) | .type (.inverted _) => true
  | .type (.arrayIndex _) | .type (.notIndexed _) | .type (.notAssigned _) => true
  | .type (.unsorted _) | .type (.mixed ..) => true
  | _ => false

/-- A failure of the work of a built-in function, which leaves the containers as they were. -/
def WorkFails (heap : Heap) (cause : Cause) (after : World) : Prop :=
  cause.ofWork = true ∧ after.heap = heap

theorem allocateSized_ends (count : Int64) (item : Nat → Value) (world : World) :
    Action.Ends (fun value after => ∃ items, (∀ held ∈ items, ∃ number, held = item number) ∧
        (value, after.heap) = world.heap.newArray items)
      (WorkFails world.heap) (allocateSized count item world) := by
  unfold allocateSized
  split
  · exact ⟨rfl, rfl⟩
  · refine ⟨_, fun held member => ?_, rfl⟩
    obtain ⟨number, rfl⟩ := Array.mem_ofFn.mp member
    exact ⟨number, rfl⟩

theorem onFiles_ends {α : Type} (operation : Files → Except FileFault α × Files) (world : World) :
    Action.Ends (fun _ after => after.heap = world.heap) (WorkFails world.heap)
      (onFiles operation world) := by
  refine Action.Ends.bind
    (show Action.Ends (fun _ after => after.heap = world.heap) _ _ from rfl) fun result after kept => ?_
  cases result with
  | ok => exact kept
  | error => exact ⟨rfl, kept⟩

theorem emit_ends (text : String) (world : World) :
    Action.Ends (fun value after => value.ty = .none ∧ after.heap = world.heap)
      (WorkFails world.heap) (emit text world) := by
  refine Action.Ends.bind
    (show Action.Ends (fun _ after => after.heap = world.heap) _ _ from rfl) fun complete after kept => ?_
  cases complete with
  | true => exact ⟨rfl, kept⟩
  | false => exact ⟨rfl, kept⟩

theorem sortValues_ofWork {items : List Value} {fault : TypeFault}
    (failed : sortValues items = .error fault) : (Cause.type fault).ofWork = true := by
  unfold sortValues at failed
  split at failed
  · cases failed
  · split at failed
    · split at failed <;> cases failed
      rfl
    · cases failed
      rfl

/-- What is sorted are keys. -/
theorem sortValues_keys {items ordered : List Value} (sorts : sortValues items = .ok ordered) :
    ∀ item ∈ ordered, ∃ key : Key, item = key.toValue := by
  unfold sortValues at sorts
  split at sorts
  · cases sorts
    exact List.forall_mem_nil _
  · rename_i first rest
    split at sorts
    · rename_i has
      split at sorts
      · cases sorts
      · rename_i alike
        cases sorts
        intro item member
        have same : item.kind = first.kind := by
          simpa using List.find?_eq_none.mp alike item (List.mem_mergeSort.mp member)
        rw [Value.exists_eq_toValue_iff, same]
        exact has
    · cases sorts

/-! ### Calls -/

/-- Whether a parameter takes a value of a sort. -/
def Param.takes (param : Param) (kind : Kind) : Bool :=
  param.accepts.isEmpty || (kind != .function && param.accepts.contains kind.ty)

namespace Builtin

variable {args : List Value}
variable {builtin : Builtin}

/-- Whether the arguments are as many as the parameters, each of a sort that its parameter takes. -/
def takes (builtin : Builtin) (args : List Value) : Bool :=
  args.length == builtin.signature.arity &&
    (builtin.signature.params.zip args).all fun pair => pair.1.takes pair.2.kind

/-- What the signature has against arguments: their number, or the first of the wrong sort. -/
def refusal (builtin : Builtin) (args : List Value) : TypeFault :=
  let params := builtin.signature.params
  if params.length = args.length then
    match (params.zip args).find? fun pair => !pair.1.takes pair.2.kind with
    | some (param, value) => .argument builtin.name param.accepts value.kind
    | none => .argumentCount builtin.name params.length args.length
  else .argumentCount builtin.name params.length args.length

/-- The built-in functions whose results are new arrays. -/
def makesArray : Builtin → Bool
  | .range | .indexer | .sort => true
  | _ => false

theorem one_of_length (wrong : args.length ≠ 1) (work : Value → Action Value) :
    builtin.one args work = throw (.type (.argumentCount builtin.name 1 args.length)) := by
  unfold one
  split
  · exact absurd rfl wrong
  · rfl

theorem two_of_length (wrong : args.length ≠ 2) (work : Value → Value → Action Value) :
    builtin.two args work = throw (.type (.argumentCount builtin.name 2 args.length)) := by
  unfold two
  split
  · exact absurd rfl wrong
  · rfl

theorem call_of_length_ne (builtin : Builtin) (count : args.length ≠ builtin.signature.arity) :
    builtin.call args =
      throw (.type (.argumentCount builtin.name builtin.signature.arity args.length)) := by
  cases builtin with
  | open_ | write => exact two_of_length count _
  | _ => exact one_of_length count _

/-- **Arguments that are not taken are refused** before anything else is done. What the function says of
them is what its signature has against them, although it checks their number and sorts by itself. -/
theorem call_refused (refused : builtin.takes args = false) :
    builtin.call args = throw (.type (builtin.refusal args)) := by
  by_cases count : args.length = builtin.signature.arity
  · funext world
    cases builtin with
    | open_ | write =>
      obtain ⟨first, second, rfl⟩ := List.length_eq_two.mp count
      cases first <;> first | rfl | (cases second <;> first | rfl | cases refused)
    | _ =>
      obtain ⟨value, rfl⟩ := List.length_eq_one_iff.mp count
      cases value <;> first | rfl | cases refused
  · rw [call_of_length_ne builtin count, refusal, if_neg fun same => count same.symm]
    rfl

/-- What is said of arguments in the right number of which some are not taken: it is about the first
of these. -/
theorem refusal_eq (count : args.length = builtin.signature.arity)
    (refused : builtin.takes args = false) :
    ∃ pair ∈ builtin.signature.params.zip args, pair.1.takes pair.2.kind = false ∧
      builtin.refusal args = .argument builtin.name pair.1.accepts pair.2.kind := by
  cases found : (builtin.signature.params.zip args).find? fun pair => !pair.1.takes pair.2.kind with
  | none =>
    have all : (builtin.signature.params.zip args).all (fun pair => pair.1.takes pair.2.kind) = true :=
      List.all_eq_true.mpr fun pair member => by simpa using List.find?_eq_none.mp found pair member
    rw [takes, count, beq_self_eq_true, Bool.true_and, all] at refused
    cases refused
  | some pair =>
    refine ⟨pair, List.mem_of_find?_eq_some found, by simpa using List.find?_some found, ?_⟩
    simp only [refusal, found]
    exact if_pos count.symm

/-- What a call gives on arguments that are taken: a value of the type of the function, or none at the
end of a file; the containers are as they were, apart from a new array of keys that is the value. -/
structure Returns (builtin : Builtin) (heap : Heap) (value : Value) (after : World) : Prop where
  typed : value.ty = builtin.signature.returns ∨ builtin = .read ∧ value.ty = .none
  makes : builtin.makesArray = true → ∃ items, (∀ item ∈ items, ∃ key : Key, item = key.toValue) ∧
    (value, after.heap) = heap.newArray items
  keeps : builtin.makesArray = false → after.heap = heap

theorem Returns.of_newArray {heap : Heap} {value : Value} {after : World} {items : Array Value}
    (returns : builtin.signature.returns = .array) (makes : builtin.makesArray = true)
    (keys : ∀ item ∈ items, ∃ key : Key, item = key.toValue)
    (made : (value, after.heap) = heap.newArray items) : builtin.Returns heap value after where
  typed := by
    obtain rfl : value = .array heap.arrays.size := congrArg Prod.fst made
    exact .inl returns.symm
  makes _ := ⟨items, keys, made⟩
  keeps other := by rw [makes] at other; cases other

theorem keys_toArray {keys : List Key} :
    ∀ item ∈ (keys.map Key.toValue).toArray, ∃ key : Key, item = key.toValue := by
  intro item member
  obtain ⟨key, -, rfl⟩ := List.mem_map.mp (List.mem_toArray.mp member)
  exact ⟨key, rfl⟩

/-- **Arguments that are taken are worked on.** -/
theorem call_ends (taken : builtin.takes args = true) (world : World) :
    Action.Ends (builtin.Returns world.heap) (WorkFails world.heap) (builtin.call args world) := by
  have count : args.length = builtin.signature.arity :=
    eq_of_beq (Bool.and_eq_true_iff.mp taken).1
  cases builtin with
  | range =>
    obtain ⟨value, rfl⟩ := List.length_eq_one_iff.mp count
    cases value with
    | int =>
      refine (allocateSized_ends _ _ world).mono (fun value after given => ?_) fun _ _ => id
      obtain ⟨items, numbers, made⟩ := given
      refine .of_newArray rfl rfl (fun item member => ?_) made
      obtain ⟨number, rfl⟩ := numbers item member
      exact ⟨.int _, rfl⟩
    | _ => cases taken
  | indexer =>
    obtain ⟨value, rfl⟩ := List.length_eq_one_iff.mp count
    cases value with
    | array =>
      refine Returns.of_newArray rfl rfl (fun item member => ?_) rfl
      obtain ⟨number, rfl⟩ := Array.mem_ofFn.mp member
      exact ⟨.int _, rfl⟩
    | map => exact Returns.of_newArray rfl rfl keys_toArray rfl
    | _ => cases taken
  | sort =>
    obtain ⟨value, rfl⟩ := List.length_eq_one_iff.mp count
    cases value with
    | array place =>
      show Action.Ends _ _ (sortArray place world)
      refine Action.Ends.get ?_
      cases sorts : sortValues (world.heap.items place).toList with
      | ok =>
        refine Returns.of_newArray rfl rfl (fun item member => ?_) rfl
        exact sortValues_keys sorts item (List.mem_toArray.mp member)
      | error => exact ⟨sortValues_ofWork sorts, rfl⟩
    | _ => cases taken
  | len =>
    obtain ⟨value, rfl⟩ := List.length_eq_one_iff.mp count
    cases value with
    | array | map => exact ⟨.inl rfl, nofun, fun _ => rfl⟩
    | _ => cases taken
  | int =>
    obtain ⟨value, rfl⟩ := List.length_eq_one_iff.mp count
    cases value with
    | text text =>
      show Action.Ends _ _ (readInt text world)
      unfold readInt
      cases Decimal.read? text with
      | some => exact ⟨.inl rfl, nofun, fun _ => rfl⟩
      | none => exact ⟨rfl, rfl⟩
    | _ => cases taken
  | print | println =>
    obtain ⟨value, rfl⟩ := List.length_eq_one_iff.mp count
    exact (emit_ends _ world).mono (fun _ _ printed => ⟨.inl printed.1, nofun, fun _ => printed.2⟩)
      fun _ _ => id
  | open_ =>
    obtain ⟨path, mode, rfl⟩ := List.length_eq_two.mp count
    cases path with
    | text path =>
      cases mode with
      | text mode =>
        show Action.Ends _ _ (openPath path mode world)
        refine Action.Ends.get ?_
        cases world.files.openFile path mode with
        | ok => exact ⟨.inl rfl, nofun, fun _ => rfl⟩
        | error => exact ⟨rfl, rfl⟩
      | _ => cases taken
    | _ => cases taken
  | close =>
    obtain ⟨value, rfl⟩ := List.length_eq_one_iff.mp count
    cases value with
    | file ref =>
      exact (onFiles_ends _ world).bind fun _ after kept => ⟨.inl rfl, nofun, fun _ => kept⟩
    | _ => cases taken
  | read =>
    obtain ⟨value, rfl⟩ := List.length_eq_one_iff.mp count
    cases value with
    | file ref =>
      refine (onFiles_ends _ world).bind fun line after kept => ?_
      cases line with
      | none => exact ⟨.inr ⟨rfl, rfl⟩, nofun, fun _ => kept⟩
      | some line => exact ⟨.inl rfl, nofun, fun _ => kept⟩
    | _ => cases taken
  | write =>
    obtain ⟨file, value, rfl⟩ := List.length_eq_two.mp count
    cases file with
    | file ref =>
      exact (onFiles_ends _ world).bind fun _ after kept => ⟨.inl rfl, nofun, fun _ => kept⟩
    | _ => cases taken

end Builtin

end ScopedScript

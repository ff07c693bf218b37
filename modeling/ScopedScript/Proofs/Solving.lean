/-
**Where types come from.**

A settled type was registered as it is, or a registered rule computed it from settled types:

* `Program.rules_eq`: the rules of a program are its registrations in a row;
* `Registration.Gives`: a registration that gives an attribute a type;
* `Program.type_justified`: **every type that the check of a program gives is given by a registration.**
-/

import ScopedScript.Proofs.LeastSolution
import ScopedScript.Typing.Check

namespace ScopedScript

variable {slot : Slot} {ty : Ty} {ε : Type}

/-! ### Registrations -/

/-- A registration as one of a rule set; problems are kept apart. -/
def Registration.entry? : Registration → Option (RuleSet.Entry Diagnostic)
  | .set key ty => some (.set key ty)
  | .fail key => some (.fail key)
  | .rule added => some (.rule added)
  | .problem _ => none

/-- The registration that settles an attribute. -/
def Registration.ofSlot (key : Attribute) : Slot → Registration
  | .ready ty => .set key ty
  | .failed => .fail key

/-- A registration that gives an attribute a type, where the types in the table are known. -/
def Registration.Gives (registration : Registration) (slots : AttributeTable Slot) (key : Attribute)
    (ty : Ty) : Prop :=
  match registration with
  | .set other ty' => other = key ∧ ty' = ty
  | .rule computed => computed.output = some key ∧
    ∃ types, Solver.inputs? slots computed.deps = some types ∧ computed.compute types = .ok ty
  | .fail _ | .problem _ => False

namespace Program

variable {program : Program} {scoping : Scoping} {key : Attribute}

theorem rules_eq (program : Program) (scoping : Scoping) :
    program.rules scoping =
      RuleSet.of ((program.registrations scoping).filterMap Registration.entry?) := by
  unfold Program.rules RuleSet.of
  rw [List.foldl_filterMap]
  congr 1
  funext set registration
  cases registration <;> rfl

theorem mem_rules {rule : Rule Diagnostic} :
    rule ∈ (program.rules scoping).rules.toList ↔ .rule rule ∈ program.registrations scoping := by
  rw [rules_eq, (RuleSet.of_eq _).2, List.filterMap_filterMap, List.mem_filterMap]
  constructor
  · rintro ⟨registration, member, same⟩
    cases registration <;> cases same
    exact member
  · exact fun member => ⟨_, member, rfl⟩

/-- What is settled from the beginning is registered as settled. -/
theorem listed_of_slots (found : (program.rules scoping).slots.get? key = some slot) :
    .ofSlot key slot ∈ program.registrations scoping := by
  rw [rules_eq, (RuleSet.of_eq _).1] at found
  obtain ⟨entry, listed, settled⟩ := List.exists_of_findSome?_eq_some found
  obtain ⟨registration, member, same⟩ := List.mem_filterMap.mp listed
  cases registration <;> cases same <;> simp [RuleSet.Entry.settles?] at settled
  all_goals
    obtain ⟨rfl, rfl⟩ := settled
    exact member

theorem contains_of_listed (member : .ofSlot key slot ∈ program.registrations scoping) :
    (program.rules scoping).slots.contains key = true := by
  rw [AttributeTable.contains_eq, rules_eq, (RuleSet.of_eq _).1, List.findSome?_isSome_iff]
  cases slot with
  | ready ty =>
    exact ⟨.set key ty, List.mem_filterMap.mpr ⟨_, member, rfl⟩, by simp [RuleSet.Entry.settles?]⟩
  | failed =>
    exact ⟨.fail key, List.mem_filterMap.mpr ⟨_, member, rfl⟩, by simp [RuleSet.Entry.settles?]⟩

/-- **Every type that the check of a program gives is given by a registration.** -/
theorem type_justified (found : (program.check scoping).slots.get? key = some (.ready ty)) :
    ∃ registration ∈ program.registrations scoping,
      registration.Gives (program.check scoping).slots key ty := by
  rcases (program.rules scoping).sourced_final found with given | ⟨index, -, rule, here, output, same⟩
  · exact ⟨_, listed_of_slots given, rfl, rfl⟩
  · have member := mem_rules.mp (Array.mem_toList_iff.mpr (Array.mem_of_getElem? here))
    refine ⟨_, member, output, ?_⟩
    rw [Rule.outcome, ← Solver.inputs?_eq_mapM] at same
    split at same
    · cases same
    · rename_i types inputs
      refine ⟨types, inputs, ?_⟩
      split at same
      · rename_i computed
        cases same
        exact computed
      · cases same

end Program

/-! ### The types of an analysis -/

theorem Solution.readyTy?_eq_some : readyTy? slot = some ty ↔ slot = .ready ty := by
  cases slot <;> simp [readyTy?]

theorem AttributeTable.ty?_eq_some {slots : AttributeTable Slot} {key : Attribute} :
    slots.ty? key = some ty ↔ slots.get? key = some (.ready ty) := by
  simp only [ty?, Option.bind_eq_some_iff, Solution.readyTy?_eq_some, exists_eq_right]

theorem Solution.nodeTypes_eq_ty? (solution : Solution ε) (id : NodeId) :
    solution.nodeTypes[id]? = solution.slots.ty? (.node id) :=
  Std.TreeMap.getElem?_filterMap'

theorem Solution.declTypes_eq_ty? (solution : Solution ε) (id : DeclId) :
    solution.declTypes[id]? = solution.slots.ty? (.decl id) :=
  Std.TreeMap.getElem?_filterMap'

end ScopedScript

/-
**Settling computes the least solution.**

A rule set stands for the least set of attributes that contains what was registered and that is
closed under its rules. The solver keeps three records that must agree: how many inputs each rule
still waits for, who waits for an attribute, and which attributes are settled:

* `AttributeTable.Kept`: a table that keeps the entries of another;
* `Derivable`: the least set;
* `Solver.Agrees`: the agreement of the records, with the wakes that are still owed;
* `Agrees.enroll`, `Agrees.wake`, `Agrees.deliver`: every step of the solver keeps it;
* `Solver.Reached`: what holds after some rules have fired, kept by the next one (`Reached.fire`);
* `RuleSet.settled_iff_derives`, `RuleSet.mem_firings`: the solver settles what is derivable, and
  fires the rules whose inputs are;
* `RuleSet.solve_least`: **the solution is the least one, every rule with derivable inputs fires
  once, and the report is what the fired rules complain about, then the rules that never fired.**
-/

import Mathlib.Data.List.Nodup
import Mathlib.Data.List.Perm.Subperm
import ScopedScript.Typing.RuleSet

namespace ScopedScript

/-! ### Tables -/

namespace AttributeTable

variable {α : Type} {table : AttributeTable α} {key other : Attribute} {entry : α}

theorem contains_eq (table : AttributeTable α) (key : Attribute) :
    table.contains key = (table.get? key).isSome := by
  cases key <;> exact Std.TreeMap.contains_eq_isSome_getElem?

theorem contains_iff : table.contains key = true ↔ ∃ entry, table.get? key = some entry := by
  rw [contains_eq, Option.isSome_iff_exists]

theorem get?_insert_self : (table.insert key entry).get? key = some entry := by
  cases key <;> exact Std.TreeMap.getElem?_insert_self

theorem get?_insert_other (different : key ≠ other) :
    (table.insert key entry).get? other = table.get? other := by
  cases key with
  | node id =>
    cases other with
    | decl => rfl
    | node other =>
      have apart : compare id other ≠ .eq := fun same => different (by rw [Nat.compare_eq_eq.mp same])
      exact Std.TreeMap.getElem?_insert.trans (if_neg apart)
  | decl id =>
    cases other with
    | node => rfl
    | decl other =>
      have apart : compare id other ≠ .eq := fun same => different (by rw [Nat.compare_eq_eq.mp same])
      exact Std.TreeMap.getElem?_insert.trans (if_neg apart)

/-- Every entry of a table is still there in a later one. -/
def Kept (table later : AttributeTable α) : Prop :=
  ∀ ⦃key entry⦄, table.get? key = some entry → later.get? key = some entry

theorem kept_insert (new : table.contains key = false) : table.Kept (table.insert key entry) := by
  intro other old found
  rw [get?_insert_other, found]
  rintro rfl
  rw [contains_eq, found] at new
  cases new

end AttributeTable

/-! ### What rules stand for -/

/-- The type of an attribute that is settled and did not fail. -/
def AttributeTable.ty? (slots : AttributeTable Slot) (key : Attribute) : Option Ty :=
  (slots.get? key).bind Solution.readyTy?

namespace Rule

variable {ε : Type}

/-- What a rule settles its output with, where the table gives the types of its inputs. -/
def outcome (rule : Rule ε) (slots : AttributeTable Slot) : Slot :=
  match rule.deps.mapM slots.ty? with
  | none => .failed
  | some types =>
    match rule.compute types with
    | .ok ty => .ready ty
    | .error _ => .failed

/-- What a rule reports, where the table gives the types of its inputs. -/
def complaint (rule : Rule ε) (slots : AttributeTable Slot) : Option ε :=
  match rule.deps.mapM slots.ty? with
  | none => none
  | some types =>
    match rule.compute types with
    | .ok _ => none
    | .error error => some error

/-- How many inputs of a rule are not settled. -/
def unsettled (rule : Rule ε) (slots : AttributeTable Slot) : Nat :=
  rule.deps.countP fun dep => !slots.contains dep

end Rule

/-- The least set of attributes that has what is given and is closed under the rules. -/
inductive Derivable {ε : Type} (given : Attribute → Prop) (rules : List (Rule ε)) :
    Attribute → Prop where
  | given {key : Attribute} (settled : given key) : Derivable given rules key
  | rule {key : Attribute} {rule : Rule ε} (member : rule ∈ rules) (output : rule.output = some key)
      (inputs : ∀ dep ∈ rule.deps, Derivable given rules dep) : Derivable given rules key

/-- What a rule set derives. -/
def RuleSet.Derives {ε : Type} (set : RuleSet ε) : Attribute → Prop :=
  Derivable (fun key => set.slots.contains key = true) set.rules.toList

namespace Solver

variable {ε : Type} {rules : List (Rule ε)} {solver : Solver ε} {slots later : AttributeTable Slot}

/-! ### Inputs -/

theorem inputs?_eq_mapM (slots : AttributeTable Slot) (deps : List Attribute) :
    inputs? slots deps = deps.mapM slots.ty? := by
  induction deps with
  | nil => rfl
  | cons dep rest ih =>
    rw [inputs?, List.mapM_cons, ← ih, AttributeTable.ty?]
    cases slots.get? dep with
    | none => rfl
    | some slot =>
      cases slot with
      | failed => rfl
      | ready ty => cases inputs? slots rest <;> rfl

theorem outcome_congr {rule : Rule ε} {slots slots' : AttributeTable Slot}
    (same : ∀ dep ∈ rule.deps, slots.get? dep = slots'.get? dep) :
    rule.outcome slots = rule.outcome slots' ∧ rule.complaint slots = rule.complaint slots' := by
  have types : rule.deps.mapM slots.ty? = rule.deps.mapM slots'.ty? := by
    generalize rule.deps = deps at same
    induction deps with
    | nil => rfl
    | cons dep rest ih =>
      rw [List.mapM_cons, List.mapM_cons, ih fun other member => same other (.tail dep member),
        AttributeTable.ty?, AttributeTable.ty?, same dep List.mem_cons_self]
  unfold Rule.outcome Rule.complaint
  rw [types]
  exact ⟨rfl, rfl⟩

/-! ### The records of a solver -/

theorem unsettled_eq_zero {rule : Rule ε} :
    rule.unsettled slots = 0 ↔ ∀ dep ∈ rule.deps, slots.contains dep = true := by
  simp [Rule.unsettled, List.countP_eq_zero]

/-- Settling an attribute leaves a rule with one open input less for each time it reads it. -/
theorem unsettled_insert (rule : Rule ε) {key : Attribute} (slot : Slot)
    (new : slots.contains key = false) :
    rule.unsettled slots = rule.unsettled (slots.insert key slot) + rule.deps.count key := by
  unfold Rule.unsettled
  induction rule.deps with
  | nil => rfl
  | cons dep rest ih =>
    rw [List.countP_cons, List.countP_cons, List.count_cons, ih]
    by_cases same : dep = key
    · subst same
      have settled : (slots.insert dep slot).contains dep = true := by
        rw [AttributeTable.contains_eq, AttributeTable.get?_insert_self, Option.isSome_some]
      rw [new, settled, if_pos (by decide), if_neg (by decide), if_pos (beq_self_eq_true dep)]
      omega
    · have unmoved : (slots.insert key slot).contains dep = slots.contains dep := by
        rw [AttributeTable.contains_eq, AttributeTable.contains_eq,
          AttributeTable.get?_insert_other (Ne.symm same)]
      rw [unmoved, beq_eq_false_iff_ne.mpr same, if_neg Bool.false_ne_true]
      omega

/-- The records of a solver agree with the rules and with each other. Settling an attribute is one
wake per rule that waits for it; `owed` are the wakes not made yet. -/
structure Agrees (rules : List (Rule ε)) (solver : Solver ε) (owed : List Nat) : Prop where
  counted : ∀ index, solver.missing[index]? =
    rules[index]?.map fun rule => rule.unsettled solver.slots + owed.count index
  waiting : ∀ key, solver.slots.contains key = false → ∀ index,
    (solver.waitersOf key).count index = rules[index]?.elim 0 fun rule => rule.deps.count key
  ready : ∀ index, index ∈ solver.agenda.toList ↔ solver.missing[index]? = some 0
  once : solver.agenda.toList.Nodup
  known : ∀ index ∈ owed, index < rules.length

theorem nodup_push {agenda : Array Nat} {index : Nat} (once : agenda.toList.Nodup)
    (absent : index ∉ agenda.toList) : (agenda.push index).toList.Nodup := by
  rw [Array.toList_push, ← List.concat_eq_append]
  exact once.concat absent

/-- A rule that delivers settles its output and wakes what waits for it, unless that is settled. -/
theorem deliver_cases (solver : Solver ε) (output : Option Attribute) (slot : Slot) :
    (∀ key, output = some key → solver.slots.contains key = true) ∧ solver.deliver output slot = solver ∨
      ∃ key, output = some key ∧ solver.slots.contains key = false ∧ solver.deliver output slot =
        (solver.waitersOf key).foldl wake { solver with slots := solver.slots.insert key slot } := by
  cases output with
  | none => exact .inl ⟨nofun, rfl⟩
  | some key =>
    cases settled : solver.slots.contains key with
    | true => exact .inl ⟨fun _ same => Option.some.inj same ▸ settled, if_pos settled⟩
    | false => exact .inr ⟨key, rfl, settled, if_neg (Bool.eq_false_iff.mp settled)⟩

namespace Agrees

variable {owed : List Nat} {index : Nat} {key : Attribute}

/-- The agenda has a rule if and only if all its inputs are settled. -/
theorem mem_agenda (agrees : Agrees rules solver []) : index ∈ solver.agenda.toList ↔
      ∃ rule, rules[index]? = some rule ∧ ∀ dep ∈ rule.deps, solver.slots.contains dep = true := by
  rw [agrees.ready, agrees.counted, Option.map_eq_some_iff]
  simp only [List.count_nil, Nat.add_zero, unsettled_eq_zero]

/-- A rule that is owed a wake is there, and waits. -/
theorem awaits (agrees : Agrees rules solver (index :: owed)) :
    ∃ rule, rules[index]? = some rule ∧
      solver.missing[index]? = some (rule.unsettled solver.slots + owed.count index + 1) ∧
      solver.missing.getD index 0 - 1 = rule.unsettled solver.slots + owed.count index := by
  have found := List.getElem?_eq_getElem (agrees.known index List.mem_cons_self)
  have here := agrees.counted index
  rw [found, Option.map_some, List.count_cons_self, ← Nat.add_assoc] at here
  refine ⟨_, found, here, ?_⟩
  rw [Array.getD_eq_getD_getElem?, here, Option.getD_some, Nat.add_sub_cancel]

theorem wake (agrees : Agrees rules solver (index :: owed)) :
    Agrees rules (solver.wake index) owed := by
  obtain ⟨rule, found, here, left⟩ := agrees.awaits
  have stands : ∀ other, (solver.wake index).missing[other]? =
      rules[other]?.map fun rule => rule.unsettled solver.slots + owed.count other := by
    intro other
    simp only [Solver.wake, left, Array.getElem?_setIfInBounds]
    by_cases same : index = other
    · subst same
      rw [if_pos rfl, found, Option.map_some, if_pos (Array.getElem?_eq_some_iff.mp here).1]
    · rw [if_neg same, agrees.counted, List.count_cons_of_ne same]
  -- The rule was not on the agenda: it still waited for the input of this wake.
  have absent : index ∉ solver.agenda.toList := by
    rw [agrees.ready, here]
    simp
  refine ⟨stands, agrees.waiting, fun other => ?_, ?_,
    fun other member => agrees.known other (List.mem_cons_of_mem _ member)⟩
  · rw [stands other]
    by_cases same : index = other
    · subst same
      rw [found, Option.map_some, Option.some.injEq]
      simp only [Solver.wake, left]
      split
      · rename_i done
        simp [done]
      · rename_i open_
        exact iff_of_false absent open_
    · have before := agrees.ready other
      rw [agrees.counted, List.count_cons_of_ne same] at before
      rw [← before]
      simp only [Solver.wake]
      split
      · simp [Ne.symm same]
      · rfl
  · simp only [Solver.wake]
    split
    · exact nodup_push agrees.once absent
    · exact agrees.once

theorem wakes (agrees : Agrees rules solver owed) :
    Agrees rules (owed.foldl Solver.wake solver) [] := by
  induction owed generalizing solver with
  | nil => exact agrees
  | cons index rest ih => exact ih agrees.wake

/-- Settling an attribute owes a wake to each rule that waits for it. -/
theorem settle (agrees : Agrees rules solver []) (slot : Slot)
    (new : solver.slots.contains key = false) :
    Agrees rules { solver with slots := solver.slots.insert key slot } (solver.waitersOf key) := by
  refine ⟨fun index => ?_, fun other open_ index => ?_, agrees.ready, agrees.once,
    fun index member => ?_⟩
  · show solver.missing[index]? = _
    rw [agrees.counted, agrees.waiting key new]
    cases rules[index]? with
    | none => rfl
    | some rule => exact congrArg some (unsettled_insert rule slot new)
  · refine agrees.waiting other ?_ index
    rw [AttributeTable.contains_eq] at open_ ⊢
    by_cases same : key = other
    · subst same
      rw [AttributeTable.get?_insert_self] at open_
      cases open_
    · rw [← AttributeTable.get?_insert_other same]
      exact open_
  · have positive := List.count_pos_iff.mpr member
    rw [agrees.waiting key new] at positive
    by_contra outside
    rw [List.getElem?_eq_none (Nat.le_of_not_lt outside)] at positive
    exact Nat.lt_irrefl 0 positive

theorem deliver (agrees : Agrees rules solver []) (output : Option Attribute) (slot : Slot) :
    Agrees rules (solver.deliver output slot) [] := by
  rcases deliver_cases solver output slot with ⟨-, same⟩ | ⟨key, -, new, same⟩
  · rwa [same]
  · rw [same]
    exact (agrees.settle slot new).wakes

end Agrees

/-- A rule that waits for inputs is added once for each of them. -/
theorem waiters_enroll (index : Nat) (deps : List Attribute) (waiters : AttributeTable (List Nat))
    (key : Attribute) :
    ((deps.foldl (fun waiters dep => waiters.insert dep ((waiters.get? dep).getD [] ++ [index]))
        waiters).get? key).getD [] =
      (waiters.get? key).getD [] ++ List.replicate (deps.count key) index := by
  induction deps generalizing waiters with
  | nil => simp
  | cons dep rest ih =>
    rw [List.foldl_cons, ih]
    by_cases same : dep = key
    · subst same
      rw [AttributeTable.get?_insert_self, List.count_cons_self, Option.getD_some,
        List.append_assoc, List.singleton_append, ← List.replicate_succ]
    · rw [AttributeTable.get?_insert_other same, List.count_cons_of_ne same]

theorem getElem?_concat_other (rule : Rule ε) {index : Nat} (other : index ≠ rules.length) :
    (rules ++ [rule])[index]? = rules[index]? := by
  by_cases inside : index < rules.length
  · exact List.getElem?_append_left inside
  · have outside : (rules ++ [rule]).length ≤ index := by
      rw [List.length_append, List.length_singleton]
      omega
    rw [List.getElem?_eq_none outside, List.getElem?_eq_none (Nat.le_of_not_lt inside)]

/-- The records agree on one more rule once it is enrolled. -/
theorem Agrees.enroll (agrees : Agrees rules solver []) (rule : Rule ε) :
    Agrees (rules ++ [rule]) (solver.enroll rules.length rule) [] := by
  have size : solver.missing.size = rules.length := by
    refine Nat.le_antisymm (Nat.le_of_not_lt fun more => ?_) (Nat.le_of_not_lt fun less => ?_)
    · have outside := agrees.counted rules.length
      rw [List.getElem?_eq_none (Nat.le_refl _), Array.getElem?_eq_getElem more] at outside
      cases outside
    · have inside := agrees.counted solver.missing.size
      rw [List.getElem?_eq_getElem less, Array.getElem?_eq_none (Nat.le_refl _)] at inside
      cases inside
  have open_ : (rule.deps.filter fun dep => !solver.slots.contains dep).length =
      rule.unsettled solver.slots := List.countP_eq_length_filter.symm
  have stands : ∀ index : Nat, (solver.enroll rules.length rule).missing[index]? =
      (rules ++ [rule])[index]?.map fun rule : Rule ε => rule.unsettled solver.slots + 0 := by
    intro index
    simp only [Solver.enroll, open_, Array.getElem?_push, size]
    by_cases last : index = rules.length
    · subst last
      simp
    · rw [if_neg last, agrees.counted, getElem?_concat_other rule last]
      rfl
  have absent : rules.length ∉ solver.agenda.toList := by
    rw [agrees.ready, agrees.counted, List.getElem?_eq_none (Nat.le_refl _)]
    simp
  refine ⟨stands, fun key new index => ?_, fun index => ?_, ?_, fun _ member => nomatch member⟩
  · have asked : (rule.deps.filter fun dep => !solver.slots.contains dep).count key =
        rule.deps.count key := List.count_filter (by
      show (!solver.slots.contains key) = true
      rw [show solver.slots.contains key = false from new, Bool.not_false])
    show (((Solver.enroll solver rules.length rule).waiters.get? key).getD []).count index = _
    simp only [Solver.enroll, waiters_enroll, List.count_append, asked]
    have before := agrees.waiting key new index
    unfold waitersOf at before
    rw [before, List.count_replicate]
    by_cases last : index = rules.length
    · subst last
      simp
    · rw [if_neg (by simpa using Ne.symm last), Nat.add_zero, getElem?_concat_other rule last]
  · rw [stands index]
    simp only [Solver.enroll, List.isEmpty_iff, ← List.length_eq_zero_iff, open_]
    by_cases last : index = rules.length
    · subst last
      by_cases done : rule.unsettled solver.slots = 0 <;> simp [done, absent]
    · have before := agrees.ready index
      rw [agrees.counted] at before
      rw [getElem?_concat_other rule last]
      refine Iff.trans ?_ before
      split <;> simp [last]
  · simp only [Solver.enroll]
    split
    · exact nodup_push agrees.once absent
    · exact agrees.once

/-- Before a rule has fired, the records agree on all rules. -/
theorem agrees_start (set : RuleSet ε) : Agrees set.rules.toList (start set) [] := by
  have fresh : Agrees [] (⟨set.slots, #[], .empty, #[], 0, #[]⟩ : Solver ε) [] :=
    ⟨fun _ => rfl, fun key _ _ => by cases key <;> rfl, fun _ => by simp, List.nodup_nil,
      fun _ member => nomatch member⟩
  unfold start
  generalize (⟨set.slots, #[], .empty, #[], 0, #[]⟩ : Solver ε) = first at fresh
  suffices all : ∀ (rest enrolled : List (Rule ε)) (solver : Solver ε), Agrees enrolled solver [] →
      Agrees (enrolled ++ rest) ((rest.zipIdx enrolled.length).foldl
        (fun solver entry => solver.enroll entry.2 entry.1) solver) [] from
    all set.rules.toList [] first fresh
  intro rest
  induction rest with
  | nil =>
    intro enrolled solver agrees
    rw [List.append_nil]
    exact agrees
  | cons rule rest ih =>
    intro enrolled solver agrees
    have later := ih (enrolled ++ [rule]) _ (agrees.enroll rule)
    rwa [List.append_assoc, List.length_append, List.length_singleton] at later

/-! ### Firing -/

/-- The rules that have fired, in order. -/
def history (solver : Solver ε) : List Nat := solver.agenda.toList.take solver.fired

/-- A rule counts as fired, and reports. -/
def noted (solver : Solver ε) (rule : Rule ε) : Solver ε :=
  { solver with
    fired := solver.fired + 1
    errors := solver.errors ++ (rule.complaint solver.slots).toArray }

theorem fire_eq (solver : Solver ε) (rule : Rule ε) :
    solver.fire rule = (solver.noted rule).deliver rule.output (rule.outcome solver.slots) := by
  simp only [fire, noted, inputs?_eq_mapM, Rule.outcome, Rule.complaint]
  cases rule.deps.mapM solver.slots.ty? with
  | none => simp
  | some types => cases computed : rule.compute types <;> simp [computed]

theorem wakes_frame (owed : List Nat) (solver : Solver ε) :
    (owed.foldl wake solver).slots = solver.slots ∧
    (owed.foldl wake solver).fired = solver.fired ∧
    (owed.foldl wake solver).errors = solver.errors ∧
    solver.agenda.toList <+: (owed.foldl wake solver).agenda.toList := by
  induction owed generalizing solver with
  | nil => exact ⟨rfl, rfl, rfl, List.prefix_rfl⟩
  | cons index rest ih =>
    obtain ⟨slots, fired, errors, extended⟩ := ih (solver.wake index)
    refine ⟨slots, fired, errors, List.IsPrefix.trans ?_ extended⟩
    unfold wake
    simp only
    split
    · rw [Array.toList_push]
      exact List.prefix_append _ _
    · exact List.prefix_rfl

variable (solver)

/-- Firing counts, reports, and adds to the agenda. -/
theorem fire_frame (rule : Rule ε) : (solver.fire rule).fired = solver.fired + 1 ∧
    (solver.fire rule).errors = solver.errors ++ (rule.complaint solver.slots).toArray ∧
    solver.agenda.toList <+: (solver.fire rule).agenda.toList := by
  rw [fire_eq]
  rcases deliver_cases (solver.noted rule) rule.output (rule.outcome solver.slots) with
    ⟨-, same⟩ | ⟨key, -, -, same⟩
  · rw [same]
    exact ⟨rfl, rfl, List.prefix_rfl⟩
  · rw [same]
    exact (wakes_frame _ _).2

/-- Firing settles the output of the rule, if that is not settled. -/
theorem fire_slots (rule : Rule ε) :
    (∀ key, rule.output = some key → solver.slots.contains key = true) ∧
      (solver.fire rule).slots = solver.slots ∨
    ∃ key, rule.output = some key ∧ solver.slots.contains key = false ∧
      (solver.fire rule).slots = solver.slots.insert key (rule.outcome solver.slots) := by
  rw [fire_eq]
  rcases deliver_cases (solver.noted rule) rule.output (rule.outcome solver.slots) with
    ⟨settled, same⟩ | ⟨key, output, new, same⟩
  · exact .inl ⟨settled, by rw [same]; rfl⟩
  · refine .inr ⟨key, output, new, ?_⟩
    rw [same]
    exact (wakes_frame _ _).1

theorem fire_kept (rule : Rule ε) :
    solver.slots.Kept (solver.fire rule).slots := by
  rcases fire_slots solver rule with ⟨-, same⟩ | ⟨key, -, new, same⟩
  · rw [same]
    exact fun _ _ found => found
  · rw [same]
    exact AttributeTable.kept_insert new

theorem fire_settles {rule : Rule ε} {key : Attribute}
    (output : rule.output = some key) : (solver.fire rule).slots.contains key = true := by
  rcases fire_slots solver rule with ⟨settled, same⟩ | ⟨written, writes, -, same⟩
  · rw [same]
    exact settled key output
  · cases output.symm.trans writes
    rw [same, AttributeTable.contains_eq, AttributeTable.get?_insert_self, Option.isSome_some]

variable {solver}

theorem Agrees.fire (agrees : Agrees rules solver []) (rule : Rule ε) :
    Agrees rules (solver.fire rule) [] := by
  have noted : Agrees rules (solver.noted rule) [] :=
    ⟨agrees.counted, agrees.waiting, agrees.ready, agrees.once, agrees.known⟩
  rw [fire_eq]
  exact noted.deliver _ _

/-- The next rule of the agenda joins the rules that have fired. -/
theorem history_fire {index : Nat} (rule : Rule ε)
    (next : solver.agenda[solver.fired]? = some index) :
    (solver.fire rule).history = solver.history ++ [index] := by
  obtain ⟨fired, -, more, same⟩ := fire_frame solver rule
  obtain ⟨inside, -⟩ := Array.getElem?_eq_some_iff.mp next
  unfold history
  rw [fired, ← same, List.take_add_one, List.take_append_of_le_length (Nat.le_of_lt inside),
    List.getElem?_append_left inside, Array.getElem?_toList, next, Option.toList_some]

/-- What holds of a solver after some rules of a set have fired. -/
structure Reached (set : RuleSet ε) (solver : Solver ε) : Prop where
  agrees : Agrees set.rules.toList solver []
  bounded : solver.fired ≤ solver.agenda.size
  kept : set.slots.Kept solver.slots
  derived : ∀ key, solver.slots.contains key = true → set.Derives key
  sourced : ∀ key slot, solver.slots.get? key = some slot →
    set.slots.get? key = some slot ∨
    ∃ index ∈ solver.history, ∃ rule, set.rules[index]? = some rule ∧
      rule.output = some key ∧ rule.outcome solver.slots = slot
  delivered : ∀ index ∈ solver.history, ∀ rule, set.rules[index]? = some rule →
    ∀ key, rule.output = some key → solver.slots.contains key = true
  errors : solver.errors.toList = solver.history.filterMap fun index =>
    set.rules[index]?.bind fun rule => rule.complaint solver.slots

theorem start_frame (set : RuleSet ε) : (start set).slots = set.slots ∧ (start set).fired = 0 ∧
    (start set).errors = #[] := by
  unfold start
  generalize set.rules.toList.zipIdx = entries
  suffices kept : ∀ solver : Solver ε,
      let later := entries.foldl (fun solver entry => solver.enroll entry.2 entry.1) solver
      later.slots = solver.slots ∧ later.fired = solver.fired ∧ later.errors = solver.errors from kept _
  induction entries with
  | nil => exact fun _ => ⟨rfl, rfl, rfl⟩
  | cons entry rest ih => exact fun solver => ih (solver.enroll entry.2 entry.1)

namespace Reached

variable {set : RuleSet ε} {index : Nat} {rule : Rule ε}

theorem start (set : RuleSet ε) : Reached set (start set) := by
  obtain ⟨slots, fired, errors⟩ := start_frame set
  have quiet : (Solver.start set).history = [] := by rw [history, fired, List.take_zero]
  refine ⟨agrees_start set, by rw [fired]; exact Nat.zero_le _, ?_, ?_, ?_, ?_, ?_⟩
  · rw [slots]
    exact fun _ _ found => found
  · rw [slots]
    exact fun key settled => .given settled
  · rw [slots]
    exact fun key slot found => .inl found
  · rw [quiet]
    exact fun _ member => nomatch member
  · rw [quiet, errors, List.filterMap_nil]

variable (reached : Reached set solver)

include reached

/-- The inputs of a rule on the agenda are settled. -/
theorem settled (ready : index ∈ solver.agenda.toList) (found : set.rules[index]? = some rule) :
    ∀ dep ∈ rule.deps, solver.slots.contains dep = true := by
  obtain ⟨other, here, inputs⟩ := reached.agrees.mem_agenda.mp ready
  rw [Array.getElem?_toList, found] at here
  cases here
  exact inputs

/-- A rule on the agenda reads the same in a later table. -/
theorem stable (ready : index ∈ solver.agenda.toList)
    (found : set.rules[index]? = some rule) (kept : solver.slots.Kept later) :
    rule.outcome later = rule.outcome solver.slots ∧
      rule.complaint later = rule.complaint solver.slots := by
  refine outcome_congr fun dep member => ?_
  obtain ⟨slot, here⟩ := AttributeTable.contains_iff.mp (reached.settled ready found dep member)
  rw [here, kept here]

theorem fire (next : solver.agenda[solver.fired]? = some index)
    (found : set.rules[index]? = some rule) : Reached set (solver.fire rule) := by
  have ready : index ∈ solver.agenda.toList := Array.mem_toList_iff.mpr (Array.mem_of_getElem? next)
  have inputs := reached.settled ready found
  have log := history_fire rule next
  obtain ⟨fired, reported, extended⟩ := fire_frame solver rule
  have slots := fire_slots solver rule
  have kept := fire_kept solver rule
  have past : ∀ {other : Nat}, other ∈ solver.history → other ∈ solver.agenda.toList :=
    List.mem_of_mem_take
  refine ⟨reached.agrees.fire rule, ?_, fun key slot given => kept (reached.kept given),
    ?_, ?_, ?_, ?_⟩
  · obtain ⟨inside, -⟩ := Array.getElem?_eq_some_iff.mp next
    have longer := extended.length_le
    simp only [Array.length_toList] at longer
    omega
  · intro key settled
    rcases slots with ⟨-, same⟩ | ⟨written, output, -, same⟩
    · exact reached.derived key (same ▸ settled)
    · by_cases equal : written = key
      · subst equal
        exact .rule (Array.mem_toList_iff.mpr (Array.mem_of_getElem? found)) output
          fun dep member => reached.derived dep (inputs dep member)
      · rw [same, AttributeTable.contains_eq, AttributeTable.get?_insert_other equal,
          ← AttributeTable.contains_eq] at settled
        exact reached.derived key settled
  · intro key slot here
    rw [log]
    have before : solver.slots.get? key = some slot →
        set.slots.get? key = some slot ∨ ∃ index' ∈ solver.history ++ [index], ∃ rule',
          set.rules[index']? = some rule' ∧ rule'.output = some key ∧
            rule'.outcome (solver.fire rule).slots = slot := by
      intro older
      rcases reached.sourced key slot older with given | ⟨other, member, writer, known, output, same⟩
      · exact .inl given
      · refine .inr ⟨other, List.mem_append_left _ member, writer, known, output, ?_⟩
        rw [(reached.stable (past member) known kept).1]
        exact same
    rcases slots with ⟨-, same⟩ | ⟨written, output, -, same⟩
    · exact before (same ▸ here)
    · by_cases equal : written = key
      · subst equal
        rw [same, AttributeTable.get?_insert_self] at here
        refine .inr ⟨index, by simp, rule, found, output, ?_⟩
        rw [(reached.stable ready found kept).1]
        exact Option.some.inj here
      · rw [same, AttributeTable.get?_insert_other equal] at here
        exact before here
  · rw [log]
    intro other member writer known key output
    rcases List.mem_append.mp member with older | new
    · have standing := reached.delivered other older writer known key output
      rw [AttributeTable.contains_iff] at standing ⊢
      obtain ⟨slot, here⟩ := standing
      exact ⟨slot, kept here⟩
    · cases List.mem_singleton.mp new
      rw [found] at known
      cases known
      exact fire_settles solver output
  · rw [reported, log, List.filterMap_append, Array.toList_append, reached.errors]
    congr 1
    · refine List.filterMap_congr fun other member => ?_
      cases known : set.rules[other]? with
      | none => rfl
      | some writer => exact (reached.stable (past member) known kept).2.symm
    · rw [List.filterMap_cons, found, Option.bind_some, (reached.stable ready found kept).2]
      cases rule.complaint solver.slots <;> rfl

/-- Where no input failed, a rule fails only with a complaint. -/
theorem ready_or_complains (ready : index ∈ solver.agenda.toList)
    (found : set.rules[index]? = some rule)
    (fine : ∀ key, solver.slots.get? key ≠ some .failed) :
    (∃ ty, rule.outcome solver.slots = .ready ty) ∨
      ∃ error, rule.complaint solver.slots = some error := by
  have typed : ∃ types, rule.deps.mapM solver.slots.ty? = some types := by
    have settled := reached.settled ready found
    generalize rule.deps = deps at settled
    induction deps with
    | nil => exact ⟨[], rfl⟩
    | cons dep rest ih =>
      obtain ⟨types, others⟩ := ih fun other member => settled other (List.mem_cons_of_mem _ member)
      have here := settled dep List.mem_cons_self
      rw [AttributeTable.contains_iff] at here
      obtain ⟨slot, here⟩ := here
      cases slot with
      | failed => exact absurd here (fine dep)
      | ready ty =>
        have first : solver.slots.ty? dep = some ty := by
          rw [AttributeTable.ty?, here]
          rfl
        exact ⟨ty :: types, by rw [List.mapM_cons, first, others]; rfl⟩
  obtain ⟨types, typed⟩ := typed
  unfold Rule.outcome Rule.complaint
  rw [typed]
  cases computed : rule.compute types with
  | ok ty => exact .inl ⟨ty, by simp only [computed]⟩
  | error error => exact .inr ⟨error, by simp only [computed]⟩

/-- As long as nothing is reported, nothing fails. -/
theorem fire_unfailed
    (next : solver.agenda[solver.fired]? = some index) (found : set.rules[index]? = some rule)
    (fine : solver.errors = #[] → ∀ key, solver.slots.get? key ≠ some .failed) :
    (solver.fire rule).errors = #[] → ∀ key, (solver.fire rule).slots.get? key ≠ some .failed := by
  intro quiet key
  have ready : index ∈ solver.agenda.toList := Array.mem_toList_iff.mpr (Array.mem_of_getElem? next)
  rw [(fire_frame solver rule).2.1, Array.append_eq_empty_iff] at quiet
  have fine := fine quiet.1
  rcases fire_slots solver rule with ⟨-, same⟩ | ⟨written, -, -, same⟩
  · rw [same]
    exact fine key
  · rw [same]
    by_cases equal : written = key
    · subst equal
      rw [AttributeTable.get?_insert_self]
      rcases reached.ready_or_complains ready found fine with ⟨ty, typed⟩ | ⟨error, complains⟩
      · rw [typed]
        simp
      · rw [complains] at quiet
        exact absurd quiet.2 (by simp)
    · rw [AttributeTable.get?_insert_other equal]
      exact fine key

theorem known (ready : index ∈ solver.agenda.toList) : ∃ rule, set.rules[index]? = some rule := by
  obtain ⟨rule, here, -⟩ := reached.agrees.mem_agenda.mp ready
  exact ⟨rule, Array.getElem?_toList ▸ here⟩

/-- No more rules become ready than there are. -/
theorem agenda_le : solver.agenda.size ≤ set.rules.size := by
  have inside : solver.agenda.toList ⊆ List.range set.rules.size := by
    intro index ready
    obtain ⟨rule, found⟩ := reached.known ready
    exact List.mem_range.mpr (Array.getElem?_eq_some_iff.mp found).1
  have fewer := (reached.agrees.once.subperm inside).length_le
  rwa [Array.length_toList, List.length_range] at fewer

end Reached

/-- The rules that a run fires, in order. -/
def firings (rules : Array (Rule ε)) : Nat → Solver ε → List Nat
  | 0, _ => []
  | bound + 1, solver =>
    match solver.agenda[solver.fired]? with
    | none => []
    | some index =>
      match rules[index]? with
      | none => []
      | some rule => index :: firings rules bound (solver.fire rule)

theorem run_eq_foldl (rules : Array (Rule ε)) (bound : Nat) (solver : Solver ε) :
    run rules bound solver = (firings rules bound solver).foldl
      (fun solver index => rules[index]?.elim solver solver.fire) solver := by
  induction bound generalizing solver with
  | zero => rfl
  | succ bound ih =>
    unfold run firings
    cases solver.agenda[solver.fired]? with
    | none => rfl
    | some index =>
      cases found : rules[index]? with
      | none => simp [found]
      | some rule => simp [found, ih]

variable {set : RuleSet ε}

/-- A run fires rules of the agenda, until none is left or the bound is used up. -/
theorem run_reached (bound : Nat) (reached : Reached set solver) :
    Reached set (run set.rules bound solver) ∧
    (run set.rules bound solver).history = solver.history ++ firings set.rules bound solver ∧
    (set.rules.size ≤ solver.fired + bound →
      (run set.rules bound solver).fired = (run set.rules bound solver).agenda.size) := by
  induction bound generalizing solver with
  | zero =>
    refine ⟨reached, (List.append_nil _).symm, fun enough => ?_⟩
    exact Nat.le_antisymm reached.bounded (Nat.le_trans reached.agenda_le enough)
  | succ bound ih =>
    cases next : solver.agenda[solver.fired]? with
    | none =>
      simp only [run, firings, next, Option.bind_none, List.append_nil]
      refine ⟨reached, trivial, fun _ => ?_⟩
      exact Nat.le_antisymm reached.bounded (Array.getElem?_eq_none_iff.mp next)
    | some index =>
      obtain ⟨rule, found⟩ := reached.known
        (Array.mem_toList_iff.mpr (Array.mem_of_getElem? next))
      simp only [run, firings, next, found, Option.bind_some]
      obtain ⟨done, log, complete⟩ := ih (reached.fire next found)
      refine ⟨done, ?_, fun enough => complete ?_⟩
      · rw [log, history_fire rule next, List.append_assoc, List.singleton_append]
      · rw [(fire_frame solver rule).1]
        omega

/-- A run that reports nothing lets nothing fail. -/
theorem run_unfailed (bound : Nat) (reached : Reached set solver)
    (fine : solver.errors = #[] → ∀ key, solver.slots.get? key ≠ some .failed) :
    (run set.rules bound solver).errors = #[] →
      ∀ key, (run set.rules bound solver).slots.get? key ≠ some .failed := by
  induction bound generalizing solver with
  | zero => exact fine
  | succ bound ih =>
    cases next : solver.agenda[solver.fired]? with
    | none =>
      simp only [run, next, Option.bind_none]
      exact fine
    | some index =>
      obtain ⟨rule, found⟩ := reached.known
        (Array.mem_toList_iff.mpr (Array.mem_of_getElem? next))
      simp only [run, next, found, Option.bind_some]
      exact ih (reached.fire next found) (reached.fire_unfailed next found fine)

end Solver

/-! ### The solution -/

/-- A rule with an input that failed fails in silence. -/
theorem Rule.silent {ε : Type} {rule : Rule ε} {slots : AttributeTable Slot} {dep : Attribute}
    (member : dep ∈ rule.deps) (failed : slots.get? dep = some .failed) :
    rule.outcome slots = .failed ∧ rule.complaint slots = none := by
  have nothing : slots.ty? dep = none := by rw [AttributeTable.ty?, failed]; rfl
  have stopped : rule.deps.mapM slots.ty? = none := by
    obtain ⟨before, after, same⟩ := List.append_of_mem member
    rw [same, List.mapM_append, List.mapM_cons, nothing]
    cases before.mapM slots.ty? <;> rfl
  unfold Rule.outcome Rule.complaint
  rw [stopped]
  exact ⟨rfl, rfl⟩

namespace RuleSet

variable {ε : Type} (set : RuleSet ε) (report : Position → ε)

/-- The rules that settling fires, in order. -/
def firings : List Nat := Solver.firings set.rules set.rules.size (.start set)

/-- The rules that settling never fires, in order of registration. -/
def idle : List (Rule ε) :=
  set.rules.toList.zipIdx.filterMap fun entry =>
    if entry.2 ∈ set.firings then none else some entry.1

/-- The solver when no rule is left to fire. -/
def final : Solver ε := Solver.run set.rules set.rules.size (.start set)

theorem final_eq_foldl : set.final =
    set.firings.foldl (fun solver index => set.rules[index]?.elim solver solver.fire) (.start set) :=
  Solver.run_eq_foldl _ _ _

theorem final_reached : Solver.Reached set set.final ∧ set.final.history = set.firings ∧
    set.final.agenda.toList = set.firings := by
  obtain ⟨reached, log, complete⟩ := Solver.run_reached set.rules.size (Solver.Reached.start set)
  have all : set.final.fired = set.final.agenda.size := complete (Nat.le_add_left _ _)
  have same : set.final.history = set.firings := by
    refine log.trans ?_
    rw [Solver.history, (Solver.start_frame set).2.1, List.take_zero, List.nil_append, firings]
  refine ⟨reached, same, ?_⟩
  rw [← same, Solver.history, all, ← Array.length_toList, List.take_length]

/-- **The settled attributes are those that are derivable.** -/
theorem settled_iff_derives (key : Attribute) :
    set.final.slots.contains key = true ↔ set.Derives key := by
  obtain ⟨reached, log, all⟩ := set.final_reached
  refine ⟨reached.derived key, fun derivable => ?_⟩
  induction derivable with
  | given settled =>
    rw [AttributeTable.contains_iff] at settled ⊢
    obtain ⟨slot, found⟩ := settled
    exact ⟨slot, reached.kept found⟩
  | rule member output inputs ih =>
    obtain ⟨index, found⟩ := List.mem_iff_getElem?.mp member
    have ready := reached.agrees.mem_agenda.mpr ⟨_, found, ih⟩
    rw [all, ← log] at ready
    exact reached.delivered index ready _ (Array.getElem?_toList ▸ found) _ output

/-- **The rules that fire are those whose inputs are derivable.** -/
theorem mem_firings {index : Nat} {rule : Rule ε} (found : set.rules[index]? = some rule) :
    index ∈ set.firings ↔ ∀ dep ∈ rule.deps, set.Derives dep := by
  obtain ⟨reached, -, all⟩ := set.final_reached
  rw [← all, reached.agrees.mem_agenda, Array.getElem?_toList, found]
  simp only [Option.some.injEq, exists_eq_left']
  exact forall₂_congr fun dep _ => set.settled_iff_derives dep

theorem nodup_firings : set.firings.Nodup := by
  obtain ⟨reached, -, all⟩ := set.final_reached
  exact all ▸ reached.agrees.once

theorem kept_final : set.slots.Kept set.final.slots := set.final_reached.1.kept

/-- A settled attribute is registered, or it is what a rule that fired makes of its inputs. -/
theorem sourced_final {key : Attribute} {slot : Slot} (found : set.final.slots.get? key = some slot) :
    set.slots.get? key = some slot ∨ ∃ index ∈ set.firings, ∃ rule, set.rules[index]? = some rule ∧
      rule.output = some key ∧ rule.outcome set.final.slots = slot := by
  obtain ⟨reached, log, -⟩ := set.final_reached
  exact log ▸ reached.sourced key slot found

/-- The rules that still wait for an input are those that never fire. -/
theorem stuck_final : set.final.stuck set.rules = set.idle := by
  obtain ⟨reached, -, all⟩ := set.final_reached
  have counts : set.rules.toList.zip set.final.missing.toList =
      set.rules.toList.zipIdx.map fun entry => (entry.1, entry.1.unsettled set.final.slots) := by
    refine List.ext_getElem? fun index => ?_
    have counted := reached.agrees.counted index
    rw [Array.getElem?_toList.symm] at counted
    rw [List.zip, List.getElem?_zipWith, counted, List.getElem?_map, List.getElem?_zipIdx]
    cases set.rules.toList[index]? <;> rfl
  unfold Solver.stuck idle
  rw [counts, List.filterMap_map]
  refine List.filterMap_congr fun entry member => ?_
  obtain ⟨index, found⟩ := List.mem_iff_getElem?.mp member
  rw [List.getElem?_zipIdx, Option.map_eq_some_iff] at found
  obtain ⟨rule, here, rfl⟩ := found
  have fires : 0 + index ∈ set.firings ↔ rule.unsettled set.final.slots = 0 := by
    rw [Nat.zero_add, ← all, reached.agrees.ready, reached.agrees.counted, here, Option.map_some,
      Option.some.injEq]
    rfl
  exact (if_congr fires rfl rfl).symm

/-- **The report: what fired rules complain about, then the rules that never fired.** -/
theorem errors_solve : (set.solve report).errors =
    (set.firings.filterMap fun index =>
      set.rules[index]?.bind fun rule => rule.complaint set.final.slots) ++
    set.idle.map fun rule => report rule.position := by
  obtain ⟨reached, log, -⟩ := set.final_reached
  show set.final.errors.toList ++ (set.final.stuck set.rules).map _ = _
  rw [reached.errors, log, set.stuck_final]

/-- Where nothing is registered as failed and nothing is reported, nothing fails. -/
theorem solve_unfailed (fine : ∀ key, set.slots.get? key ≠ some .failed)
    (quiet : (set.solve report).errors = []) (key : Attribute) :
    set.final.slots.get? key ≠ some .failed := by
  refine Solver.run_unfailed set.rules.size (Solver.Reached.start set) (fun _ => ?_) ?_ key
  · rw [(Solver.start_frame set).1]
    exact fine
  · exact Array.toList_eq_nil_iff.mp (List.append_eq_nil_iff.mp quiet).1

end RuleSet

/-! ### Registrations in a row -/

/-- One registration. -/
inductive RuleSet.Entry (ε : Type) where
  | set (key : Attribute) (ty : Ty)
  | fail (key : Attribute)
  | rule (rule : Rule ε)
  | check (deps : List Attribute) (position : Position) (test : List Ty → Except ε Unit)

namespace RuleSet.Entry

variable {ε : Type}

/-- Makes a registration. -/
def enter (set : RuleSet ε) : Entry ε → RuleSet ε
  | .set key ty => set.set key ty
  | .fail key => set.fail key
  | .rule added => set.rule added
  | .check deps position test => set.check deps position test

/-- What a registration settles an attribute with. -/
def settles? (key : Attribute) : Entry ε → Option Slot
  | .set other ty => if other = key then some (.ready ty) else none
  | .fail other => if other = key then some .failed else none
  | .rule _ | .check .. => none

/-- The rule that a registration adds; a check writes nothing. -/
def rule? : Entry ε → Option (Rule ε)
  | .rule added => some added
  | .check deps position test =>
    some ⟨deps, none, position, fun types => (test types).map fun _ => .unknown⟩
  | .set .. | .fail _ => none

end RuleSet.Entry

/-- The rule set of registrations in a row. -/
def RuleSet.of {ε : Type} (entries : List (Entry ε)) : RuleSet ε := entries.foldl Entry.enter .empty

namespace RuleSet

variable {ε : Type}

theorem get?_settle (set : RuleSet ε) (key other : Attribute) (slot : Slot) :
    (set.settle key slot).slots.get? other =
      (set.slots.get? other).or (if key = other then some slot else none) := by
  unfold settle
  by_cases same : key = other
  · subst same
    rw [AttributeTable.contains_eq, if_pos rfl]
    cases found : set.slots.get? key with
    | none => simp [AttributeTable.get?_insert_self]
    | some old => simp [found]
  · rw [if_neg same, Option.or_none]
    split
    · rfl
    · exact AttributeTable.get?_insert_other same

theorem rules_settle (set : RuleSet ε) (key : Attribute) (slot : Slot) :
    (set.settle key slot).rules = set.rules := by
  unfold settle
  split <;> rfl

theorem enter_eq (set : RuleSet ε) (entry : Entry ε) :
    (∀ key, (entry.enter set).slots.get? key = (set.slots.get? key).or (entry.settles? key)) ∧
    (entry.enter set).rules.toList = set.rules.toList ++ entry.rule?.toList := by
  cases entry with
  | set key ty =>
    refine ⟨fun other => get?_settle set key other _, ?_⟩
    rw [Entry.enter, RuleSet.set, rules_settle, Entry.rule?, Option.toList_none, List.append_nil]
  | fail key =>
    refine ⟨fun other => get?_settle set key other _, ?_⟩
    rw [Entry.enter, RuleSet.fail, rules_settle, Entry.rule?, Option.toList_none, List.append_nil]
  | rule rule => exact ⟨fun key => (Option.or_none).symm, Array.toList_push⟩
  | check deps position test =>
    refine ⟨fun key => (Option.or_none).symm, Array.toList_push.trans ?_⟩
    have same : (fun types => (do test types; return Ty.unknown : Except ε Ty)) =
        fun types => (test types).map fun _ => Ty.unknown := by
      funext types
      cases test types <;> rfl
    rw [same]
    rfl

/-- An attribute has the first value it is registered with, and the rules stand in order. -/
theorem of_eq (entries : List (Entry ε)) :
    (∀ key, (RuleSet.of entries).slots.get? key = entries.findSome? (Entry.settles? key)) ∧
    (RuleSet.of entries).rules.toList = entries.filterMap Entry.rule? := by
  suffices all : ∀ set : RuleSet ε,
      (∀ key, (entries.foldl Entry.enter set).slots.get? key =
        (set.slots.get? key).or (entries.findSome? (Entry.settles? key))) ∧
      (entries.foldl Entry.enter set).rules.toList =
        set.rules.toList ++ entries.filterMap Entry.rule? by
    obtain ⟨slots, rules⟩ := all .empty
    refine ⟨fun key => (slots key).trans ?_, rules⟩
    cases key <;> rfl
  induction entries with
  | nil => exact fun set => ⟨fun key => (Option.or_none).symm, (List.append_nil _).symm⟩
  | cons entry rest ih =>
    intro set
    obtain ⟨slots, rules⟩ := ih (entry.enter set)
    obtain ⟨slot, rule⟩ := enter_eq set entry
    constructor
    · intro key
      rw [List.foldl_cons, slots, slot, Option.or_assoc, List.findSome?_cons]
      cases entry.settles? key <;> rfl
    · rw [List.foldl_cons, rules, rule, List.append_assoc, List.filterMap_cons]
      cases entry.rule? <;> rfl

/-- **Settling computes the least solution.** After registrations in a row, and with `closed` the
least set of attributes that has those set or failed and the output of every rule whose inputs it
has: the rules fire one after the other; the settled attributes are `closed`; a rule with inputs in
`closed` fires once, any other never; an attribute keeps the first value it is registered with, and
any other holds what a rule that writes it makes of the final values of its inputs; an input that
failed makes a rule fail in silence; and the report is what the rules complain about, as they fire,
then one line for each that never did. -/
theorem solve_least (entries : List (Entry ε)) (report : Position → ε) : let set := RuleSet.of entries
    let solution := set.solve report
    let rules := entries.filterMap Entry.rule?
    let closed := Derivable (fun key => ∃ entry ∈ entries, (entry.settles? key).isSome) rules
    set.final = set.firings.foldl (fun solver index => rules[index]?.elim solver solver.fire)
      (.start set) ∧
    (∀ key, (solution.slots.get? key).isSome ↔ closed key) ∧
    (∀ index rule, rules[index]? = some rule →
      ((∀ dep ∈ rule.deps, closed dep) → set.firings.count index = 1) ∧
      (¬ (∀ dep ∈ rule.deps, closed dep) → set.firings.count index = 0)) ∧
    (∀ key slot, entries.findSome? (Entry.settles? key) = some slot →
      solution.slots.get? key = some slot) ∧
    (∀ key slot, entries.findSome? (Entry.settles? key) = none →
      solution.slots.get? key = some slot →
      ∃ index ∈ set.firings, ∃ rule, rules[index]? = some rule ∧ rule.output = some key ∧
        rule.outcome solution.slots = slot) ∧
    (∀ rule ∈ rules, ∀ dep ∈ rule.deps, solution.slots.get? dep = some .failed →
      rule.outcome solution.slots = .failed ∧ rule.complaint solution.slots = none) ∧
    solution.errors =
      (set.firings.filterMap fun index =>
        rules[index]?.bind fun rule => rule.complaint solution.slots) ++
      rules.zipIdx.filterMap fun entry =>
        if entry.2 ∈ set.firings then none else some (report entry.1.position) := by
  intro set solution rules closed
  obtain ⟨slots, listed⟩ := of_eq entries
  have here : ∀ index, set.rules[index]? = rules[index]? := fun index =>
    Array.getElem?_toList.symm.trans (congrArg (·[index]?) listed)
  have derives : set.Derives = closed := by
    unfold Derives
    rw [show set.rules.toList = rules from listed]
    refine congrArg (Derivable · rules) (funext fun key => propext ?_)
    rw [AttributeTable.contains_eq, slots, List.findSome?_isSome_iff]
  refine ⟨?_, fun key => ?_, fun index rule found => ⟨fun inputs => ?_, fun open_ => ?_⟩,
    fun key slot first => ?_, fun key slot unset found => ?_, fun rule _ dep member failed => ?_, ?_⟩
  · rw [set.final_eq_foldl]
    simp only [here]
  · rw [← derives, ← set.settled_iff_derives, AttributeTable.contains_eq]
    rfl
  · rw [← derives] at inputs
    exact List.count_eq_one_of_mem set.nodup_firings
      ((set.mem_firings ((here index).trans found)).mpr inputs)
  · rw [← derives] at open_
    exact List.count_eq_zero.mpr fun fires =>
      open_ ((set.mem_firings ((here index).trans found)).mp fires)
  · exact set.kept_final ((slots key).trans first)
  · rcases set.sourced_final found with given | ⟨index, fires, rule, written, result⟩
    · rw [slots, unset] at given
      cases given
    · exact ⟨index, fires, rule, (here index).symm.trans written, result⟩
  · exact Rule.silent member failed
  · refine (set.errors_solve report).trans ?_
    unfold idle
    rw [List.map_filterMap, show set.rules.toList = rules from listed]
    simp only [here]
    congr 1
    refine List.filterMap_congr fun entry _ => ?_
    by_cases fires : entry.2 ∈ set.firings <;> simp [fires]

/-- An attribute set twice, a rule that reads it twice, a rule that fails, one that reads what failed,
and two rules that wait for each other. Problems are numbers, and lines where a rule is stuck. -/
def tangled : List (Entry Nat) :=
  [.set (.node 0) .int, .set (.node 0) .bool,
    .rule ⟨[.node 0, .node 0], some (.node 1), ⟨1, 1⟩, fun types => .ok (types.headD .unknown)⟩,
    .rule ⟨[.node 1], some (.node 2), ⟨2, 1⟩, fun _ => .error 70⟩,
    .check [.node 2] ⟨3, 1⟩ fun _ => .error 80,
    .rule ⟨[.node 4], some (.node 3), ⟨4, 1⟩, fun _ => .ok .int⟩,
    .rule ⟨[.node 3], some (.node 4), ⟨5, 1⟩, fun _ => .ok .int⟩]

theorem solve_least_tangled : (RuleSet.of tangled).firings = [0, 1, 2] ∧
    ((RuleSet.of tangled).solve (·.line)).errors = [70, 4, 5] ∧
    ((RuleSet.of tangled).solve (·.line)).slots.get? (.node 0) = some (.ready .int) ∧
    (((RuleSet.of tangled).solve (·.line)).slots.get? (.node 3)).isSome = false ∧
    ¬ Derivable (fun key => ∃ entry ∈ tangled, (entry.settles? key).isSome)
      (tangled.filterMap Entry.rule?) (.node 3) := by
  obtain ⟨-, settled, -, first, -⟩ := solve_least tangled (·.line)
  have open_ : (((RuleSet.of tangled).solve (·.line)).slots.get? (.node 3)).isSome = false := by
    decide +kernel
  refine ⟨by decide +kernel, by decide +kernel, first _ _ rfl, open_, fun derivable => ?_⟩
  have closed := (settled (.node 3)).mpr derivable
  rw [open_] at closed
  cases closed

end RuleSet
end ScopedScript

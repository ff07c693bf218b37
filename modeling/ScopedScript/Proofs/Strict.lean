/-
**Settling without defaults.**

Where a number has no entry, a count is zero before it is lowered, or a rule is handed too few types,
settling falls back on a default. Strict settling has no result in such a case. It comes to the same as
settling, so no default is ever used:

* `Solver.wake?`, `Solver.deliver?`, `Solver.fire?`, `Solver.run?`: strict settling; a run of it also
  has no result when rules are still ready at its end;
* `RuleSet.solve?_eq`: **strict settling gives what settling gives**, for every rule set whose rules
  are handed what they read;
* `TypeReader`, `TypeReader.read`: what a typing rule reads, type by type; `Expr.readers`,
  `Stmt.readers` are those of a construct, in the order of its rules;
* `Program.check?_eq`: **a program is checked without defaults**, whatever its nodes and names.
-/

import Mathlib.Data.List.Forall2
import ScopedScript.Proofs.Determination

namespace ScopedScript

/-! ### Strict settling -/

namespace Solver

variable {ε : Type}

/-- One input of a waiting rule is settled. Without a result if there is no such rule, or if it waits
for nothing. -/
def wake? (solver : Solver ε) (index : Nat) : Option (Solver ε) :=
  match solver.missing[index]? with
  | some (left + 1) =>
    some
      { solver with
        missing := solver.missing.setIfInBounds index left
        agenda := if left = 0 then solver.agenda.push index else solver.agenda }
  | _ => none

/-- Settles the output of a rule, unless it is settled, and wakes what waits for it. -/
def deliver? (solver : Solver ε) (output : Option Attribute) (slot : Slot) : Option (Solver ε) :=
  match output with
  | none => some solver
  | some key =>
    if solver.slots.contains key then some solver
    else
      (solver.waitersOf key).foldlM wake? { solver with slots := solver.slots.insert key slot }

/-- Fires a rule that gets at the types of its inputs by `read`. -/
def fire? (solver : Solver ε) (rule : Rule ε) (read : List Ty → Option (Except ε Ty)) :
    Option (Solver ε) :=
  let solver := { solver with fired := solver.fired + 1 }
  match inputs? solver.slots rule.deps with
  | none => solver.deliver? rule.output .failed
  | some types =>
    match read types with
    | none => none
    | some (.ok ty) => solver.deliver? rule.output (.ready ty)
    | some (.error error) =>
      { solver with errors := solver.errors.push error }.deliver? rule.output .failed

/-- Fires the rules of the agenda. Without a result if one of them does not exist, or if some are left
after `bound` of them. -/
def run? (rules : Array (Rule ε)) (reads : List (List Ty → Option (Except ε Ty))) :
    Nat → Solver ε → Option (Solver ε)
  | bound, solver =>
    match solver.agenda[solver.fired]?, bound with
    | none, _ => some solver
    | some _, 0 => none
    | some index, bound + 1 =>
      match rules[index]?, reads[index]? with
      | some rule, some read => (solver.fire? rule read).bind (run? rules reads bound)
      | _, _ => none

end Solver

/-- Settles attributes strictly. -/
def RuleSet.solve? {ε : Type} (set : RuleSet ε) (reads : List (List Ty → Option (Except ε Ty)))
    (unsettled : Position → ε) : Option (Solution ε) :=
  (Solver.run? set.rules reads set.rules.size (.start set)).map fun final =>
    { slots := final.slots
      errors := final.errors.toList
        ++ (final.stuck set.rules).map fun rule => unsettled rule.position }

/-- A reading of as many types as a rule has inputs gives what the rule computes. -/
def Rule.ReadBy {ε : Type} (read : List Ty → Option (Except ε Ty)) (rule : Rule ε) : Prop :=
  ∀ types : List Ty, types.length = rule.deps.length → read types = some (rule.compute types)

namespace Solver

variable {ε : Type} {rules : List (Rule ε)} {solver : Solver ε} {owed : List Nat} {index : Nat}

theorem length_of_inputs? {slots : AttributeTable Slot} {deps : List Attribute} {types : List Ty}
    (found : inputs? slots deps = some types) : types.length = deps.length := by
  induction deps generalizing types with
  | nil =>
    cases found
    rfl
  | cons dep rest ih =>
    rw [inputs?] at found
    split at found
    · obtain ⟨others, further, rfl⟩ := Option.map_eq_some_iff.mp found
      rw [List.length_cons, List.length_cons, ih further]
    · cases found

theorem Agrees.wake?_eq (agrees : Agrees rules solver (index :: owed)) :
    solver.wake? index = some (solver.wake index) := by
  obtain ⟨rule, -, here, left⟩ := agrees.awaits
  simp only [Solver.wake?, here, Solver.wake, left]

theorem Agrees.wakes?_eq (agrees : Agrees rules solver owed) :
    owed.foldlM wake? solver = some (owed.foldl Solver.wake solver) := by
  induction owed generalizing solver with
  | nil => rfl
  | cons index rest ih =>
    rw [List.foldlM_cons, agrees.wake?_eq, List.foldl_cons, ← ih agrees.wake]
    rfl

theorem Agrees.deliver?_eq (agrees : Agrees rules solver []) (output : Option Attribute)
    (slot : Slot) : solver.deliver? output slot = some (solver.deliver output slot) := by
  cases output with
  | none => rfl
  | some key =>
    unfold Solver.deliver? Solver.deliver
    by_cases settled : solver.slots.contains key = true
    · simp only [settled, if_true]
    · simp only [settled, Bool.false_eq_true, if_false]
      exact (agrees.settle slot (Bool.eq_false_iff.mpr settled)).wakes?_eq

theorem Agrees.fire?_eq {rule : Rule ε} {read : List Ty → Option (Except ε Ty)}
    (agrees : Agrees rules solver []) (readBy : rule.ReadBy read) :
    solver.fire? rule read = some (solver.fire rule) := by
  have noted : ∀ errors : Array ε,
      Agrees rules { solver with fired := solver.fired + 1, errors := errors } [] :=
    fun _ => ⟨agrees.counted, agrees.waiting, agrees.ready, agrees.once, agrees.known⟩
  unfold Solver.fire? Solver.fire
  cases handed : inputs? solver.slots rule.deps with
  | none =>
    simp only [handed]
    exact (noted solver.errors).deliver?_eq _ _
  | some types =>
    simp only [handed, readBy types (length_of_inputs? handed)]
    cases rule.compute types with
    | ok ty => exact (noted solver.errors).deliver?_eq _ _
    | error error => exact (noted (solver.errors.push error)).deliver?_eq _ _

variable {set : RuleSet ε} {reads : List (List Ty → Option (Except ε Ty))}

theorem exists_read {rule : Rule ε} (readBy : List.Forall₂ Rule.ReadBy reads rules)
    (found : rules[index]? = some rule) : ∃ read, reads[index]? = some read ∧ rule.ReadBy read := by
  induction readBy generalizing index with
  | nil => cases found
  | @cons first other reads rules same _ ih =>
    cases index with
    | zero =>
      cases found
      exact ⟨first, rfl, same⟩
    | succ index => exact ih found

/-- A strict run, with enough of a bound, comes to what a run comes to. -/
theorem Reached.run?_eq {bound : Nat} (reached : Reached set solver)
    (readBy : List.Forall₂ Rule.ReadBy reads set.rules.toList)
    (enough : set.rules.size ≤ solver.fired + bound) :
    run? set.rules reads bound solver = some (run set.rules bound solver) := by
  induction bound generalizing solver with
  | zero =>
    -- all rules have fired, and no more than all are on the agenda
    have finished : solver.agenda[solver.fired]? = none :=
      Array.getElem?_eq_none_iff.mpr (Nat.le_trans reached.agenda_le enough)
    simp only [run?, run, finished]
  | succ bound ih =>
    cases next : solver.agenda[solver.fired]? with
    | none => simp only [run?, run, next, Option.bind_none]
    | some index =>
      obtain ⟨rule, found⟩ := reached.known
        (Array.mem_toList_iff.mpr (Array.mem_of_getElem? next))
      obtain ⟨read, stands, same⟩ := exists_read readBy (Array.getElem?_toList ▸ found)
      have fired := (fire_frame solver rule).1
      unfold run? run
      simp only [next, found, stands, Option.bind_some, reached.agrees.fire?_eq same]
      exact ih (reached.fire next found) (by omega)

end Solver

/-- Strict settling gives what settling gives. -/
theorem RuleSet.solve?_eq {ε : Type} {set : RuleSet ε}
    {reads : List (List Ty → Option (Except ε Ty))} (unsettled : Position → ε)
    (readBy : List.Forall₂ Rule.ReadBy reads set.rules.toList) :
    set.solve? reads unsettled = some (set.solve unsettled) := by
  unfold RuleSet.solve? RuleSet.solve
  rw [(Solver.Reached.start set).run?_eq readBy (Nat.le_add_left _ _), Option.map_some]

/-! ### What typing rules read -/

/-- What a typing rule does with the types that it is handed. -/
inductive TypeReader where
  /-- Passes on the first type. -/
  | copy
  /-- Looks whether the first type fits a role; the type of the construct is given. -/
  | fits (role : Role) (position : Position) (result : Ty)
  | unary (op : UnaryOp) (position : Position)
  | binary (op : BinaryOp) (position : Position)
  | index (position : Position)
  | store (position : Position)
  /-- Reads no type. -/
  | items
  /-- Goes along the types and the places of keys. -/
  | keys (positions : List Position)
  /-- The second type is read if there is a filter and the first type fits. -/
  | comprehension (source : Position) (filter : Option Position)
  /-- Goes along the types, the parameters and the places of arguments. -/
  | call (name : String) (signature : Signature) (positions : List Position)

/-- Reads types by their place. Without a result if one that is read is missing. -/
def TypeReader.read (reader : TypeReader) (types : List Ty) : Option (Except Diagnostic Ty) :=
  match reader with
  | .copy => types[0]?.map .ok
  | .fits role position result =>
    types[0]?.map fun ty => (Typing.fits role position ty).map fun _ => result
  | .unary op position => types[0]?.map (Typing.unary op position)
  | .binary op position => do return Typing.binary op position (← types[0]?) (← types[1]?)
  | .index position => do return Typing.index position (← types[0]?) (← types[1]?)
  | .store position => do
    return (Typing.store position (← types[0]?) (← types[1]?)).map fun _ => .unknown
  | .items => some (.ok .array)
  | .keys positions => some (Typing.keys positions types)
  | .comprehension source none =>
    types[0]?.map fun items => (Typing.fits .comprehensionSource source items).map fun _ => .array
  | .comprehension source (some position) =>
    types[0]?.bind fun items =>
      match Typing.fits .comprehensionSource source items with
      | .error error => some (.error error)
      | .ok _ =>
        types[1]?.map fun kept => (Typing.fits .comprehensionFilter position kept).map fun _ => .array
  | .call name signature positions => some (Typing.call name signature positions types)

/-- The reader of the rule of a call, if it has one. -/
def Scoping.callReader? (scoping : Scoping) (callee : Ident) (args : List Expr) : Option TypeReader :=
  match scoping.declOf? callee.id with
  | none => none
  | some (_, decl) =>
    match callable? decl.kind with
    | some (arity, some signature) =>
      if args.length = arity then some (.call callee.name signature (args.map Expr.position))
      else none
    | _ => none

mutual

/-- The readers of the rules of an expression, those of its parts first. -/
def Expr.readers (scoping : Scoping) : Expr → List TypeReader
  | .int _ _ | .bool _ _ | .text _ _ | .none _ => []
  | .name tag _ => (scoping.resolutions[tag.id]?.map fun _ => TypeReader.copy).toList
  | .binary tag op left right =>
    left.readers scoping ++ right.readers scoping ++ [.binary op tag.position]
  | .unary tag op operand => operand.readers scoping ++ [.unary op tag.position]
  | .index tag base index =>
    base.readers scoping ++ index.readers scoping ++ [.index tag.position]
  | .array _ items => exprsReaders scoping items ++ [.items]
  | .sized _ size => size.readers scoping ++ [.fits .arraySize size.position .array]
  | .map _ entries =>
    entriesReaders scoping entries ++ [.keys (entries.map fun entry => entry.1.position)]
  | .comprehension _ element _ source filter =>
    source.readers scoping ++ optionReaders scoping filter ++ element.readers scoping ++
      [.comprehension source.position (filter.map Expr.position)]
  | .call _ callee args =>
    exprsReaders scoping args ++ (scoping.callReader? callee args).toList

def exprsReaders (scoping : Scoping) : List Expr → List TypeReader
  | [] => []
  | first :: rest => first.readers scoping ++ exprsReaders scoping rest

def entriesReaders (scoping : Scoping) : List (Expr × Expr) → List TypeReader
  | [] => []
  | (key, value) :: rest =>
    key.readers scoping ++ value.readers scoping ++ entriesReaders scoping rest

def optionReaders (scoping : Scoping) : Option Expr → List TypeReader
  | none => []
  | some expr => expr.readers scoping

end

/-- The readers of the condition of a statement. -/
def conditionReaders (scoping : Scoping) (condition : Expr) : List TypeReader :=
  condition.readers scoping ++ [.fits .condition condition.position .unknown]

/-- The readers of an assignment to a name for its declaration. -/
def nameTargetReaders (scoping : Scoping) (tag : Tag) (ident : Ident) : List TypeReader :=
  match scoping.declOf? ident.id with
  | some (_, decl) =>
    match decl.kind with
    | .assigned _ node false => if node = tag.id then [.copy] else []
    | _ => []
  | none => []

/-- The readers of an assignment. -/
def assignReaders (scoping : Scoping) (tag : Tag) (target : Target) (value : Expr) : List TypeReader :=
  value.readers scoping ++ .copy ::
    match target with
    | .name ident => nameTargetReaders scoping tag ident
    | .element slot base index =>
      base.readers scoping ++ index.readers scoping ++
        [.index slot.position, .store value.position]

mutual

/-- The readers of the rules of a statement. -/
def Stmt.readers (scoping : Scoping) : Stmt → List TypeReader
  | .expr value => value.readers scoping
  | .assign tag target value _ => assignReaders scoping tag target value
  | .cond _ condition body branches =>
    conditionReaders scoping condition ++ body.readers scoping ++ branchesReaders scoping branches
  | .loop _ condition body => conditionReaders scoping condition ++ body.readers scoping
  | .each _ _ source body =>
    source.readers scoping ++ .fits .loopSource source.position .unknown :: body.readers scoping
  | .define _ _ _ body => body.readers scoping
  | .ret _ value => optionReaders scoping value

def Block.readers (scoping : Scoping) : Block → List TypeReader
  | .mk _ stmts => stmtsReaders scoping stmts

def stmtsReaders (scoping : Scoping) : List Stmt → List TypeReader
  | [] => []
  | first :: rest => first.readers scoping ++ stmtsReaders scoping rest

def branchesReaders (scoping : Scoping) : List Branch → List TypeReader
  | [] => []
  | .mk _ none body :: rest => body.readers scoping ++ branchesReaders scoping rest
  | .mk _ (some condition) body :: rest =>
    conditionReaders scoping condition ++ body.readers scoping ++ branchesReaders scoping rest

end

/-- The types of a program and the problems with them, by strict settling. -/
def Program.check? (program : Program) (scoping : Scoping) : Option (Solution Diagnostic) :=
  ((program.rules scoping).solve? ((program.body.readers scoping).map TypeReader.read)
      fun position => ⟨.undetermined, position⟩).map fun solution =>
    { solution with
      errors := (program.registrations scoping).filterMap Registration.problem? ++ solution.errors }

/-! ### Rules are handed what they read -/

/-- The rule of a registration, if it is one. -/
def Registration.rule? : Registration → Option (Rule Diagnostic)
  | .rule added => some added
  | _ => none

theorem Typing.map_const_eq {ε α β : Type} (computed : Except ε α) (result : β) :
    (computed.map fun _ => result) = (do let _ ← computed; return result) := by
  cases computed <;> rfl

/-- The rules among registrations are handed what their readers read. -/
def Served (readers : List TypeReader) (registrations : List Registration) : Prop :=
  List.Forall₂ (fun reader rule => rule.ReadBy (TypeReader.read reader)) readers
    (registrations.filterMap Registration.rule?)

namespace Served

variable {readers others : List TypeReader} {registrations more : List Registration}

theorem nil : Served [] [] := List.Forall₂.nil

section

variable (served : Served readers registrations)

include served

theorem append (further : Served others more) :
    Served (readers ++ others) (registrations ++ more) := by
  unfold Served
  rw [List.filterMap_append]
  exact List.rel_append served further

theorem skip {registration : Registration}
    (plain : registration.rule? = none) : Served readers (registration :: registrations) := by
  unfold Served
  rw [List.filterMap_cons_none plain]
  exact served

theorem cons {reader : TypeReader} {deps : List Attribute} {output : Option Attribute}
    {position : Position} {compute : List Ty → Except Diagnostic Ty}
    (same : ∀ types : List Ty, types.length = deps.length → reader.read types = some (compute types)) :
    Served (reader :: readers) (.rule ⟨deps, output, position, compute⟩ :: registrations) :=
  List.Forall₂.cons same served

section Inputs

variable {reader : TypeReader} {first second : Attribute} {output : Option Attribute}
  {position : Position} {compute : List Ty → Except Diagnostic Ty}

theorem cons_one
    (same : ∀ ty, reader.read [ty] = some (compute [ty])) :
    Served (reader :: readers) (.rule ⟨[first], output, position, compute⟩ :: registrations) := by
  refine served.cons fun types one => ?_
  obtain ⟨ty, rfl⟩ := List.length_eq_one_iff.mp one
  exact same ty

theorem cons_two
    (same : ∀ ty other, reader.read [ty, other] = some (compute [ty, other])) :
    Served (reader :: readers)
      (.rule ⟨[first, second], output, position, compute⟩ :: registrations) := by
  refine served.cons fun types two => ?_
  obtain ⟨ty, other, rfl⟩ := List.length_eq_two.mp two
  exact same ty other

end Inputs

theorem copy {input output : Attribute} {position : Position} :
    Served (.copy :: readers) (.copy input output position :: registrations) :=
  served.cons_one fun _ => rfl

/-- A rule that only looks whether the type of its input fits a role. -/
theorem fits {input : Attribute} {role : Role} {position place : Position} :
    Served (.fits role position .unknown :: readers)
      (.check [input] place (Typing.one () (Typing.fits role position)) :: registrations) :=
  served.cons_one fun _ => congrArg some (Typing.map_const_eq _ _)

end

theorem name (scoping : Scoping) (tag : Tag) :
    Served (scoping.resolutions[tag.id]?.map fun _ => TypeReader.copy).toList
      [scoping.nameRegistration tag] := by
  unfold Scoping.nameRegistration
  cases scoping.resolutions[tag.id]? with
  | none => exact nil.skip rfl
  | some resolution => exact nil.copy

theorem comprehension (tag : Tag) (source : Expr) (filter : Option Expr) :
    Served [.comprehension source.position (filter.map Expr.position)]
      [comprehensionRegistration tag source filter] := by
  cases filter with
  | none => exact nil.cons_one fun items => congrArg some (Typing.map_const_eq _ _)
  | some filter =>
    refine nil.cons_two fun items kept => ?_
    simp only [TypeReader.read, Typing.comprehension, Option.map_some, List.getElem?_cons_zero,
      List.getElem?_cons_succ, Option.bind_some]
    cases Typing.fits .comprehensionSource source.position items with
    | error error => rfl
    | ok _ => exact congrArg some (Typing.map_const_eq _ _)

theorem call (scoping : Scoping) (tag : Tag) (callee : Ident) (args : List Expr) :
    Served (scoping.callReader? callee args).toList (scoping.callRegistrations tag callee args) := by
  unfold Scoping.callReader? Scoping.callRegistrations
  cases scoping.declOf? callee.id with
  | none => exact nil.skip rfl
  | some entry =>
    obtain ⟨id, decl⟩ := entry
    dsimp only
    cases Scoping.callable? decl.kind with
    | none => exact (nil.skip rfl).skip rfl
    | some taken =>
      obtain ⟨arity, signature⟩ := taken
      cases signature with
      | none =>
        dsimp only
        split
        · exact (nil.skip rfl).skip rfl
        · exact nil.skip rfl
      | some signature =>
        by_cases count : args.length = arity
        · simp only [count, ne_eq, not_true_eq_false, if_true, if_false]
          exact nil.cons fun _ _ => rfl
        · simp only [count, ne_eq, not_false_eq_true, if_true, if_false]
          exact (nil.skip rfl).skip rfl

theorem condition {scoping : Scoping} {condition : Expr}
    (inner : Served (condition.readers scoping) (condition.registrations scoping)) :
    Served (conditionReaders scoping condition) (conditionRegistrations scoping condition) :=
  inner.append nil.fits

theorem nameTarget (scoping : Scoping) (tag : Tag) (value : Expr) (ident : Ident) :
    Served (nameTargetReaders scoping tag ident)
      (nameTargetRegistrations scoping tag value ident) := by
  unfold nameTargetReaders nameTargetRegistrations
  cases scoping.declOf? ident.id with
  | none => exact nil
  | some entry =>
    obtain ⟨id, decl⟩ := entry
    dsimp only
    cases decl.kind with
    | assigned final node rebound =>
      cases rebound with
      | true => exact nil
      | false =>
        dsimp only
        split
        · exact nil.copy
        · exact nil
    | _ => exact nil

end Served

variable (scoping : Scoping)

mutual

theorem Expr.served : ∀ expr : Expr,
    Served (expr.readers scoping) (expr.registrations scoping)
  | .int _ _ | .bool _ _ | .text _ _ | .none _ => Served.nil.skip rfl
  | .name tag _ => .name scoping tag
  | .binary _ _ left right | .index _ left right =>
    (left.served.append right.served).append (Served.nil.cons_two fun _ _ => rfl)
  | .unary _ _ operand => operand.served.append (Served.nil.cons_one fun _ => rfl)
  | .array _ items => (exprs_served items).append (Served.nil.cons fun _ _ => rfl)
  | .sized _ size =>
    size.served.append (Served.nil.cons_one fun _ => congrArg some (Typing.map_const_eq _ _))
  | .map _ entries => (entries_served entries).append (Served.nil.cons fun _ _ => rfl)
  | .comprehension tag element _ source filter =>
    ((source.served.append (option_served filter)).append element.served).append
      (.comprehension tag source filter)
  | .call tag callee args => (exprs_served args).append (.call scoping tag callee args)

theorem exprs_served : ∀ exprs : List Expr,
    Served (exprsReaders scoping exprs) (exprsRegistrations scoping exprs)
  | [] => .nil
  | first :: rest => first.served.append (exprs_served rest)

theorem entries_served : ∀ entries : List (Expr × Expr),
    Served (entriesReaders scoping entries) (entriesRegistrations scoping entries)
  | [] => .nil
  | (key, value) :: rest => (key.served.append value.served).append (entries_served rest)

theorem option_served : ∀ option : Option Expr,
    Served (optionReaders scoping option) (optionRegistrations scoping option)
  | none => .nil
  | some expr => expr.served

end

theorem assign_served (tag : Tag) (target : Target) (value : Expr) :
    Served (assignReaders scoping tag target value)
      (assignRegistrations scoping tag target value) := by
  refine (value.served scoping).append ?_
  cases target with
  | name ident => exact (Served.nameTarget scoping tag value ident).copy
  | element slot base index =>
    refine Served.copy (((base.served scoping).append (index.served scoping)).append ?_)
    refine Served.cons_two (Served.nil.cons_two fun _ _ => ?_) fun _ _ => rfl
    exact congrArg some (Typing.map_const_eq _ _)

mutual

theorem Stmt.served : ∀ stmt : Stmt,
    Served (stmt.readers scoping) (stmt.registrations scoping)
  | .expr value => value.served scoping
  | .assign tag target value _ => assign_served scoping tag target value
  | .cond _ condition body branches =>
    ((Served.condition (condition.served scoping)).append body.served).append
      (branches_served branches)
  | .loop _ condition body => (Served.condition (condition.served scoping)).append body.served
  | .each _ _ source body => (source.served scoping).append body.served.fits
  | .define _ _ _ body => body.served.skip rfl
  | .ret _ value => option_served scoping value

theorem Block.served : ∀ block : Block,
    Served (block.readers scoping) (block.registrations scoping)
  | .mk _ stmts => stmts_served stmts

theorem stmts_served : ∀ stmts : List Stmt,
    Served (stmtsReaders scoping stmts) (stmtsRegistrations scoping stmts)
  | [] => .nil
  | first :: rest => first.served.append (stmts_served rest)

theorem branches_served : ∀ branches : List Branch,
    Served (branchesReaders scoping branches) (branchesRegistrations scoping branches)
  | [] => .nil
  | .mk _ none body :: rest => body.served.append (branches_served rest)
  | .mk _ (some condition) body :: rest =>
    ((Served.condition (condition.served scoping)).append body.served).append (branches_served rest)

end

namespace Program

theorem rules_toList (program : Program) : (program.rules scoping).rules.toList =
    (program.body.registrations scoping).filterMap Registration.rule? := by
  have seeded : (seeds scoping.tree).filterMap Registration.rule? = [] := by
    rw [List.filterMap_eq_nil_iff]
    intro registration member
    obtain ⟨entry, -, seeded⟩ := List.mem_filterMap.mp member
    obtain ⟨ty, -, rfl⟩ := Option.map_eq_some_iff.mp seeded
    rfl
  rw [rules_eq, (RuleSet.of_eq _).2, List.filterMap_filterMap, registrations, List.filterMap_append]
  have same : (fun registration : Registration =>
      registration.entry?.bind RuleSet.Entry.rule?) = Registration.rule? := by
    funext registration
    cases registration <;> rfl
  rw [same, seeded, List.nil_append]

/-- A program is checked without defaults. -/
theorem check?_eq (program : Program) : program.check? scoping = some (program.check scoping) := by
  have readBy : List.Forall₂ Rule.ReadBy ((program.body.readers scoping).map TypeReader.read)
      (program.rules scoping).rules.toList := by
    rw [rules_toList, List.forall₂_map_left_iff]
    exact program.body.served scoping
  rw [check?, RuleSet.solve?_eq _ readBy]
  rfl

end Program

end ScopedScript

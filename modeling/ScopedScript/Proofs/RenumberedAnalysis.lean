/-
**The analysis of a program with other numbers.**

What a program registers for its types, and what settling makes of it, moves along with the numbers of its
nodes:

* `Expr.registrations_renumber`, `Block.registrations_renumber`: what a program registers;
* `Solver.Renumbered.fire`, `Solver.Renumbered.run`: **one rule and all rules**, in the same order;
* `Program.analyze_renumber`: the same problems in the same order, or the same analysis under other
  numbers.
-/

import ScopedScript.Proofs.RenumberedScopes

set_option linter.unusedSectionVars false

namespace ScopedScript

/-! ### Registrations -/

section Registrations

variable (f : NodeId → NodeId)

/-- The same attribute of a node with another number. -/
def Attribute.renumber : Attribute → Attribute
  | .node id => .node (f id)
  | .decl id => .decl id

/-- The same rule between attributes of nodes with other numbers. -/
def Rule.renumber {ε : Type} (rule : Rule ε) : Rule ε :=
  { rule with deps := rule.deps.map (Attribute.renumber f), output := rule.output.map (.renumber f) }

/-- The same registration for nodes with other numbers. -/
def Registration.renumber : Registration → Registration
  | .set key ty => .set (key.renumber f) ty
  | .fail key => .fail (key.renumber f)
  | .rule entry => .rule (entry.renumber f)
  | .problem diagnostic => .problem diagnostic

variable {f} {scoping other : Scoping}

@[simp] theorem Expr.typeKey_renumber (expr : Expr) :
    (expr.renumber f).typeKey = expr.typeKey.renumber f := by
  rw [Expr.typeKey, Expr.id, Expr.tag_renumber]
  rfl

theorem typeKeys_renumber (items : List Expr) :
    (exprsRenumber f items).map Expr.typeKey = (items.map Expr.typeKey).map (Attribute.renumber f) := by
  simp only [exprsRenumber_eq, List.map_map, Function.comp_def, Expr.typeKey_renumber]

theorem positions_renumber (items : List Expr) :
    (exprsRenumber f items).map Expr.position = items.map Expr.position := by
  simp only [exprsRenumber_eq, List.map_map, Function.comp_def, Expr.position_renumber]

theorem mapRule_renumber (tag : Tag) (entries : List (Expr × Expr)) :
    Registration.node (tag.renumber f) ((entriesRenumber f entries).map fun entry => entry.1.typeKey)
        (Typing.keys ((entriesRenumber f entries).map fun entry => entry.1.position)) =
      (Registration.node tag (entries.map fun entry => entry.1.typeKey)
        (Typing.keys (entries.map fun entry => entry.1.position))).renumber f := by
  simp only [entriesRenumber_eq, List.map_map, Function.comp_def, Prod.map_fst, Expr.typeKey_renumber,
    Expr.position_renumber, Registration.node, Registration.renumber, Rule.renumber]
  rfl

theorem comprehensionRegistration_renumber (tag : Tag) (source : Expr) (filter : Option Expr) :
    comprehensionRegistration (tag.renumber f) (source.renumber f) (optionRenumber f filter) =
      (comprehensionRegistration tag source filter).renumber f := by
  cases filter <;>
    simp only [comprehensionRegistration, optionRenumber, Option.map_none, Option.map_some,
      Expr.typeKey_renumber, Expr.position_renumber] <;> rfl

namespace Scoping.Renumbered

variable (same : scoping.Renumbered f other) (injective : f.Injective)

include same injective

theorem declOf? (node : NodeId) :
    other.declOf? (f node) = (scoping.declOf? node).map (Prod.map id (Decl.renumber f)) := by
  rw [Scoping.declOf?, Scoping.declOf?, same.resolutions.get injective, Option.map_bind]
  refine Option.bind_congr fun resolution _ => ?_
  rw [same.tree.decl?]
  simp only [Function.comp_apply, Option.map_map]
  rfl

theorem nameRegistration (tag : Tag) :
    other.nameRegistration (tag.renumber f) = (scoping.nameRegistration tag).renumber f := by
  have found : other.resolutions[(tag.renumber f).id]? = scoping.resolutions[tag.id]? :=
    same.resolutions.get injective tag.id
  rw [Scoping.nameRegistration, Scoping.nameRegistration, found]
  cases scoping.resolutions[tag.id]? <;> rfl

theorem callRegistrations (tag : Tag) (callee : Ident) (args : List Expr) :
    other.callRegistrations (tag.renumber f) (callee.renumber f) (exprsRenumber f args) =
      (scoping.callRegistrations tag callee args).map (Registration.renumber f) := by
  have found : other.declOf? (callee.renumber f).id =
      (scoping.declOf? callee.id).map (Prod.map id (Decl.renumber f)) :=
    same.declOf? injective callee.id
  have length : (exprsRenumber f args).length = args.length := by
    rw [exprsRenumber_eq, List.length_map]
  rw [Scoping.callRegistrations, Scoping.callRegistrations, found]
  cases scoping.declOf? callee.id with
  | none => rfl
  | some place =>
    obtain ⟨number, decl⟩ := place
    have callable : callable? (decl.renumber f).kind = callable? decl.kind := by
      obtain ⟨name, kind, position, scope⟩ := decl
      cases kind <;> rfl
    simp only [Option.map_some, Prod.map_apply, callable, length]
    cases callable? decl.kind with
    | none => rfl
    | some shape =>
      obtain ⟨arity, signature⟩ := shape
      dsimp only
      split
      · rfl
      · cases signature with
        | none => rfl
        | some signature =>
          rw [typeKeys_renumber, positions_renumber]
          rfl

end Scoping.Renumbered

variable (same : scoping.Renumbered f other) (injective : f.Injective)

include same injective

mutual

theorem Expr.registrations_renumber : (expr : Expr) →
    (expr.renumber f).registrations other =
      (expr.registrations scoping).map (Registration.renumber f)
  | .int _ _ | .bool _ _ | .text _ _ | .none _ => rfl
  | .name tag _ => congrArg (fun entry => [entry]) (same.nameRegistration injective tag)
  | .binary _ _ left right | .index _ left right => by
    simp only [Expr.renumber, Expr.registrations, List.map_append, left.registrations_renumber,
      right.registrations_renumber, Expr.typeKey_renumber]
    rfl
  | .unary _ _ operand => by
    simp only [Expr.renumber, Expr.registrations, List.map_append, operand.registrations_renumber,
      Expr.typeKey_renumber]
    rfl
  | .array _ items => by
    simp only [Expr.renumber, Expr.registrations, List.map_append, exprsRegistrations_renumber items,
      typeKeys_renumber]
    rfl
  | .sized _ size => by
    simp only [Expr.renumber, Expr.registrations, List.map_append, size.registrations_renumber,
      Expr.typeKey_renumber, Expr.position_renumber]
    rfl
  | .map _ entries => by
    simp only [Expr.renumber, Expr.registrations, List.map_append,
      entriesRegistrations_renumber entries, mapRule_renumber]
    rfl
  | .comprehension tag element _ source filter => by
    simp only [Expr.renumber, Expr.registrations, List.map_append, source.registrations_renumber,
      optionRegistrations_renumber filter, element.registrations_renumber,
      comprehensionRegistration_renumber]
    rfl
  | .call tag callee args => by
    simp only [Expr.renumber, Expr.registrations, List.map_append, exprsRegistrations_renumber args,
      same.callRegistrations injective]

theorem exprsRegistrations_renumber : (items : List Expr) →
    exprsRegistrations other (exprsRenumber f items) =
      (exprsRegistrations scoping items).map (Registration.renumber f)
  | [] => rfl
  | first :: rest => by
    simp only [exprsRenumber, exprsRegistrations, List.map_append, first.registrations_renumber,
      exprsRegistrations_renumber rest]

theorem entriesRegistrations_renumber : (entries : List (Expr × Expr)) →
    entriesRegistrations other (entriesRenumber f entries) =
      (entriesRegistrations scoping entries).map (Registration.renumber f)
  | [] => rfl
  | (key, value) :: rest => by
    simp only [entriesRenumber, entriesRegistrations, List.map_append, key.registrations_renumber,
      value.registrations_renumber, entriesRegistrations_renumber rest]

theorem optionRegistrations_renumber : (option : Option Expr) →
    optionRegistrations other (optionRenumber f option) =
      (optionRegistrations scoping option).map (Registration.renumber f)
  | none => rfl
  | some expr => expr.registrations_renumber

end

theorem conditionRegistrations_renumber (condition : Expr) :
    conditionRegistrations other (condition.renumber f) =
      (conditionRegistrations scoping condition).map (Registration.renumber f) := by
  simp only [conditionRegistrations, List.map_append, condition.registrations_renumber same injective,
    Expr.typeKey_renumber, Expr.position_renumber]
  rfl

/-- The assignment that introduced a variable is still recognised, as different numbers stay
different. -/
theorem nameTargetRegistrations_renumber (tag : Tag) (value : Expr) (ident : Ident) :
    nameTargetRegistrations other (tag.renumber f) (value.renumber f) (ident.renumber f) =
      (nameTargetRegistrations scoping tag value ident).map (Registration.renumber f) := by
  have found : other.declOf? (ident.renumber f).id =
      (scoping.declOf? ident.id).map (Prod.map id (Decl.renumber f)) :=
    same.declOf? injective ident.id
  rw [nameTargetRegistrations, nameTargetRegistrations, found]
  cases scoping.declOf? ident.id with
  | none => rfl
  | some place =>
    obtain ⟨number, name, kind, position, scope⟩ := place
    cases kind with
    | assigned final node rebound =>
      cases rebound with
      | true => rfl
      | false =>
        have introduced : f node = (tag.renumber f).id ↔ node = tag.id := injective.eq_iff
        simp only [Option.map_some, Prod.map_apply, Decl.renumber, DeclKind.renumber, introduced,
          Expr.typeKey_renumber]
        split <;> rfl
    | _ => rfl

theorem assignRegistrations_renumber (tag : Tag) (target : Target) (value : Expr) :
    assignRegistrations other (tag.renumber f) (target.renumber f) (value.renumber f) =
      (assignRegistrations scoping tag target value).map (Registration.renumber f) := by
  cases target with
  | name ident =>
    simp only [assignRegistrations, Target.renumber, List.map_append, List.map_cons,
      value.registrations_renumber same injective, nameTargetRegistrations_renumber same injective,
      Expr.typeKey_renumber]
    rfl
  | element slot base index =>
    simp only [assignRegistrations, Target.renumber, List.map_append, List.map_cons,
      value.registrations_renumber same injective, base.registrations_renumber same injective,
      index.registrations_renumber same injective, Expr.typeKey_renumber, Expr.position_renumber]
    rfl

mutual

theorem Stmt.registrations_renumber : (stmt : Stmt) →
    (stmt.renumber f).registrations other =
      (stmt.registrations scoping).map (Registration.renumber f)
  | .expr value => value.registrations_renumber same injective
  | .assign tag target value _ => assignRegistrations_renumber same injective tag target value
  | .cond _ condition body branches => by
    simp only [Stmt.renumber, Stmt.registrations, List.map_append,
      conditionRegistrations_renumber same injective, body.registrations_renumber,
      branchesRegistrations_renumber branches]
  | .loop _ condition body => by
    simp only [Stmt.renumber, Stmt.registrations, List.map_append,
      conditionRegistrations_renumber same injective, body.registrations_renumber]
  | .each _ _ source body => by
    simp only [Stmt.renumber, Stmt.registrations, List.map_append, List.map_cons,
      source.registrations_renumber same injective, body.registrations_renumber,
      Expr.typeKey_renumber, Expr.position_renumber]
    rfl
  | .define _ _ _ body => congrArg (_ :: ·) body.registrations_renumber
  | .ret _ value => optionRegistrations_renumber same injective value

theorem Block.registrations_renumber : (block : Block) →
    (block.renumber f).registrations other =
      (block.registrations scoping).map (Registration.renumber f)
  | .mk _ stmts => stmtsRegistrations_renumber stmts

theorem stmtsRegistrations_renumber : (stmts : List Stmt) →
    stmtsRegistrations other (stmtsRenumber f stmts) =
      (stmtsRegistrations scoping stmts).map (Registration.renumber f)
  | [] => rfl
  | first :: rest => by
    simp only [stmtsRenumber, stmtsRegistrations, List.map_append, first.registrations_renumber,
      stmtsRegistrations_renumber rest]

theorem branchesRegistrations_renumber : (branches : List Branch) →
    branchesRegistrations other (branchesRenumber f branches) =
      (branchesRegistrations scoping branches).map (Registration.renumber f)
  | [] => rfl
  | .mk _ none body :: rest => by
    simp only [branchesRenumber, optionRenumber, branchesRegistrations, List.map_append,
      body.registrations_renumber, branchesRegistrations_renumber rest]
  | .mk _ (some condition) body :: rest => by
    simp only [branchesRenumber, optionRenumber, branchesRegistrations, List.map_append,
      conditionRegistrations_renumber same injective, body.registrations_renumber,
      branchesRegistrations_renumber rest]

end

theorem Program.registrations_renumber (program : Program) :
    (program.renumber f).registrations other =
      (program.registrations scoping).map (Registration.renumber f) := by
  have seeded : seeds other.tree = (seeds scoping.tree).map (Registration.renumber f) := by
    simp only [seeds, same.tree.decls, Array.toList_map, List.zipIdx_map, List.filterMap_map,
      List.map_filterMap]
    refine List.filterMap_congr fun entry _ => ?_
    obtain ⟨⟨name, kind, position, scope⟩, number⟩ := entry
    simp only [Function.comp_apply, Option.map_map]
    cases kind with
    | assigned final node rebound => cases rebound <;> rfl
    | builtin kind => cases kind <;> rfl
    | _ => rfl
  simp only [Program.registrations, List.map_append, seeded]
  exact congrArg (_ ++ ·) (program.body.registrations_renumber same injective)

end Registrations

/-! ### Settling -/

section Settling

variable {f : NodeId → NodeId} {α ε : Type}

/-- The same table for nodes with other numbers. -/
structure AttributeTable.Renumbered (f : NodeId → NodeId) (table other : AttributeTable α) : Prop where
  nodes : Moved f table.nodes other.nodes
  decls : other.decls = table.decls

namespace AttributeTable.Renumbered

variable {table other : AttributeTable α}

theorem empty : (AttributeTable.empty : AttributeTable α).Renumbered f .empty := ⟨Moved.empty, rfl⟩

variable (same : table.Renumbered f other) (injective : f.Injective)

include same injective

theorem get? (key : Attribute) : other.get? (key.renumber f) = table.get? key := by
  cases key with
  | node id => exact same.nodes.get injective id
  | decl id => exact congrArg (fun decls : Std.TreeMap DeclId α => decls[id]?) same.decls

theorem contains (key : Attribute) : other.contains (key.renumber f) = table.contains key := by
  cases key with
  | node id => exact same.nodes.contains injective id
  | decl id => exact congrArg (Std.TreeMap.contains · id) same.decls

theorem insert (key : Attribute) (entry : α) :
    (table.insert key entry).Renumbered f (other.insert (key.renumber f) entry) := by
  cases key with
  | node id => exact ⟨same.nodes.insert injective id entry, same.decls⟩
  | decl id => exact ⟨same.nodes, congrArg (Std.TreeMap.insert · id entry) same.decls⟩

end AttributeTable.Renumbered

/-- The same rules between attributes of nodes with other numbers. -/
structure RuleSet.Renumbered (f : NodeId → NodeId) (set other : RuleSet ε) : Prop where
  slots : set.slots.Renumbered f other.slots
  rules : other.rules = set.rules.map (Rule.renumber f)

namespace RuleSet.Renumbered

theorem empty : (RuleSet.empty : RuleSet ε).Renumbered f .empty :=
  ⟨.empty, by simp only [RuleSet.empty, List.map_toArray, List.map_nil]⟩

theorem settle {set other : RuleSet ε} (same : set.Renumbered f other) (injective : f.Injective)
    (key : Attribute) (slot : Slot) :
    (set.settle key slot).Renumbered f (other.settle (key.renumber f) slot) := by
  simp only [RuleSet.settle, same.slots.contains injective]
  split
  · exact same
  · exact ⟨same.slots.insert injective key slot, same.rules⟩

theorem register {set other : RuleSet Diagnostic} (same : set.Renumbered f other)
    (injective : f.Injective) (entry : Registration) :
    (set.register entry).Renumbered f (other.register (entry.renumber f)) := by
  cases entry with
  | set key ty => exact same.settle injective key (.ready ty)
  | fail key => exact same.settle injective key .failed
  | rule rule =>
    refine ⟨same.slots, ?_⟩
    simp only [RuleSet.register, Registration.renumber, RuleSet.rule, same.rules, Array.map_push]
  | problem => exact same

end RuleSet.Renumbered

/-- Settling the same rules for nodes with other numbers, as far as it has come. -/
structure Solver.Renumbered (f : NodeId → NodeId) (solver other : Solver ε) : Prop where
  slots : solver.slots.Renumbered f other.slots
  missing : other.missing = solver.missing
  waiters : solver.waiters.Renumbered f other.waiters
  agenda : other.agenda = solver.agenda
  fired : other.fired = solver.fired
  errors : other.errors = solver.errors

namespace Solver.Renumbered

variable {solver other : Solver ε}

theorem wake (same : solver.Renumbered f other) (index : Nat) :
    (solver.wake index).Renumbered f (other.wake index) := by
  refine ⟨same.slots, ?_, same.waiters, ?_, same.fired, same.errors⟩
  · simp only [Solver.wake, same.missing]
  · simp only [Solver.wake, same.missing, same.agenda]

variable (same : solver.Renumbered f other) (injective : f.Injective)

include same injective

theorem enroll (index : Nat) (rule : Rule ε) :
    (solver.enroll index rule).Renumbered f (other.enroll index (rule.renumber f)) := by
  have unsettled : (rule.renumber f).deps.filter (fun dep => !other.slots.contains dep) =
      (rule.deps.filter fun dep => !solver.slots.contains dep).map (Attribute.renumber f) := by
    simp only [Rule.renumber, List.filter_map, Function.comp_def, same.slots.contains injective]
  simp only [Solver.enroll, unsettled, List.length_map, List.isEmpty_map, List.foldl_map]
  refine ⟨same.slots, ?_, ?_, ?_, same.fired, same.errors⟩
  · simp only [same.missing]
  · refine List.foldl_rel (r := AttributeTable.Renumbered f) same.waiters fun dep _ waiters moved same => ?_
    rw [same.get? injective]
    exact same.insert injective dep _
  · simp only [same.agenda]

theorem deliver (output : Option Attribute) (slot : Slot) :
    (solver.deliver output slot).Renumbered f
      (other.deliver (output.map (Attribute.renumber f)) slot) := by
  cases output with
  | none => exact same
  | some key =>
    simp only [Solver.deliver, Option.map_some, same.slots.contains injective, Solver.waitersOf,
      same.waiters.get? injective]
    split
    · exact same
    · refine List.foldl_rel (r := Renumbered f) ?_ fun index _ _ _ same => same.wake index
      exact ⟨same.slots.insert injective key slot, same.missing, same.waiters, same.agenda, same.fired,
        same.errors⟩

omit same in
theorem inputs? {slots moved : AttributeTable Slot} (same : slots.Renumbered f moved)
    (deps : List Attribute) :
    Solver.inputs? moved (deps.map (Attribute.renumber f)) = Solver.inputs? slots deps := by
  induction deps with
  | nil => rfl
  | cons dep rest ih =>
    simp only [List.map_cons, Solver.inputs?, same.get? injective, ih]

/-- **One rule.** -/
theorem fire (rule : Rule ε) :
    (solver.fire rule).Renumbered f (other.fire (rule.renumber f)) := by
  have counted : Renumbered f { solver with fired := solver.fired + 1 }
      { other with fired := other.fired + 1 } :=
    ⟨same.slots, same.missing, same.waiters, same.agenda, congrArg (· + 1) same.fired, same.errors⟩
  simp only [Solver.fire, Rule.renumber, inputs? injective same.slots]
  cases Solver.inputs? solver.slots rule.deps with
  | none => exact counted.deliver injective rule.output .failed
  | some types =>
    dsimp only
    cases rule.compute types with
    | ok ty => exact counted.deliver injective rule.output (.ready ty)
    | error error =>
      have reported : Renumbered f
          { solver with fired := solver.fired + 1, errors := solver.errors.push error }
          { other with fired := other.fired + 1, errors := other.errors.push error } :=
        ⟨same.slots, same.missing, same.waiters, same.agenda, counted.fired,
          congrArg (Array.push · error) same.errors⟩
      exact reported.deliver injective rule.output .failed

/-- **All rules**, in the same order. -/
theorem run (rules : Array (Rule ε)) (bound : Nat) :
    (Solver.run rules bound solver).Renumbered f
      (Solver.run (rules.map (Rule.renumber f)) bound other) := by
  induction bound generalizing solver other with
  | zero => exact same
  | succ bound ih =>
    have next : (other.agenda[other.fired]?.bind ((rules.map (Rule.renumber f))[·]?)) =
        (solver.agenda[solver.fired]?.bind (rules[·]?)).map (Rule.renumber f) := by
      simp only [same.agenda, same.fired, Option.map_bind, Array.getElem?_map]
      rfl
    rw [Solver.run, Solver.run, next]
    cases solver.agenda[solver.fired]?.bind (rules[·]?) with
    | none => exact same
    | some rule => exact ih (same.fire injective rule)

omit injective in
theorem stuck (rules : Array (Rule ε)) :
    other.stuck (rules.map (Rule.renumber f)) = (solver.stuck rules).map (Rule.renumber f) := by
  simp only [Solver.stuck, same.missing, Array.toList_map, List.zip_map_left, List.filterMap_map,
    List.map_filterMap]
  refine List.filterMap_congr fun entry _ => ?_
  simp only [Function.comp_apply, Prod.map_snd, Prod.map_fst, id]
  split <;> rfl

omit same in
theorem start {set moved : RuleSet ε} (same : set.Renumbered f moved) :
    (Solver.start set).Renumbered f (Solver.start moved) := by
  simp only [Solver.start, same.rules, Array.toList_map, List.zipIdx_map, List.foldl_map]
  refine List.foldl_rel (r := Renumbered f) ?_ fun entry _ _ _ same => same.enroll injective _ _
  exact ⟨same.slots, rfl, .empty, rfl, rfl, rfl⟩

end Solver.Renumbered

/-- The same solution for nodes with other numbers. -/
structure Solution.Renumbered (f : NodeId → NodeId) (solution other : Solution ε) : Prop where
  slots : solution.slots.Renumbered f other.slots
  errors : other.errors = solution.errors

theorem RuleSet.Renumbered.solve {set other : RuleSet ε} (same : set.Renumbered f other)
    (injective : f.Injective) (unsettled : Position → ε) :
    (set.solve unsettled).Renumbered f (other.solve unsettled) := by
  have final := (Solver.Renumbered.start injective same).run injective set.rules set.rules.size
  simp only [RuleSet.solve, same.rules, Array.size_map]
  refine ⟨final.slots, ?_⟩
  simp only [final.errors, final.stuck, List.map_map]
  rfl

/-- **Settling gives the same types and the same problems**, as the rules are the same and fire in the same
order. -/
theorem Program.check_renumber {scoping other : Scoping} (same : scoping.Renumbered f other)
    (injective : f.Injective) (program : Program) :
    (program.check scoping).Renumbered f ((program.renumber f).check other) := by
  have rules : (program.rules scoping).Renumbered f ((program.renumber f).rules other) := by
    simp only [Program.rules, Program.registrations_renumber same injective, List.foldl_map]
    exact List.foldl_rel (r := RuleSet.Renumbered f) .empty fun entry _ _ _ same =>
      same.register injective entry
  have solution := rules.solve injective fun position => ⟨.undetermined, position⟩
  refine ⟨solution.slots, ?_⟩
  simp only [Program.check, solution.errors, Program.registrations_renumber same injective,
    List.filterMap_map]
  refine congrArg (· ++ _) (List.filterMap_congr fun entry _ => ?_)
  cases entry <;> rfl

end Settling

/-! ### The whole analysis -/

/-- The same analysis for nodes with other numbers: the same scopes, declarations and types of
declarations, and all that is known of a node under its new number. -/
structure Analysis.Renumbered (f : NodeId → NodeId) (analysis other : Analysis) : Prop where
  tree : analysis.tree.Renumbered f other.tree
  resolutions : Moved f analysis.resolutions other.resolutions
  types : Moved f analysis.types other.types
  declTypes : other.declTypes = analysis.declTypes

/-- **The same problems in the same order, or the same analysis.** -/
theorem Program.analyze_renumber {f : NodeId → NodeId} (injective : f.Injective) (program : Program)
    (options : Options) :
    (∀ diagnostics, program.analyze options = .error diagnostics →
      (program.renumber f).analyze options = .error diagnostics) ∧
    ∀ analysis, program.analyze options = .ok analysis →
      ∃ other, (program.renumber f).analyze options = .ok other ∧ analysis.Renumbered f other := by
  have scoping := program.resolve_renumber injective options.redeclaration
  have solution := program.check_renumber scoping injective
  have misplaced : (program.renumber f).body.misplaced false = program.body.misplaced false :=
    program.body.misplaced_renumber f false
  simp only [Program.analyze, scoping.problems, solution.errors, misplaced]
  split
  · refine ⟨nofun, fun analysis analyzed => ⟨_, rfl, ?_⟩⟩
    cases analyzed
    refine ⟨scoping.tree, scoping.resolutions, solution.slots.nodes.filterMap _, ?_⟩
    exact congrArg (Std.TreeMap.filterMap _) solution.slots.decls
  · exact ⟨fun _ failed => failed, nofun⟩

end ScopedScript

/-
**What nodes register.**

Every registration of a program belongs to one node, and gives a type to that node or to the
variable that it declares:

* `Node.registered`: what a node registers apart from its parts;
* `Node.registered_within`: the registrations of a node are those of the nodes within it;
* `Scoping.Calls`, `Node.Registers`, `Node.registers`: what a call and what a node can register, and what
  its rules read;
* `Node.registered_writes`, `Node.registered_gives`: a node gives types to its own numbers, or to the
  variable it declares;
* `Program.Accepted.node_type`, `Program.Accepted.decl_type`: where the type of an expression and of
  a declaration comes from.
-/

import ScopedScript.Proofs.Functions
import ScopedScript.Proofs.Solving
import ScopedScript.Proofs.TypingRules

namespace ScopedScript

variable {key : Attribute}

/-- The checks of the conditions of clauses. -/
def branchChecks : List Branch → List Registration
  | [] => []
  | .mk _ none _ :: rest => branchChecks rest
  | .mk _ (some condition) _ :: rest =>
    .check [condition.typeKey] condition.position
      (Typing.one () (Typing.fits .condition condition.position)) :: branchChecks rest

namespace Node

/-- All that a node registers. -/
def registrations (scoping : Scoping) : Node → List Registration
  | .expr e => e.registrations scoping
  | .stmt s => s.registrations scoping
  | .block b => b.registrations scoping

/-- What an expression registers for itself. -/
def registeredExpr (scoping : Scoping) : Expr → List Registration
  | .int tag _ => [.set (.node tag.id) .int]
  | .bool tag _ => [.set (.node tag.id) .bool]
  | .text tag _ => [.set (.node tag.id) .string]
  | .none tag => [.set (.node tag.id) .none]
  | .name tag _ => [scoping.nameRegistration tag]
  | .binary tag op left right =>
    [.node tag [left.typeKey, right.typeKey] (Typing.two .unknown (Typing.binary op tag.position))]
  | .unary tag op operand =>
    [.node tag [operand.typeKey] (Typing.one .unknown (Typing.unary op tag.position))]
  | .index tag base index =>
    [.node tag [base.typeKey, index.typeKey] (Typing.two .unknown (Typing.index tag.position))]
  | .array tag items => [.node tag (items.map Expr.typeKey) fun _ => .ok .array]
  | .sized tag size =>
    [.node tag [size.typeKey] fun types => do
      Typing.one () (Typing.fits .arraySize size.position) types
      return .array]
  | .map tag entries =>
    [.node tag (entries.map fun entry => entry.1.typeKey)
      (Typing.keys (entries.map fun entry => entry.1.position))]
  | .comprehension tag _ _ source filter => [comprehensionRegistration tag source filter]
  | .call tag callee args => scoping.callRegistrations tag callee args

/-- What a statement registers for itself. -/
def registeredStmt (scoping : Scoping) : Stmt → List Registration
  | .expr _ | .ret _ _ => []
  | .assign tag (.name ident) value _ =>
    .copy value.typeKey (.node tag.id) tag.position ::
      nameTargetRegistrations scoping tag value ident
  | .assign tag (.element slot base index) value _ =>
    [.copy value.typeKey (.node tag.id) tag.position,
      .node slot [base.typeKey, index.typeKey] (Typing.two .unknown (Typing.index slot.position)),
      .check [value.typeKey, .node slot.id] value.position
        (Typing.two () (Typing.store value.position))]
  | .cond _ condition _ branches =>
    .check [condition.typeKey] condition.position
      (Typing.one () (Typing.fits .condition condition.position)) :: branchChecks branches
  | .loop _ condition _ =>
    [.check [condition.typeKey] condition.position
      (Typing.one () (Typing.fits .condition condition.position))]
  | .each _ _ source _ =>
    [.check [source.typeKey] source.position
      (Typing.one () (Typing.fits .loopSource source.position))]
  | .define tag _ _ _ => [.set (.node tag.id) .unknown]

/-- What a node registers for itself. -/
def registered (scoping : Scoping) : Node → List Registration
  | .expr e => registeredExpr scoping e
  | .stmt s => registeredStmt scoping s
  | .block _ => []

/-! ### Registrations of parts -/

variable {scoping : Scoping} {before : List ScopeStep}
variable {registration : Registration}

@[simp] theorem registrations_exprs (items : List Expr) :
    (Stretch.exprs items).flatMap (Stretch.of (registrations scoping)) = exprsRegistrations scoping items :=
  Stretch.flatMap_exprs rfl (fun _ _ => rfl) items

@[simp] theorem registrations_entries (pairs : List (Expr × Expr)) :
    (Stretch.entries pairs).flatMap (Stretch.of (registrations scoping)) = entriesRegistrations scoping pairs :=
  Stretch.flatMap_entries rfl (fun _ _ _ => List.append_assoc ..) pairs

@[simp] theorem registrations_option (option : Option Expr) :
    exprsRegistrations scoping option.toList = optionRegistrations scoping option := by
  cases option <;> simp [exprsRegistrations, optionRegistrations]

@[simp] theorem registrations_stmts (items : List Stmt) :
    (Stretch.stmts items).flatMap (Stretch.of (registrations scoping)) = stmtsRegistrations scoping items :=
  Stretch.flatMap_stmts rfl (fun _ _ => rfl) items

theorem mem_branchesRegistrations {clauses : List Branch} :
    registration ∈ branchesRegistrations scoping clauses ↔ registration ∈ branchChecks clauses ∨
      registration ∈ (Stretch.branches clauses).flatMap (Stretch.of (registrations scoping)) := by
  induction clauses with
  | nil => simp [branchesRegistrations, branchChecks, Stretch.branches]
  | cons first rest ih =>
    obtain ⟨position, condition, body⟩ := first
    have row : Stretch.branches (.mk position condition body :: rest) =
        Stretch.exprs condition.toList ++ .part (.block body) :: Stretch.branches rest := by
      simp [Stretch.branches]
    rw [row]
    cases condition <;>
      simp only [branchesRegistrations, branchChecks, conditionRegistrations, ih, List.flatMap_append,
        List.flatMap_cons, registrations_exprs, registrations_option, optionRegistrations, Stretch.of,
        registrations, List.mem_append, List.mem_cons, List.not_mem_nil] <;>
      grind

/-- What a node registers is its own or that of a part. -/
theorem mem_registrations (node : Node) :
    registration ∈ node.registrations scoping ↔ registration ∈ node.registered scoping ∨
      registration ∈ gathered (registrations scoping) node.parts := by
  rw [parts, Stretch.gathered_parts]
  cases node with
  | expr e =>
    cases e <;>
      simp [registrations, registered, registeredExpr, stretches, Stretch.of, Expr.registrations,
        exprsRegistrations] <;>
      grind
  | stmt s =>
    cases s with
    | assign tag target value final =>
      cases target <;>
        simp [registrations, registered, registeredStmt, stretches, Stretch.of, Stmt.registrations,
          assignRegistrations, exprsRegistrations] <;>
        grind
    | _ =>
      simp [registrations, registered, registeredStmt, stretches, Stretch.of, Stmt.registrations,
        conditionRegistrations, exprsRegistrations, mem_branchesRegistrations] <;> grind
  | block b =>
    cases b
    simp [registrations, registered, stretches, Stretch.of, Block.registrations]

/-- What a node registers is registered by the nodes inside it. -/
theorem registered_within {node : Node} (member : registration ∈ node.registrations scoping) :
    ∃ steps inner, node.Within steps inner ∧ registration ∈ inner.registered scoping :=
  exists_within (fun node => node.mem_registrations.mp) member

theorem Within.registered {node inner : Node} {place : List ScopeStep}
    (within : node.Within place inner) (member : registration ∈ inner.registered scoping) :
    registration ∈ node.registrations scoping := by
  induction within with
  | self node => exact node.mem_registrations.mpr (.inl member)
  | part first _ ih =>
    exact (mem_registrations _).mpr (.inr (List.mem_flatMap.mpr ⟨_, first, ih member⟩))

end Node

/-! ### What registrations give -/

theorem Scoping.declOf?_eq_some {scoping : Scoping} {node : NodeId} {id : DeclId} {decl : Decl} :
    scoping.declOf? node = some (id, decl) ↔
      ∃ resolution, scoping.resolutions[node]? = some resolution ∧ resolution.decl = id ∧
        scoping.tree.decls[id]? = some decl := by
  unfold declOf?
  constructor
  · intro found
    obtain ⟨resolution, noted, found⟩ := Option.bind_eq_some_iff.mp found
    obtain ⟨stored, declared, same⟩ := Option.map_eq_some_iff.mp found
    obtain ⟨rfl, rfl⟩ := Prod.mk.inj same
    exact ⟨resolution, noted, rfl, declared⟩
  · rintro ⟨resolution, noted, rfl, stored⟩
    rw [noted, Option.bind_some, stored, Option.map_some]

namespace Registration

/-- The attribute that a registration settles, or whose type its rule computes. -/
def writes? : Registration → Option Attribute
  | .set key _ | .fail key => some key
  | .rule added => added.output
  | .problem _ => none

variable {slots : AttributeTable Slot} {key input output : Attribute} {ty : Ty} {tag : Tag}
  {deps : List Attribute} {position : Position}

theorem node_gives {compute : List Ty → Except Diagnostic Ty} :
    (node tag deps compute).Gives slots key ty ↔
      key = .node tag.id ∧ ∃ types, Solver.inputs? slots deps = some types ∧
        compute types = .ok ty := by
  refine and_congr_left fun _ => ?_
  exact ⟨fun same => (Option.some.inj same).symm, fun same => same ▸ rfl⟩

theorem copy_gives :
    (copy input output position).Gives slots key ty ↔
      key = output ∧ slots.get? input = some (.ready ty) := by
  refine and_congr ⟨fun same => (Option.some.inj same).symm, fun same => same ▸ rfl⟩ ?_
  show (∃ types, Solver.inputs? slots [input] = some types ∧ Typing.one .unknown .ok types = .ok ty) ↔ _
  constructor
  · rintro ⟨types, inputs, computed⟩
    simp only [Solver.inputs?] at inputs
    split at inputs
    · rename_i ty' found
      cases inputs
      cases computed
      exact found
    · cases inputs
  · intro found
    refine ⟨[ty], ?_, rfl⟩
    simp only [Solver.inputs?, found, Option.map_some]

theorem writes?_of_gives {registration : Registration} (gives : registration.Gives slots key ty) :
    registration.writes? = some key := by
  cases registration with
  | set other ty' => exact congrArg some gives.1
  | rule added => exact gives.1
  | fail | problem => cases gives

end Registration

/-! ### What calls register -/

/-- Whether a problem is one that the type check can report. -/
def Problem.ofTypes : Problem → Bool
  | .mismatch _ | .argumentCount .. | .notCallable _ | .undetermined => true
  | _ => false

/-- What a call registers for itself: that it fails, a problem with it, or its type. -/
inductive Scoping.Calls (scoping : Scoping) (tag : Tag) (callee : Ident) (args : List Expr) :
    List Registration → Prop
  | unknown : scoping.declOf? callee.id = none → Calls scoping tag callee args [.fail (.node tag.id)]
  | refused {diagnostic : Diagnostic} :
    diagnostic.problem.ofTypes = true → diagnostic.problem ≠ .undetermined →
      Calls scoping tag callee args [.problem diagnostic, .fail (.node tag.id)]
  | defined {id : DeclId} {decl : Decl} : scoping.declOf? callee.id = some (id, decl) →
    callable? decl.kind = some (args.length, none) →
      Calls scoping tag callee args [.set (.node tag.id) .unknown]
  | provided {id : DeclId} {decl : Decl} {signature : Signature} :
    scoping.declOf? callee.id = some (id, decl) →
    callable? decl.kind = some (args.length, some signature) →
      Calls scoping tag callee args [.node tag (args.map Expr.typeKey)
        (Typing.call callee.name signature (args.map Expr.position))]

theorem Scoping.calls (scoping : Scoping) (tag : Tag) (callee : Ident) (args : List Expr) :
    scoping.Calls tag callee args (scoping.callRegistrations tag callee args) := by
  unfold Scoping.callRegistrations
  cases found : scoping.declOf? callee.id with
  | none => exact .unknown found
  | some place =>
    obtain ⟨id, decl⟩ := place
    cases takes : callable? decl.kind with
    | none =>
      simp only [takes]
      exact .refused rfl nofun
    | some shape =>
      obtain ⟨arity, signature⟩ := shape
      simp only [takes]
      split
      · exact .refused rfl nofun
      · rename_i count
        obtain rfl := not_not.mp count
        cases signature with
        | none => exact .defined found takes
        | some => exact .provided found takes

namespace Node

variable {scoping : Scoping} {slots : AttributeTable Slot} {registration : Registration} {ty : Ty}
  {node : Node}

theorem callRegistrations_writes (scoping : Scoping) (tag : Tag) (callee : Ident) (args : List Expr) :
    (scoping.callRegistrations tag callee args).filterMap Registration.writes? = [.node tag.id] := by
  have calls := scoping.calls tag callee args
  generalize scoping.callRegistrations tag callee args = all at calls
  cases calls <;> rfl

/-- An expression writes its own type, once. -/
theorem registeredExpr_writes (scoping : Scoping) (expr : Expr) :
    (registeredExpr scoping expr).filterMap Registration.writes? = [expr.typeKey] := by
  cases expr with
  | call tag callee args => exact callRegistrations_writes scoping tag callee args
  | name tag name =>
    simp only [registeredExpr, Scoping.nameRegistration]
    split <;> rfl
  | _ => rfl

theorem branchChecks_writes (branches : List Branch) :
    (branchChecks branches).filterMap Registration.writes? = [] := by
  induction branches with
  | nil => rfl
  | cons first rest ih =>
    obtain ⟨position, condition, body⟩ := first
    cases condition <;> exact ih

/-- An assignment that introduces a variable passes on the type of the value. -/
theorem nameTargetRegistrations_eq {tag : Tag} {value : Expr} {ident : Ident}
    (member : registration ∈ nameTargetRegistrations scoping tag value ident) :
    ∃ id decl final, registration = .copy value.typeKey (.decl id) tag.position ∧
      scoping.declOf? ident.id = some (id, decl) ∧ decl.kind = .assigned final tag.id false := by
  unfold nameTargetRegistrations at member
  split at member
  · rename_i id decl found
    split at member
    · rename_i final node kind
      split at member
      · rename_i same
        subst same
        exact ⟨id, decl, final, List.mem_singleton.mp member, found, kind⟩
      · cases member
    · cases member
  · cases member

/-! ### What nodes register -/

/-- The names of a node: used, called, assigned, bound or defined. -/
def named : Node → List Ident
  | .expr (.name tag name) => [⟨tag.id, name, tag.position⟩]
  | .expr (.call _ callee _) => [callee]
  | .expr (.comprehension _ _ binder _ _) => [binder]
  | .stmt (.assign _ (.name ident) _ _) => [ident]
  | .stmt (.each _ binder _ _) => [binder]
  | .stmt (.define _ name params _) => name :: params
  | _ => []

/-- What the rules of a node read: the types of parts, of the declaration of a name, or of the element that
is assigned. -/
inductive Reads (scoping : Scoping) (node : Node) : Attribute → Prop
  | part {offset : List ScopeStep} {part : Expr} : (offset, .expr part) ∈ node.parts →
    Reads scoping node part.typeKey
  | name {tag : Tag} {name : String} {resolution : Resolution} : node = .expr (.name tag name) →
    scoping.resolutions[tag.id]? = some resolution → Reads scoping node (.decl resolution.decl)
  | slot {tag slot : Tag} {base index value : Expr} {final : Bool} :
    node = .stmt (.assign tag (.element slot base index) value final) → Reads scoping node (.node slot.id)

theorem Reads.item {item : Expr} (inside : .part (.expr item) ∈ node.stretches) :
    node.Reads scoping item.typeKey := by
  obtain ⟨offset, listed⟩ := Stretch.exists_part inside
  exact .part listed

theorem Reads.row {items : List Expr} (inside : Stretch.exprs items ⊆ node.stretches) :
    ∀ dep ∈ items.map Expr.typeKey, node.Reads scoping dep :=
  List.forall_mem_map.mpr fun _ listed => .item (inside (List.mem_map_of_mem listed))

theorem Reads.both {first second : Expr} (inside : Stretch.exprs [first, second] ⊆ node.stretches) :
    ∀ dep ∈ [first.typeKey, second.typeKey], node.Reads scoping dep :=
  row inside

theorem Reads.first {first : Expr} {rest : List Stretch} (shape : node.stretches = .part (.expr first) :: rest) :
    ∀ dep ∈ [first.typeKey], node.Reads scoping dep :=
  List.forall_mem_singleton.mpr (.item (shape ▸ List.mem_cons_self))

/-- What a node can register. A type fails where there is a problem, or where a name is unknown. -/
inductive Registers (scoping : Scoping) (node : Node) : Registration → Prop
  | rule {rule : Rule Diagnostic} : Typing.Form rule.compute →
    (∀ dep ∈ rule.deps, node.Reads scoping dep) → Registers scoping node (.rule rule)
  | set (key : Attribute) (ty : Ty) : Registers scoping node (.set key ty)
  | problem {diagnostic : Diagnostic} : diagnostic.problem.ofTypes = true →
    diagnostic.problem ≠ .undetermined → Registers scoping node (.problem diagnostic)
  | refused (key : Attribute) {diagnostic : Diagnostic} :
    .problem diagnostic ∈ node.registered scoping → Registers scoping node (.fail key)
  | unknown (key : Attribute) {name : Ident} : name ∈ node.named → scoping.declOf? name.id = none →
    Registers scoping node (.fail key)

theorem registers_expr {expr : Expr} (member : registration ∈ registeredExpr scoping expr) :
    (Node.expr expr).Registers scoping registration := by
  cases expr with
  | int | bool | text | none =>
    cases List.mem_singleton.mp member
    exact .set _ _
  | name tag name =>
    have same := List.mem_singleton.mp member
    unfold Scoping.nameRegistration at same
    split at same
    · rename_i resolution noted
      cases same
      exact .rule .copy (List.forall_mem_singleton.mpr (.name rfl noted))
    · rename_i missing
      cases same
      exact .unknown _ List.mem_cons_self (by rw [Scoping.declOf?, missing, Option.bind_none])
  | binary tag op =>
    cases List.mem_singleton.mp member
    exact .rule (.binary op _) (.both (List.Subset.refl _))
  | unary tag op =>
    cases List.mem_singleton.mp member
    exact .rule (.unary op _) (.first rfl)
  | index =>
    cases List.mem_singleton.mp member
    exact .rule (.index _) (.both (List.Subset.refl _))
  | array =>
    cases List.mem_singleton.mp member
    exact .rule .array (.row (List.Subset.refl _))
  | sized =>
    cases List.mem_singleton.mp member
    exact .rule (.role .arraySize _ .array) (.first rfl)
  | map tag entries =>
    cases List.mem_singleton.mp member
    refine .rule (.keys _) (List.forall_mem_map.mpr fun entry listed => ?_)
    exact .item (List.mem_flatMap.mpr ⟨entry, listed, List.mem_cons_self⟩)
  | comprehension tag element binder source filter =>
    cases List.mem_singleton.mp member
    refine .rule (.comprehension _ _) (List.forall_mem_cons.mpr ⟨.item List.mem_cons_self, ?_⟩)
    intro dep read
    obtain ⟨condition, rfl, rfl⟩ := Option.map_eq_some_iff.mp (Option.mem_toList.mp read)
    exact .item (by simp [stretches, Stretch.exprs])
  | call tag callee args =>
    have calls := scoping.calls tag callee args
    change registration ∈ scoping.callRegistrations tag callee args at member
    generalize same : scoping.callRegistrations tag callee args = all at calls member
    cases calls with
    | unknown missing =>
      cases List.mem_singleton.mp member
      exact .unknown _ List.mem_cons_self missing
    | @refused diagnostic types determined =>
      have listed : .problem diagnostic ∈ scoping.callRegistrations tag callee args := by
        rw [same]
        exact List.mem_cons_self
      rcases List.mem_pair.mp member with rfl | rfl
      · exact .problem types determined
      · exact .refused _ listed
    | defined =>
      cases List.mem_singleton.mp member
      exact .set _ _
    | provided =>
      cases List.mem_singleton.mp member
      exact .rule (.call _ _ _) (.row (List.subset_cons_self _ _))

theorem registers_branch {clauses : List Branch} (inside : Stretch.branches clauses ⊆ node.stretches)
    (member : registration ∈ branchChecks clauses) : node.Registers scoping registration := by
  induction clauses with
  | nil => cases member
  | cons first rest ih =>
    obtain ⟨position, condition, body⟩ := first
    have later := ih fun _ listed => inside (List.mem_append_right _ listed)
    cases condition with
    | none => exact later member
    | some condition =>
      rcases List.mem_cons.mp member with rfl | member
      · exact .rule (.role .condition _ _) (List.forall_mem_singleton.mpr (.item (inside List.mem_cons_self)))
      · exact later member

theorem registers_stmt {stmt : Stmt} (member : registration ∈ registeredStmt scoping stmt) :
    (Node.stmt stmt).Registers scoping registration := by
  cases stmt with
  | expr | ret => cases member
  | define =>
    cases List.mem_singleton.mp member
    exact .set _ _
  | loop =>
    cases List.mem_singleton.mp member
    exact .rule (.role .condition _ _) (.first rfl)
  | each =>
    cases List.mem_singleton.mp member
    exact .rule (.role .loopSource _ _) (.first rfl)
  | cond position condition body branches =>
    rcases List.mem_cons.mp member with rfl | member
    · exact .rule (.role .condition _ _) (.first rfl)
    · exact registers_branch (fun _ listed => List.mem_cons_of_mem _ (List.mem_cons_of_mem _ listed)) member
  | assign tag target value final =>
    cases target with
    | name ident =>
      rcases List.mem_cons.mp member with rfl | member
      · exact .rule .copy (.first rfl)
      · obtain ⟨_, _, _, rfl, -⟩ := nameTargetRegistrations_eq member
        exact .rule .copy (.first rfl)
    | element slot base index =>
      rcases List.mem_cons.mp member with rfl | member
      · exact .rule .copy (.first rfl)
      · rcases List.mem_pair.mp member with rfl | rfl
        · exact .rule (.index _) (.both (List.subset_cons_self _ _))
        · exact .rule (.store _) (List.forall_mem_cons.mpr
            ⟨.item List.mem_cons_self, List.forall_mem_singleton.mpr (.slot rfl)⟩)

theorem Registers.form {rule : Rule Diagnostic} (registers : node.Registers scoping (.rule rule)) :
    Typing.Form rule.compute := by
  cases registers with
  | rule form _ => exact form

/-- **What a node registers.** -/
theorem registers (member : registration ∈ node.registered scoping) :
    node.Registers scoping registration := by
  cases node with
  | expr e => exact registers_expr member
  | stmt s => exact registers_stmt member
  | block b => cases member

/-- A node writes the types of its own numbers, and of the variable that it introduces. -/
theorem registered_writes (member : registration ∈ node.registered scoping)
    (writes : registration.writes? = some key) :
    (∃ id ∈ node.own, key = .node id) ∨
      ∃ tag ident value final id decl declFinal,
        node = .stmt (.assign tag (.name ident) value final) ∧ key = .decl id ∧
        registration = .copy value.typeKey (.decl id) tag.position ∧
        scoping.declOf? ident.id = some (id, decl) ∧
        decl.kind = .assigned declFinal tag.id false := by
  have written : key ∈ (node.registered scoping).filterMap Registration.writes? :=
    List.mem_filterMap.mpr ⟨registration, member, writes⟩
  cases node with
  | expr e =>
    change key ∈ (registeredExpr scoping e).filterMap Registration.writes? at written
    rw [registeredExpr_writes, List.mem_singleton] at written
    refine .inl ⟨e.id, ?_, written⟩
    cases e <;> exact List.mem_cons_self
  | block b => cases member
  | stmt s =>
    cases s with
    | expr | ret => cases member
    | loop | each => cases written
    | cond position condition body branches =>
      change key ∈ (branchChecks branches).filterMap Registration.writes? at written
      rw [branchChecks_writes] at written
      cases written
    | define tag name params body =>
      exact .inl ⟨tag.id, List.mem_cons_self, List.mem_singleton.mp written⟩
    | assign tag target value final =>
      cases target with
      | element slot base index =>
        rcases List.mem_pair.mp written with rfl | rfl
        · exact .inl ⟨tag.id, List.mem_cons_self, rfl⟩
        · exact .inl ⟨slot.id, List.mem_cons_of_mem _ List.mem_cons_self, rfl⟩
      | name ident =>
        rcases List.mem_cons.mp member with rfl | member
        · exact .inl ⟨tag.id, List.mem_cons_self, (Option.some.inj writes).symm⟩
        · obtain ⟨id, decl, declFinal, rfl, found, kind⟩ := nameTargetRegistrations_eq member
          exact .inr ⟨tag, ident, value, final, id, decl, declFinal, rfl,
            (Option.some.inj writes).symm, rfl, found, kind⟩

/-- A node gives types to its own numbers, or to the variable that it introduces. -/
theorem registered_gives (member : registration ∈ node.registered scoping)
    (gives : registration.Gives slots key ty) :
    (∃ id ∈ node.own, key = .node id) ∨
      ∃ tag ident value final id decl declFinal,
        node = .stmt (.assign tag (.name ident) value final) ∧ key = .decl id ∧
        scoping.declOf? ident.id = some (id, decl) ∧
        decl.kind = .assigned declFinal tag.id false ∧
        slots.get? value.typeKey = some (.ready ty) := by
  rcases registered_writes member (Registration.writes?_of_gives gives) with
    mine | ⟨tag, ident, value, final, id, decl, declFinal, rfl, rfl, rfl, found, kind⟩
  · exact .inl mine
  · exact .inr ⟨tag, ident, value, final, id, decl, declFinal, rfl, rfl, found, kind,
      (Registration.copy_gives.mp gives).2⟩

end Node

/-! ### Where types come from -/

namespace Program

variable {program : Program} {policy : Redeclaration} {ty : Ty}

/-- What is settled about the types of a program. -/
def types (program : Program) (policy : Redeclaration) : AttributeTable Slot :=
  (program.check (program.resolve policy)).slots

theorem mem_seeds {tree : ScopeTree} {registration : Registration} :
    registration ∈ seeds tree ↔ ∃ id decl ty, tree.decls[id]? = some decl ∧
      decl.kind.seed? = some ty ∧ registration = .set (.decl id) ty := by
  unfold seeds
  simp only [List.mem_filterMap, Prod.exists, List.mk_mem_zipIdx_iff_getElem?, Array.getElem?_toList,
    Option.map_eq_some_iff]
  constructor
  · rintro ⟨decl, id, stored, ty, seed, rfl⟩
    exact ⟨id, decl, ty, stored, seed, rfl⟩
  · rintro ⟨id, decl, ty, stored, seed, rfl⟩
    exact ⟨decl, id, stored, ty, seed, rfl⟩

/-- What is registered is a seed, or is registered by a node. -/
theorem mem_registrations {scoping : Scoping} {registration : Registration} :
    registration ∈ program.registrations scoping ↔ registration ∈ seeds scoping.tree ∨
      ∃ place inner, (Node.block program.body).Within place inner ∧
        registration ∈ inner.registered scoping := by
  refine List.mem_append.trans (or_congr_right ⟨fun body => ?_, ?_⟩)
  · exact Node.registered_within (show _ ∈ (Node.block program.body).registrations _ from body)
  · rintro ⟨place, inner, within, registered⟩
    exact within.registered registered

theorem seeds_gives {tree : ScopeTree} {slots : AttributeTable Slot} {registration : Registration}
    (member : registration ∈ seeds tree) (gives : registration.Gives slots key ty) :
    ∃ id decl, key = .decl id ∧ tree.decls[id]? = some decl ∧ decl.kind.seed? = some ty := by
  obtain ⟨id, decl, ty', stored, seed, rfl⟩ := mem_seeds.mp member
  obtain ⟨rfl, rfl⟩ := gives
  exact ⟨id, decl, rfl, stored, seed⟩

namespace Accepted

variable (accepted : program.Accepted policy)

include accepted

/-- **The type of an expression is given by what that expression registers.** -/
theorem node_type {steps : List ScopeStep} {expr : Expr}
    (within : (Node.block program.body).Within steps (.expr expr))
    (found : (program.types policy).get? expr.typeKey = some (.ready ty)) :
    ∃ registration ∈ Node.registeredExpr (program.resolve policy) expr,
      registration.Gives (program.types policy) expr.typeKey ty := by
  obtain ⟨registration, member, gives⟩ := Program.type_justified found
  rcases mem_registrations.mp member with seed | ⟨steps', inner, within', registered⟩
  · obtain ⟨id, -, same, -⟩ := seeds_gives seed gives
    cases same
  · rcases Node.registered_gives registered gives with
      ⟨id, own, same⟩ | ⟨tag, ident, value, final, id, decl, declFinal, -, same, -⟩
    · cases same
      have mine : expr.id ∈ (Node.expr expr).own := by cases expr <;> exact List.mem_cons_self
      obtain ⟨-, rfl⟩ := within.unique accepted.distinct_body within' mine own
      exact ⟨registration, registered, gives⟩
    · cases same

omit accepted in
/-- **The type of a declaration** is its seed, or that of the value of the assignment that
introduces it. -/
theorem decl_type {id : DeclId}
    (found : (program.types policy).get? (.decl id) = some (.ready ty)) :
    (∃ decl, (program.resolve policy).tree.decls[id]? = some decl ∧ decl.kind.seed? = some ty) ∨
      ∃ steps tag ident value final decl declFinal,
        (Node.block program.body).Within steps (.stmt (.assign tag (.name ident) value final)) ∧
        (program.resolve policy).declOf? ident.id = some (id, decl) ∧
        decl.kind = .assigned declFinal tag.id false ∧
        (program.types policy).get? value.typeKey = some (.ready ty) := by
  obtain ⟨registration, member, gives⟩ := Program.type_justified found
  rcases mem_registrations.mp member with seed | ⟨steps, inner, within, registered⟩
  · obtain ⟨id, decl, same, stored, seeded⟩ := seeds_gives seed gives
    cases same
    exact .inl ⟨decl, stored, seeded⟩
  · rcases Node.registered_gives registered gives with
      ⟨id, -, same⟩ | ⟨tag, ident, value, final, id, decl, declFinal, rfl, same, declared, kind, typed⟩
    · cases same
    · cases same
      exact .inr ⟨steps, tag, ident, value, final, decl, declFinal, within, declared, kind, typed⟩

end Accepted

end Program

end ScopedScript

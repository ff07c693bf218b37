/-
**Type soundness.**

The types that the check of a program finds are those of the values that its expressions have when
it runs, with two reservations. The function `read` promises a text, but gives no text at the end of
a file. And a name can be declared again in the same scope, with its value in the same frame: a
function further in that refers to the older declaration then reads the value of the newer one.

* `Program.captures`: the declarations that functions further in refer to;
* `Script.Unsettles`: the assignments that put a value of another type in the place of such a
  declaration, `Script.Suspect` the declarations that can have such values;
* `Program.Accepted.typing_valid`: the types of a program are a contract that it respects;
* `Script.values_typed`: **every expression that has a known type has values of that type**, unless
  it is the name of a suspect declaration and something was unsettled before;
* `Script.unsettled_type`: such a name can have a value of another type.
-/

import ScopedScript.Proofs.Registration
import ScopedScript.Proofs.Storage

namespace ScopedScript

variable {policy : Redeclaration} {id : DeclId} {program : Program} {code : Code}
  {assigned excused : DeclId → Prop}
variable {bottom : Bottom} {pending : List Pending} {node : Node} {callers : List Activation}

/-! ### Captured declarations -/

/-- The declaration that a step refers to, if it is one of a function further out. -/
def Resolver.captured? (resolver : Resolver) : ScopeStep → Option DeclId
  | .use name =>
    (resolver.layers.find? fun layer => (layer.names.lookup name.name).isSome).bind fun layer =>
      if layer.own then none else layer.names.lookup name.name
  | _ => none

/-- The declarations of functions further out that steps refer to. -/
def Resolver.captures (policy : Redeclaration) : Resolver → List ScopeStep → List DeclId
  | _, [] => []
  | resolver, step :: rest =>
    (resolver.captured? step).toList ++ (resolver.take policy step).captures policy rest

/-- The declarations that functions further in refer to. -/
def Program.captures (program : Program) (policy : Redeclaration) : List DeclId :=
  (Resolver.initial program.id).captures policy program.scopeSteps

theorem Resolver.mem_captures {resolver : Resolver} {steps rest : List ScopeStep} {step : ScopeStep}
    (captured : (resolver.follow policy steps).captured? step = some id) :
    id ∈ resolver.captures policy (steps ++ step :: rest) := by
  induction steps generalizing resolver with
  | nil =>
    rw [follow_nil] at captured
    rw [List.nil_append, captures, captured]
    exact List.mem_append_left _ (List.mem_singleton.mpr rfl)
  | cons first steps ih =>
    rw [List.cons_append, captures]
    exact List.mem_append_right _ (ih captured)

/-- A name that is found in a layer of another function captures its declaration. -/
theorem Program.captures_of_use {steps : List ScopeStep} {name : Ident} {inner outer : List Layer}
    {layer : Layer} (within : steps ++ [.use name] <+: program.scopeSteps)
    (around : (program.before policy steps).layers = inner ++ layer :: outer)
    (other : layer.own = false) (latest : layer.names.lookup name.name = some id)
    (nearer : ∀ layer ∈ inner, layer.names.lookup name.name = none) :
    id ∈ program.captures policy := by
  obtain ⟨rest, whole⟩ := within
  rw [captures, ← whole, List.append_assoc]
  refine Resolver.mem_captures ?_
  show (List.find? _ (program.before policy steps).layers).bind _ = some id
  have absent : inner.find? (fun layer => (layer.names.lookup name.name).isSome) = none :=
    List.find?_eq_none.mpr fun layer member => by simp [nearer layer member]
  rw [around, List.find?_append, absent, Option.none_or, List.find?_cons, latest]
  simp only [Option.isSome_some, Option.bind_some, other, Bool.false_eq_true, if_false, latest]

namespace Script

variable (script : Script)

/-- Two declarations with one place, the older of a known type, the newer not of that type. -/
def Disagree (older newer : DeclId) : Prop :=
  script.analysis.tree.shares older newer = true ∧
    script.analysis.declTypes[older]? ≠ some .unknown ∧
    script.analysis.declTypes[newer]? ≠ script.analysis.declTypes[older]?

instance (older newer : DeclId) : Decidable (script.Disagree older newer) :=
  inferInstanceAs (Decidable (_ ∧ _ ∧ _))

/-- The declarations that functions further in refer to. -/
def captures : List DeclId := script.program.captures script.options.redeclaration

/-- Assigning a declaration unsettles an older one, to which a function further in refers. -/
def Unsettles (newer : DeclId) : Prop := ∃ older ∈ script.captures, script.Disagree older newer

instance (newer : DeclId) : Decidable (script.Unsettles newer) :=
  inferInstanceAs (Decidable (∃ older ∈ script.captures, script.Disagree older newer))

/-- The declarations that can have values of other types than their own. -/
inductive Suspect : DeclId → Prop
  | unsettled {older newer : DeclId} : older ∈ script.captures → script.Disagree older newer →
    Suspect older
  /-- The value of a suspect declaration shows in an older one with the same place. -/
  | shared {older newer : DeclId} : older ∈ script.captures →
    script.analysis.tree.shares older newer = true → Suspect newer → Suspect older
  /-- The value of a suspect declaration is assigned, as it is, to another one. -/
  | copied {steps : List ScopeStep} {tag tag' : Tag} {ident : Ident} {name : String} {final : Bool}
      {resolution resolution' : Resolution} :
    (Node.block script.program.body).Within steps
      (.stmt (.assign tag (.name ident) (.name tag' name) final)) →
    script.analysis.resolutions[ident.id]? = some resolution →
    script.analysis.resolutions[tag'.id]? = some resolution' → Suspect resolution'.decl →
      Suspect resolution.decl

end Script

/-- A call of the built-in function `read`. -/
def Script.CallsRead (script : Script) : Prop :=
  ∃ steps tag callee args resolution decl signature,
    (Node.block script.program.body).Within steps (.expr (.call tag callee args)) ∧
    script.analysis.resolutions[callee.id]? = some resolution ∧
    script.analysis.tree.decls[resolution.decl]? = some decl ∧
    decl.kind = .builtin (.function signature) ∧ callee.name = Builtin.read.name

/-! ### Types as a contract -/

/-- An expression is a name of one of some declarations. -/
def Program.Names (program : Program) (policy : Redeclaration) (these : DeclId → Prop)
    (expr : Expr) : Prop :=
  ∃ tag name resolution, expr = .name tag name ∧
    (program.resolve policy).resolutions[tag.id]? = some resolution ∧ these resolution.decl

/-- What the types of a program claim of values, as long as only some variables are assigned: a
known type is the type of the value, for other names than those that are excused. -/
def Program.typing (program : Program) (policy : Redeclaration) (assigned excused : DeclId → Prop) :
    Contract where
  captured id := id ∈ program.captures policy
  assigned := assigned
  allows id value := ¬ excused id → ∀ ty,
    (program.types policy).get? (.decl id) = some (.ready ty) → ty ≠ .unknown → value.ty = ty
  yields expr value := ¬ program.Names policy excused expr → ∀ ty,
    (program.types policy).get? expr.typeKey = some (.ready ty) → ty ≠ .unknown → value.ty = ty

section Rules

variable {types : List Ty} {ty : Ty}
variable {scoping : Scoping} {slots : AttributeTable Slot} {key : Attribute}
  {registration : Registration}

theorem Typing.one_ok {rule : Ty → Except Diagnostic Ty}
    (computed : Typing.one .unknown rule types = .ok ty) (known : ty ≠ .unknown) :
    ∃ first, types = [first] ∧ rule first = .ok ty := by
  unfold Typing.one at computed
  split at computed
  · exact ⟨_, rfl, computed⟩
  · cases computed
    exact absurd rfl known

theorem Typing.two_ok {rule : Ty → Ty → Except Diagnostic Ty}
    (computed : Typing.two .unknown rule types = .ok ty) (known : ty ≠ .unknown) :
    ∃ first second, types = [first, second] ∧ rule first second = .ok ty := by
  unfold Typing.two at computed
  split at computed
  · exact ⟨_, _, rfl, computed⟩
  · cases computed
    exact absurd rfl known

theorem Typing.index_ok {position : Position} {base index : Ty}
    (computed : Typing.index position base index = .ok ty) : ty = .unknown := by
  obtain ⟨cause, same⟩ := Typing.index_eq position base index
  rw [same] at computed
  split at computed
  · exact (Except.ok.inj computed).symm
  · cases computed

/-- The type that an expression gets by a rule is the one that its form gives. -/
theorem Node.form_gives {expr : Expr} {form : Ty}
    (member : registration ∈ Node.registeredExpr scoping expr)
    (gives : registration.Gives slots key ty) (known : ty ≠ .unknown)
    (shape : expr.form? = some form) : form = ty := by
  cases expr with
  | name | index | call => cases shape
  | int | bool | text | none =>
    cases List.mem_singleton.mp member
    cases shape
    exact gives.2
  | binary tag op left right =>
    cases List.mem_singleton.mp member
    cases shape
    obtain ⟨-, types, -, computed⟩ := Registration.node_gives.mp gives
    obtain ⟨first, second, -, computed⟩ := Typing.two_ok computed known
    unfold Typing.binary at computed
    split at computed
    · exact Except.ok.inj computed
    · cases computed
  | unary tag op operand =>
    cases List.mem_singleton.mp member
    cases shape
    obtain ⟨-, types, -, computed⟩ := Registration.node_gives.mp gives
    obtain ⟨first, -, computed⟩ := Typing.one_ok computed known
    obtain ⟨-, -, computed⟩ := ok_of_bind computed
    cases op <;> exact Except.ok.inj computed
  | array tag items =>
    cases List.mem_singleton.mp member
    cases shape
    obtain ⟨-, types, -, computed⟩ := Registration.node_gives.mp gives
    exact Except.ok.inj computed
  | sized tag size =>
    cases List.mem_singleton.mp member
    cases shape
    obtain ⟨-, types, -, computed⟩ := Registration.node_gives.mp gives
    obtain ⟨-, -, computed⟩ := ok_of_bind computed
    exact Except.ok.inj computed
  | map tag entries =>
    cases List.mem_singleton.mp member
    cases shape
    obtain ⟨-, types, -, computed⟩ := Registration.node_gives.mp gives
    unfold Typing.keys at computed
    split at computed
    · cases computed
    · exact Except.ok.inj computed
  | comprehension tag element binder source filter =>
    cases List.mem_singleton.mp member
    cases shape
    obtain ⟨-, types, -, computed⟩ := Registration.node_gives.mp gives
    unfold Typing.comprehension at computed
    split at computed
    · obtain ⟨-, -, computed⟩ := ok_of_bind computed
      exact Except.ok.inj computed
    · obtain ⟨-, -, computed⟩ := ok_of_bind computed
      obtain ⟨-, -, computed⟩ := ok_of_bind computed
      exact Except.ok.inj computed
    · exact Except.ok.inj computed

/-- The type of a call of a built-in function is the one that its signature gives. -/
theorem Node.call_gives {tag : Tag} {callee : Ident} {args : List Expr} {decl : Decl}
    (member : registration ∈ scoping.callRegistrations tag callee args)
    (gives : registration.Gives slots key ty) (known : ty ≠ .unknown)
    (found : scoping.declOf? callee.id = some (id, decl)) :
    ∃ signature, decl.kind = .builtin (.function signature) ∧ ty = signature.returns := by
  have calls := scoping.calls tag callee args
  generalize scoping.callRegistrations tag callee args = all at calls member
  cases calls with
  | unknown missing => cases missing.symm.trans found
  | refused => rcases List.mem_pair.mp member with rfl | rfl <;> cases gives
  | defined =>
    cases List.mem_singleton.mp member
    exact absurd gives.2.symm known
  | @provided _ _ signature found' callable =>
    cases found.symm.trans found'
    cases List.mem_singleton.mp member
    obtain ⟨-, types, -, computed⟩ := Registration.node_gives.mp gives
    refine ⟨signature, ?_, ?_⟩
    · unfold Scoping.callable? at callable
      split at callable
      · cases (Prod.mk.inj (Option.some.inj callable)).2
      · obtain rfl := Option.some.inj (Prod.mk.inj (Option.some.inj callable)).2
        assumption
      · cases callable
    · unfold Typing.call at computed
      split at computed
      · cases computed
      · exact (Except.ok.inj computed).symm

end Rules

/-! ### The contract is respected -/

theorem Export.builtin_of_mem {name : String} {signature : Signature}
    (provided : ⟨name, .function signature⟩ ∈ Export.standard) :
    ∃ builtin : Builtin, builtin.name = name ∧ builtin.signature = signature := by
  obtain ⟨library, -, provided⟩ := List.mem_flatMap.mp provided
  rcases List.mem_append.mp provided with value | function
  · obtain ⟨constant, -, same⟩ := List.mem_map.mp value
    cases same
  · obtain ⟨builtin, -, same⟩ := List.mem_map.mp function
    cases same
    exact ⟨builtin, rfl, rfl⟩

theorem Builtin.ofName?_name (builtin : Builtin) : Builtin.ofName? builtin.name = some builtin := by
  cases builtin <;> rfl

namespace Program

variable {program : Program} {policy : Redeclaration}

/-- A name that stands for a built-in function is the name of that function. -/
theorem Accepted.provided (accepted : program.Accepted policy)
    {steps : List ScopeStep} {callee : Ident} {resolution : Resolution}
    {decl : Decl} {signature : Signature}
    (within : steps ++ [.use callee] <+: program.scopeSteps)
    (noted : (program.resolve policy).resolutions[callee.id]? = some resolution)
    (stored : (program.resolve policy).tree.decls[resolution.decl]? = some decl)
    (kind : decl.kind = .builtin (.function signature)) :
    ∃ builtin, Builtin.ofName? callee.name = some builtin ∧ builtin.name = callee.name ∧
      builtin.signature = signature := by
  have provided := provided_decl (Block.declares_plain program.body) stored kind
  rw [accepted.use_named within noted stored] at provided
  obtain ⟨builtin, name, same⟩ := Export.builtin_of_mem provided
  exact ⟨builtin, by rw [← name, Builtin.ofName?_name], name, same⟩

/-- A declaration whose type does not come from an assignment has its seed for a type. -/
theorem seed_type {decl : Decl} {ty seed : Ty}
    (stored : (program.resolve policy).tree.decls[id]? = some decl)
    (seeded : decl.kind.seed? = some seed)
    (found : (program.types policy).get? (.decl id) = some (.ready ty)) : ty = seed := by
  rcases Accepted.decl_type found with
    ⟨decl', stored', seeded'⟩ | ⟨_, tag, ident, _, _, decl', final, -, declared, kind, -⟩
  · obtain rfl : decl = decl' := Option.some.inj (stored.symm.trans stored')
    exact Option.some.inj (seeded'.symm.trans seeded)
  · obtain ⟨resolution, -, rfl, stored'⟩ := Scoping.declOf?_eq_some.mp declared
    obtain rfl : decl = decl' := Option.some.inj (stored.symm.trans stored')
    rw [kind] at seeded
    cases seeded

/-- A variable has the type of the value that is assigned to it, where it has a known type. -/
theorem Accepted.assigned_type (accepted : program.Accepted policy)
    {steps : List ScopeStep} {tag : Tag} {ident : Ident} {expr : Expr}
    {final : Bool} {resolution : Resolution} {ty : Ty}
    (within : (Node.block program.body).Within steps (.stmt (.assign tag (.name ident) expr final)))
    (noted : (program.resolve policy).resolutions[ident.id]? = some resolution)
    (found : (program.types policy).get? (.decl resolution.decl) = some (.ready ty))
    (known : ty ≠ .unknown) :
    (program.types policy).get? expr.typeKey = some (.ready ty) := by
  have assigns := within.assign_isPrefix
  rcases accepted.assign assigns with
    ⟨same, noted'⟩ | ⟨_, layer, _, id, decl, -, -, -, noted', stored, -, -, loose, -⟩
  · obtain ⟨decl, stored, -, older, -⟩ := Accepted.declared assigns same
    obtain ⟨further, kind⟩ := older.assigned
    rw [noted] at noted'
    cases noted'
    rcases Accepted.decl_type found with
      ⟨decl', stored', seeded⟩ |
      ⟨_, tag', ident', value, _, decl', _, within', declared, kind', typed⟩
    · obtain rfl : decl = decl' := Option.some.inj (stored.symm.trans stored')
      rw [kind] at seeded
      cases further <;> cases seeded
      exact absurd rfl known
    · -- the assignment that gives the type is this one, since it has the same number
      obtain ⟨resolution, -, same, stored'⟩ := Scoping.declOf?_eq_some.mp declared
      obtain rfl : decl = decl' := Option.some.inj (stored.symm.trans stored')
      have number : tag.id = tag'.id := (DeclKind.assigned.inj (kind.symm.trans kind')).2.1
      obtain ⟨-, same⟩ := within.unique accepted.distinct_body within' List.mem_cons_self
        (number ▸ List.mem_cons_self)
      cases same
      exact typed
  · rw [noted] at noted'
    cases noted'
    exact absurd (seed_type stored loose found) known

/-- A variable or a function has the type of its declaration. -/
theorem Accepted.name_type (accepted : program.Accepted policy) {steps : List ScopeStep} {tag : Tag}
    {name : String} {resolution : Resolution} {ty : Ty}
    (within : (Node.block program.body).Within steps (.expr (.name tag name)))
    (noted : (program.resolve policy).resolutions[tag.id]? = some resolution)
    (found : (program.types policy).get? (Expr.name tag name).typeKey = some (.ready ty)) :
    (program.types policy).get? (.decl resolution.decl) = some (.ready ty) := by
  obtain ⟨registration, member, gives⟩ := accepted.node_type within found
  cases List.mem_singleton.mp member
  unfold Scoping.nameRegistration at gives
  rw [noted] at gives
  exact (Registration.copy_gives.mp gives).2

theorem function_type {decl : Decl} {ty : Ty}
    (stored : (program.resolve policy).tree.decls[id]? = some decl)
    (function : decl.isFunction = true)
    (found : (program.types policy).get? (.decl id) = some (.ready ty)) : ty = .unknown := by
  unfold Decl.isFunction at function
  split at function
  · exact seed_type stored (by rw [‹decl.kind = _›]; rfl) found
  · exact seed_type stored (by rw [‹decl.kind = _›]; rfl) found
  · cases function

/-- **The types of a program are a contract that it respects**, if it does not call `read`, the
variables that are assigned have the types of captured ones in their places, and values of excused
declarations go to excused declarations. -/
theorem Accepted.typing_valid (accepted : program.Accepted policy)
    (quiet : ∀ ⦃steps tag callee args resolution decl signature⦄, (Node.block program.body).Within
      steps (.expr (.call tag callee args)) → (program.resolve policy).resolutions[callee.id]? =
      some resolution → (program.resolve policy).tree.decls[resolution.decl]? = some decl →
      decl.kind = .builtin (.function signature) → callee.name ≠ Builtin.read.name)
    (steady : ∀ ⦃older newer⦄, older ∈ program.captures policy → (program.resolve
      policy).tree.shares older newer = true → assigned newer → ¬ excused older → ¬ excused newer ∧
      ∀ ty, (program.types policy).get? (.decl older) = some (.ready ty) → ty ≠ .unknown →
      (program.types policy).get? (.decl newer) = some (.ready ty))
    (copied : ∀ ⦃steps tag ident expr final resolution⦄, (Node.block program.body).Within steps
      (.stmt (.assign tag (.name ident) expr final)) → (program.resolve
      policy).resolutions[ident.id]? = some resolution → program.Names policy excused expr → excused
      resolution.decl) :
    (program.typing policy assigned excused).Valid program policy where
  form steps expr value within shape _ ty found known := by
    obtain ⟨registration, member, gives⟩ := accepted.node_type within found
    exact Node.form_gives member gives known shape
  element steps tag base index value within _ ty found known := by
    obtain ⟨registration, member, gives⟩ := accepted.node_type within found
    cases List.mem_singleton.mp member
    obtain ⟨-, types, -, computed⟩ := Registration.node_gives.mp gives
    obtain ⟨first, second, -, computed⟩ := Typing.two_ok computed known
    exact absurd (Typing.index_ok computed) known
  name steps tag name resolution decl value within noted stored allowed unnamed ty found known := by
    have typed := accepted.name_type within noted found
    cases function : decl.isFunction with
    | false =>
      refine allowed function (fun excused => ?_) ty typed known
      exact unnamed ⟨tag, name, resolution, rfl, noted, excused⟩
    | true => exact absurd (function_type stored function typed) known
  call steps tag callee args resolution decl value within noted stored given _ ty found known := by
    obtain ⟨registration, member, gives⟩ := accepted.node_type within found
    obtain ⟨signature, kind, rfl⟩ := Node.call_gives member gives known
      (Scoping.declOf?_eq_some.mpr ⟨resolution, noted, rfl, stored⟩)
    obtain ⟨builtin, standard, name, rfl⟩ := accepted.provided within.use_isPrefix noted stored kind
    refine given _ builtin kind standard ?_
    rintro rfl
    exact quiet within noted stored kind name.symm
  assign steps tag ident expr final resolution value within noted yields plain ty found known :=
    yields (fun named => plain (copied within noted named)) ty
      (accepted.assigned_type within noted found known) known
  loose id decl value stored seeded _ ty found known :=
    absurd (seed_type stored seeded found) known
  constant id decl ty value stored kind typed _ ty' found known := by
    rw [typed, seed_type stored (by rw [kind]; rfl) found]
  shared older newer decl decl' value captured stored stored' function function' named scope later
      settled allowed plain ty found known := by
    have shares : (program.resolve policy).tree.shares older newer = true := by
      unfold ScopeTree.shares
      rw [stored, stored']
      simp [later, function, function', named, scope]
    obtain ⟨plain', same⟩ := steady captured shares settled plain
    exact allowed plain' ty (same ty found known) known
  capture steps name inner layer outer id within around other latest nearer :=
    captures_of_use within around other latest nearer

end Program

/-! ### Values of expressions -/

/-- From a configuration the machine evaluates an expression to a value: it comes back, for the
first time, to the work that waits for the value. -/
structure Code.Evaluates (code : Code) (config : Config) (steps : Nat) (expr : Expr)
    (value : Value) : Prop where
  starts : config.control = .eval expr
  ends : ∃ store, code.after steps config = some ⟨.resume value, config.pending, store⟩
  first : ∀ earlier < steps, ∀ middle, code.after earlier config = some middle →
    middle.control.isOver = true → middle.pending ≠ config.pending

theorem Waiting.at_bottom {steps : List ScopeStep} {expr : Expr}
    (waiting : Waiting program policy code bottom pending steps node callers)
    (last : pending = bottom.pending) (whole : bottom.node = .expr expr) : node = .expr expr := by
  induction waiting with
  | bottom => exact whole
  | work _ below | call below =>
    have longer := below.length_le
    rw [← last, List.length_cons] at longer
    omega
  | value _ ih => cases ih last

/-- Work on top of a bottom lies above what is below. -/
theorem Waiting.suffix {steps : List ScopeStep}
    (waiting : Waiting program policy code bottom pending steps node callers) :
    bottom.pending <:+ pending := by
  induction waiting with
  | bottom => exact List.suffix_rfl
  | value _ ih => exact ih
  | work _ _ ih | call _ _ _ _ ih => exact ih.trans (List.suffix_cons _ _)

section Evaluations

variable {program : Program} {policy : Redeclaration} {code : Code} {contract : Contract}
  {bottom : Bottom} {act : Activation} {callers : List Activation} {config : Config} {steps : Nat}
  {expr : Expr} {value : Value}

/-- The work that waits for an expression is the bottom of what is done for it. -/
theorem Setting.evaluation (setting : Setting program policy code contract bottom)
    (standing : Standing program policy code contract bottom act callers config)
    (starts : config.control = .eval expr) :
    ∃ place, Setting program policy code contract ⟨config.pending, place, .expr expr, callers⟩ ∧
      Standing program policy code contract ⟨config.pending, place, .expr expr, callers⟩ act callers
        config := by
  obtain ⟨control, pending, store⟩ := config
  obtain rfl : control = .eval expr := starts
  cases standing.placed with
  | @eval _ _ place _ _ waiting here =>
    exact ⟨place, ⟨setting.of, setting.valid, waiting.within setting.inside⟩,
      standing.frames, standing.sound, .eval .bottom here⟩

/-- **An expression that has a value has one that the contract lets it yield.** -/
theorem Setting.evaluates (setting : Setting program policy code contract bottom)
    (standing : Standing program policy code contract bottom act callers config)
    (evaluates : code.Evaluates config steps expr value)
    (permitted : ∀ earlier < steps, ∀ middle, code.after earlier config = some middle →
      code.Permits contract middle) :
    contract.yields expr value := by
  obtain ⟨starts, ⟨store', reached⟩, first⟩ := evaluates
  obtain ⟨place, inner, begins⟩ := setting.evaluation standing starts
  obtain ⟨act', callers', -, -, placed⟩ := inner.after begins first permitted reached
  cases placed with
  | resume waiting' _ yields =>
    exact yields expr (waiting'.at_bottom rfl rfl)

end Evaluations

namespace Script

variable {source : String} {options : Options} {script : Script}
variable {ty : Ty}

theorem types_get? (compiled : Script.compile source options = .ok script) {id : NodeId} :
    script.analysis.types[id]? = some ty ↔
      (script.program.types options.redeclaration).get? (.node id) = some (.ready ty) := by
  obtain ⟨-, analyzed, -⟩ := of_compile compiled
  obtain ⟨-, -, -, types, -⟩ := Program.of_analyze analyzed
  rw [types, Solution.nodeTypes_eq_ty?, AttributeTable.ty?_eq_some]
  rfl

theorem declTypes_get? (compiled : Script.compile source options = .ok script) :
    script.analysis.declTypes[id]? = some ty ↔
      (script.program.types options.redeclaration).get? (.decl id) = some (.ready ty) := by
  obtain ⟨-, analyzed, -⟩ := of_compile compiled
  obtain ⟨-, -, -, -, types⟩ := Program.of_analyze analyzed
  rw [types, Solution.declTypes_eq_ty?, AttributeTable.ty?_eq_some]
  rfl

/-- The types of a script that does not call `read` are a contract that it respects, as long as
either nothing is unsettled or suspect declarations are excused. -/
theorem typing_valid (compiled : Script.compile source options = .ok script)
    (quiet : ¬ script.CallsRead)
    (settled : ∀ ⦃older newer⦄, older ∈ script.captures → assigned newer → ¬ excused older → ¬
      script.Disagree older newer)
    (shared : ∀ ⦃older newer⦄, older ∈ script.captures → script.analysis.tree.shares older newer =
      true → excused newer → excused older)
    (copied : ∀ ⦃steps tag ident tag' name final resolution resolution'⦄, (Node.block
      script.program.body).Within steps (.stmt (.assign tag (.name ident) (.name tag' name) final))
      → script.analysis.resolutions[ident.id]? = some resolution →
      script.analysis.resolutions[tag'.id]? = some resolution' → excused resolution'.decl → excused
      resolution.decl) :
    (script.program.typing options.redeclaration assigned excused).Valid script.program
      options.redeclaration := by
  obtain ⟨accepted, tree, resolutions, -⟩ := code_of_compile compiled
  change script.analysis.tree = _ at tree
  change script.analysis.resolutions = _ at resolutions
  have same := (of_compile compiled).2.2
  refine accepted.typing_valid ?_ ?_ ?_
  · rw [← tree, ← resolutions]
    intro steps tag callee args resolution decl signature within noted stored kind name
    exact quiet ⟨steps, tag, callee, args, resolution, decl, signature, within, noted, stored, kind,
      name⟩
  · intro older newer captured shares allowed plain
    rw [← same] at captured
    rw [← tree] at shares
    refine ⟨fun excused => plain (shared captured shares excused), fun ty found known => ?_⟩
    have typed := (declTypes_get? compiled).mpr found
    by_contra other
    refine settled captured allowed plain ⟨shares, ?_, ?_⟩
    · rw [typed]
      exact fun same => known (Option.some.inj same)
    · rw [typed]
      exact fun same => other ((declTypes_get? compiled).mp same)
  · rw [← resolutions]
    rintro steps tag ident expr final resolution within noted ⟨tag', name, resolution', rfl, noted',
      excused⟩
    rw [← resolutions] at noted'
    exact copied within noted noted' excused

/-- An expression with a known type has a value of that type, by a contract that says so. -/
theorem evaluates_typed (compiled : Script.compile source options = .ok script)
    (valid : (script.program.typing options.redeclaration assigned excused).Valid script.program
      options.redeclaration) {host : Host}
    {before steps : Nat} {config : Config} {expr : Expr} {value : Value}
    (permitted : ∀ earlier < before + steps, ∀ middle event, script.code.after earlier (script.start
      host) = some middle → script.code.assignment? middle = some event → assigned
      event.decl)
    (reached : script.code.after before (script.start host) = some config)
    (evaluates : script.code.Evaluates config steps expr value)
    (unnamed : ¬ script.program.Names options.redeclaration excused expr)
    (typed : script.analysis.types[expr.id]? = some ty) (known : ty ≠ .unknown) :
    value.ty = ty := by
  have setting : Setting script.program options.redeclaration script.code
      (script.program.typing options.redeclaration assigned excused) (.whole script.program) :=
    ⟨code_of_compile compiled, valid, .self _⟩
  obtain ⟨act, callers, standing⟩ := setting.stands
    (fun earlier less middle found event => permitted earlier (by omega) middle event found) reached
  have yields := setting.evaluates standing evaluates fun later less middle found event => by
    refine permitted (before + later) (by omega) middle event ?_
    rw [Code.after_add, reached]
    exact found
  exact yields unnamed ty ((types_get? compiled).mp typed) known

/-- **Values have the types of their expressions.** Whenever an expression with a known type is
evaluated in a script that does not call `read`, its value has that type, unless it is the name of a
suspect declaration and something was unsettled by an assignment before. -/
theorem values_typed (compiled : Script.compile source options = .ok script)
    (quiet : ¬ script.CallsRead) {host : Host}
    {before steps : Nat} {config : Config} {expr : Expr} {value : Value} {ty : Ty}
    (reached : script.code.after before (script.start host) = some config)
    (evaluates : script.code.Evaluates config steps expr value)
    (typed : script.analysis.types[expr.id]? = some ty) (known : ty ≠ .unknown) :
    value.ty = ty ∨
      script.program.Names options.redeclaration script.Suspect expr ∧
      ∃ earlier < before + steps, ∃ middle event,
        script.code.after earlier (script.start host) = some middle ∧
          script.code.assignment? middle = some event ∧ script.Unsettles event.decl := by
  by_contra wrong
  rw [not_or, not_and_or] at wrong
  obtain ⟨wrong, unnamed | settled⟩ := wrong
  · have valid : (script.program.typing options.redeclaration (fun _ => True) script.Suspect).Valid
        script.program options.redeclaration :=
      typing_valid compiled quiet
        (fun _ _ captured _ plain disagree => plain (.unsettled captured disagree))
        (fun _ _ => .shared) (fun _ _ _ _ _ _ _ _ => .copied)
    exact wrong (evaluates_typed compiled valid (fun _ _ _ _ _ _ => trivial) reached evaluates
      unnamed typed known)
  · have valid : (script.program.typing options.redeclaration (fun id => ¬ script.Unsettles id)
        fun _ => False).Valid script.program options.redeclaration :=
      typing_valid compiled quiet
        (fun older _ captured settled _ disagree => settled ⟨older, captured, disagree⟩)
        (fun _ _ _ _ => id) (fun _ _ _ _ _ _ _ _ _ _ _ => id)
    refine wrong (evaluates_typed compiled valid (fun earlier early middle event found made => ?_)
      reached evaluates (fun ⟨_, _, _, _, _, excused⟩ => excused) typed known)
    exact fun unsettles => settled ⟨earlier, early, middle, event, found, made, unsettles⟩

theorem not_callsRead (absent : script.program.scopeSteps.all (fun
      | .use name => name.name != Builtin.read.name
      | _ => true) = true) : ¬ script.CallsRead := by
  rintro ⟨steps, tag, callee, args, -, -, -, within, -, -, -, same⟩
  obtain ⟨rest, whole⟩ := within.steps_isPrefix
  have member : ScopeStep.use callee ∈ script.program.scopeSteps := by
    have inside : ScopeStep.use callee ∈
        steps ++ (Node.expr (.call tag callee args)).scopeSteps ++ rest :=
      List.mem_append_left _ (List.mem_append_right _ List.mem_cons_self)
    rwa [whole] at inside
  have other := List.all_eq_true.mp absent _ member
  simp [same] at other

end Script

theorem Code.evaluates_read {config : Config} {name : Ident} {value : Value}
    (read : code.read? config = some (name, value)) :
    code.Evaluates config 1 (.name ⟨name.id, name.position⟩ name.name) value := by
  obtain ⟨reads, gives⟩ := of_read? read
  obtain ⟨control, pending, store⟩ := config
  unfold Config.reads? at reads
  split at reads
  · rename_i tag key _ _ same
    cases same
    cases reads
    obtain ⟨next, found, gives⟩ := Option.map_eq_some_iff.mp gives
    obtain ⟨middle, step, rfl⟩ := step_of_next? found
    rw [Config.tidied_control] at gives
    have pended : middle.pending = pending := by
      cases step
      show (settle _ (code.lookup store tag.id key) pending store).pending = pending
      cases code.lookup store tag.id key <;> rfl
    refine ⟨rfl, ⟨middle.tidied.store, ?_⟩, fun earlier early middle' reached finished => ?_⟩
    · show _ = some (Config.mk (.resume value) pending middle.tidied.store)
      rw [after_one, found, ← gives, ← pended, ← Config.tidied_control, ← Config.tidied_pending]
    · obtain rfl : earlier = 0 := by omega
      cases reached
      cases finished
  · cases reads

/-- A text compiles to a script that reads a name of a known type, after a number of steps. -/
theorem Script.exists_typed_read (source : String) (options : Options) (count : Nat) (ty found : Ty)
    (passes : (Script.compile source options).toOption.any (fun script =>
      script.program.scopeSteps.all (fun
        | .use name => name.name != Builtin.read.name
        | _ => true) &&
      (script.code.after count (script.start .bare)).any fun config =>
        (script.code.read? config).any fun read =>
          script.analysis.types[read.1.id]? = some ty ∧ read.2.ty = found) = true) :
    ∃ script, Script.compile source options = .ok script ∧ ¬ script.CallsRead ∧
      ∃ config expr value, script.code.after count (script.start .bare) = some config ∧
        script.code.Evaluates config 1 expr value ∧ script.analysis.types[expr.id]? = some ty ∧
        value.ty = found := by
  refine Script.exists_compiled _ passes fun script _ passes => ?_
  obtain ⟨absent, passes⟩ := Bool.and_eq_true_iff.mp passes
  obtain ⟨config, reached, passes⟩ := (Option.any_eq_true _ _).mp passes
  obtain ⟨⟨name, value⟩, read, types⟩ := (Option.any_eq_true _ _).mp passes
  obtain ⟨typed, actual⟩ := of_decide_eq_true types
  exact ⟨Script.not_callsRead absent, config, _, value, reached, Code.evaluates_read read, typed,
    actual⟩

/-- A text in which a function reads a number that is assigned again before the call. -/
def reassigning (again : String) : String :=
  "\n".intercalate ["x = 1", "def f():", "  return x + 1", "end", "x = " ++ again, "f()", ""]

/-- A number that is assigned again is read as a number. -/
theorem Script.values_typed_again : ∃ script,
    Script.compile (reassigning "2") {} = .ok script ∧ ¬ script.CallsRead ∧ ∃ config expr value,
      script.code.after 16 (script.start .bare) = some config ∧
      script.code.Evaluates config 1 expr value ∧ script.analysis.types[expr.id]? = some .int ∧
      (value.ty = .int ∨ script.program.Names .refuse script.Suspect expr ∧
        ∃ earlier < 16 + 1, ∃ middle event,
          script.code.after earlier (script.start .bare) = some middle ∧
            script.code.assignment? middle = some event ∧ script.Unsettles event.decl) := by
  obtain ⟨script, compiled, quiet, config, expr, value, reached, evaluates, typed, -⟩ :=
    Script.exists_typed_read (reassigning "2") {} 16 .int .int (by decide +kernel)
  exact ⟨script, compiled, quiet, config, expr, value, reached, evaluates, typed,
    Script.values_typed compiled quiet reached evaluates typed nofun⟩

/-- **A value can be of another type than its expression**: if a text is assigned, a text is read,
by a name that has the type of numbers. -/
theorem Script.unsettled_type : ∃ script,
    Script.compile (reassigning "\"a\"") {} = .ok script ∧ ¬ script.CallsRead ∧ ∃ config expr value,
      script.code.after 16 (script.start .bare) = some config ∧
      script.code.Evaluates config 1 expr value ∧ script.analysis.types[expr.id]? = some .int ∧
      value.ty = .string :=
  Script.exists_typed_read (reassigning "\"a\"") {} 16 .int .string (by decide +kernel)

end ScopedScript

/-
**Where a run is.**

What waits in a configuration says where in the program the machine is: every waiting work is a hole
in a node, for one of its parts:

* `Hole`: the work that waits for a part of a node;
* `Waiting`: a list of waiting work, from a part outward, through the bodies of called functions;
* `Placed`: a configuration at a place in the program, with the layers of that place;
* `Contract`: what is claimed of the values of expressions and names; `Contract.Valid` is what the
  claim has to respect, construct by construct.
-/

import ScopedScript.Proofs.Activation
import ScopedScript.Proofs.Functions
import ScopedScript.Proofs.Operation

namespace ScopedScript

/-- The code of an accepted program. -/
structure Code.Of (code : Code) (program : Program) (policy : Redeclaration) : Prop where
  accepted : program.Accepted policy
  tree : code.analysis.tree = (program.resolve policy).tree
  resolutions : code.analysis.resolutions = (program.resolve policy).resolutions
  functions : code.functions = program.functionTable

/-! ### Holes -/

/-- Work that waits for a part of a node, which stands behind some steps of the node. -/
inductive Hole : Pending → Node → List ScopeStep → Node → Prop
  | left {tag op line left right} : op.kind ≠ .logical →
    Hole (.left op line right) (.expr (.binary tag op left right)) [] (.expr left)
  | right {tag op line value left right} : op.kind ≠ .logical →
    Hole (.right op line value) (.expr (.binary tag op left right)) left.scopeSteps (.expr right)
  | first {tag op line left right} : op.kind = .logical →
    Hole (.first op line right) (.expr (.binary tag op left right)) [] (.expr left)
  | second {tag op line left right} : op.kind = .logical →
    Hole (.second op line) (.expr (.binary tag op left right)) left.scopeSteps (.expr right)
  | unary {tag op line operand} :
    Hole (.unary op line) (.expr (.unary tag op operand)) [] (.expr operand)
  | base {tag line base index} :
    Hole (.base line index) (.expr (.index tag base index)) [] (.expr base)
  | index {tag line value base index} :
    Hole (.index line value) (.expr (.index tag base index)) base.scopeSteps (.expr index)
  | items {tag before done item rest} :
    Hole (.items before rest) (.expr (.array tag (done ++ item :: rest))) (exprsSteps done)
      (.expr item)
  | size {tag line size} : Hole (.size line) (.expr (.sized tag size)) [] (.expr size)
  | key {tag line before done key value rest} :
    Hole (.key line before value rest) (.expr (.map tag (done ++ (key, value) :: rest)))
      (entriesSteps done) (.expr key)
  | entry {tag found before done key value rest} :
    Hole (.entry found before rest) (.expr (.map tag (done ++ (key, value) :: rest)))
      (entriesSteps done ++ key.scopeSteps) (.expr value)
  | source {tag element binder source filter} :
    Hole (.source tag ⟨element, binder, filter⟩)
      (.expr (.comprehension tag element binder source filter)) [] (.expr source)
  | filter {tag line element binder source condition rest before} :
    Hole (.filter line ⟨element, binder, some condition⟩ rest before)
      (.expr (.comprehension tag element binder source (some condition)))
      (source.scopeSteps ++ comprehensionOpening tag binder) (.expr condition)
  | element {tag element binder source filter rest before} :
    Hole (.element ⟨element, binder, filter⟩ rest before)
      (.expr (.comprehension tag element binder source filter))
      (source.scopeSteps ++ comprehensionOpening tag binder ++ optionSteps filter) (.expr element)
  | args {tag callee line before done item rest} :
    Hole (.args callee line before rest) (.expr (.call tag callee (done ++ item :: rest)))
      ([.use callee] ++ exprsSteps done) (.expr item)
  | assign {tag name line value final} :
    Hole (.assign name line) (.stmt (.assign tag (.name name) value final)) [] (.expr value)
  | storeValue {tag slot line value base index final} :
    Hole (.storeValue line base index) (.stmt (.assign tag (.element slot base index) value final))
      [] (.expr value)
  | storeBase {tag slot line held value base index final} :
    Hole (.storeBase line held index) (.stmt (.assign tag (.element slot base index) value final))
      value.scopeSteps (.expr base)
  | storeIndex {tag slot line held container value base index final} :
    Hole (.storeIndex line held container)
      (.stmt (.assign tag (.element slot base index) value final))
      (value.scopeSteps ++ base.scopeSteps) (.expr index)
  | condition {position line condition body branches} :
    Hole (.branch line body branches) (.stmt (.cond position condition body branches)) []
      (.expr condition)
  | clause {position line condition body done place test block rest} :
    Hole (.branch line block rest)
      (.stmt (.cond position condition body (done ++ .mk place (some test) block :: rest)))
      (condition.scopeSteps ++ body.scopeSteps ++ branchesSteps done) (.expr test)
  | body {position condition body branches} :
    Hole .discard (.stmt (.cond position condition body branches)) condition.scopeSteps
      (.block body)
  | branch {position condition body done place test block rest} :
    Hole .discard (.stmt (.cond position condition body (done ++ .mk place test block :: rest)))
      (condition.scopeSteps ++ body.scopeSteps ++ branchesSteps done ++ optionSteps test)
      (.block block)
  | loopTest {position condition body} :
    Hole (.loopTest condition body) (.stmt (.loop position condition body)) [] (.expr condition)
  | loopBody {position condition body} :
    Hole (.loopBody condition body) (.stmt (.loop position condition body)) condition.scopeSteps
      (.block body)
  | eachSource {tag binder source body} :
    Hole (.eachSource tag binder body) (.stmt (.each tag binder source body)) [] (.expr source)
  | eachBody {tag binder source body rest} :
    Hole (.eachBody binder body rest) (.stmt (.each tag binder source body))
      (source.scopeSteps ++ loopOpening tag binder) (.block body)
  | ret {position value} : Hole .ret (.stmt (.ret position (some value))) [] (.expr value)
  | block {tag last done stmt rest} :
    Hole (.block last rest) (.block (.mk tag (done ++ stmt :: rest)))
      ([.enter .block tag.id] ++ stmtsSteps done) (.stmt stmt)

/-- What work waits for is a part of the node. -/
theorem Hole.part {work : Pending} {node part : Node} {offset : List ScopeStep}
    (hole : Hole work node offset part) : (offset, part) ∈ node.parts := by
  have behind (done : List Stretch) {rest : List Stretch} (split : node.stretches = done ++ .part part :: rest)
      (same : offset = done.flatMap Stretch.steps) : (offset, part) ∈ node.parts := by
    rw [Node.parts, split, same]
    exact Stretch.mem_parts done part rest
  cases hole with
  | items => exact behind (Stretch.exprs _) List.map_append (Stretch.steps_exprs _).symm
  | @args _ callee _ _ done =>
    exact behind (.own [.use callee] :: Stretch.exprs done) (congrArg (_ :: ·) List.map_append)
      (by simp [Stretch.steps])
  | key => exact behind (Stretch.entries _) List.flatMap_append (Stretch.steps_entries _).symm
  | @entry _ _ _ done key =>
    exact behind (Stretch.entries done ++ [.part (.expr key)])
      (List.flatMap_append.trans (List.append_assoc _ [_] _).symm) (by simp [Stretch.steps, Node.scopeSteps])
  | @element tag _ binder source filter =>
    exact behind ([.part (.expr source), .own (comprehensionOpening tag binder)] ++ Stretch.exprs filter.toList) rfl
      (by simp [Stretch.steps, Node.scopeSteps])
  | @clause _ _ condition body done =>
    exact behind (.part (.expr condition) :: .part (.block body) :: Stretch.branches done)
      (congrArg (_ :: _ :: ·) List.flatMap_append) (by simp [Stretch.steps, Node.scopeSteps])
  | @branch _ condition body done _ test _ rest =>
    exact @behind (.part (.expr condition) :: .part (.block body) ::
      (Stretch.branches done ++ Stretch.exprs test.toList)) (Stretch.branches rest)
      (by simp [Node.stretches, Stretch.branches]) (by simp [Stretch.steps, Node.scopeSteps])
  | @block tag _ done _ rest =>
    exact @behind (.own [.enter .block tag.id] :: Stretch.stmts done) (Stretch.stmts rest ++ [.own [.leave]])
      (by simp [Node.stretches, Stretch.stmts]) (by simp [Stretch.steps])
  | _ => simp [Node.parts, Node.stretches, Stretch.exprs, Stretch.parts, Node.scopeSteps]

/-! ### Waiting work -/

/-- Where waiting work ends: the work below it, and the node it is for. -/
structure Bottom where
  pending : List Pending
  steps : List ScopeStep
  node : Node
  callers : List Activation

/-- The bottom of a whole run. -/
def Bottom.whole (program : Program) : Bottom := ⟨[], [], .block program.body, []⟩

/-- Work that waits for the node at a place, down to a bottom. -/
inductive Waiting (program : Program) (policy : Redeclaration) (code : Code) (bottom : Bottom) :
    List Pending → List ScopeStep → Node → List Activation → Prop
  | bottom : Waiting program policy code bottom bottom.pending bottom.steps bottom.node
      bottom.callers
  | work {work pending steps node offset part callers} : Hole work node offset part →
    Waiting program policy code bottom pending steps node callers →
      Waiting program policy code bottom (work :: pending) (steps ++ offset) part callers
  /-- A statement that is an expression waits for nothing of its own. -/
  | value {pending steps expr callers} :
    Waiting program policy code bottom pending steps (.stmt (.expr expr)) callers →
      Waiting program policy code bottom pending steps (.expr expr) callers
  /-- The body of a called function. -/
  | call {pending steps tag callee args callers resolution node arity origin place}
      {function : Function} {caller : Activation} :
    Waiting program policy code bottom pending steps (.expr (.call tag callee args)) callers →
    caller.layers = (program.before policy steps).layers →
    code.resolved? callee.id = some (resolution, .function node arity) →
    (Node.block program.body).Within origin
      (.stmt (.define place function.name function.params function.body)) →
      Waiting program policy code bottom (.call :: pending)
        (origin ++ functionOpening place function.name function.params) (.block function.body)
        (caller :: callers)

namespace Waiting

variable {program : Program} {policy : Redeclaration} {code : Code} {bottom : Bottom}
  {pending : List Pending} {steps : List ScopeStep} {node : Node} {callers : List Activation}

theorem within (waiting : Waiting program policy code bottom pending steps node callers)
    (inside : (Node.block program.body).Within bottom.steps bottom.node) :
    (Node.block program.body).Within steps node := by
  induction waiting with
  | bottom => exact inside
  | work hole _ ih => exact ih.tail hole.part
  | @value _ _ expr _ _ ih =>
    have member : ([], Node.expr expr) ∈ (Node.stmt (.expr expr)).parts := List.mem_cons_self
    have part := ih.tail member
    rwa [List.append_nil] at part
  | call _ _ _ defined _ => exact defined.tail List.mem_cons_self

/-- Work on top of a bottom is longer than what is below. -/
theorem length_le (waiting : Waiting program policy code bottom pending steps node callers) :
    bottom.pending.length ≤ pending.length := by
  induction waiting with
  | bottom => exact Nat.le_refl _
  | value _ ih => exact ih
  | work _ _ ih | call _ _ _ _ ih => exact Nat.le_trans ih (Nat.le_succ _)

end Waiting

/-! ### Contracts -/

/-- What is claimed of values: which declarations are read by functions further in, which are
assigned, what values declarations may have, and what values expressions may give. -/
structure Contract where
  captured : DeclId → Prop
  assigned : DeclId → Prop
  allows : DeclId → Value → Prop
  yields : Expr → Value → Prop

/-- A declaration whose value is kept in frames. -/
def ScopeTree.Holds (tree : ScopeTree) (id : DeclId) : Prop :=
  ∃ decl, tree.decls[id]? = some decl ∧ decl.isFunction = false

/-- A declaration that may not be assigned again. -/
def ScopeTree.Final (tree : ScopeTree) (id : DeclId) : Prop :=
  ∃ decl, tree.decls[id]? = some decl ∧ decl.isFinal = true

/-- Whether two declarations keep their values in one place: variables of one name in one scope. -/
def ScopeTree.shares (tree : ScopeTree) (older newer : DeclId) : Bool :=
  match tree.decls[older]?, tree.decls[newer]? with
  | some decl, some decl' =>
    older < newer && !decl.isFunction && !decl'.isFunction && decl.name == decl'.name &&
      decl.scope == decl'.scope
  | _, _ => false

/-- What a contract promises of the declarations of a tree. -/
def Contract.promise (contract : Contract) (tree : ScopeTree) : Promise :=
  ⟨tree.Holds, contract.captured, contract.allows⟩

/-- The type that the form of an expression alone gives to its value. -/
def Expr.form? : Expr → Option Ty
  | .int _ _ => some .int
  | .bool _ _ => some .bool
  | .text _ _ => some .string
  | .none _ => some .none
  | .binary _ op _ _ => some (Typing.resultOf op)
  | .unary _ op _ => some op.resultOf
  | .array _ _ | .sized _ _ | .comprehension _ _ _ _ _ => some .array
  | .map _ _ => some .map
  | .name _ _ | .index _ _ _ | .call _ _ _ => Option.none

/-- What a contract has to respect, construct by construct. -/
structure Contract.Valid (contract : Contract) (program : Program) (policy : Redeclaration) :
    Prop where
  form : ∀ ⦃steps expr value⦄, (Node.block program.body).Within steps (.expr expr) →
    expr.form? = some value.ty → contract.yields expr value
  element : ∀ ⦃steps tag base index value⦄,
    (Node.block program.body).Within steps (.expr (.index tag base index)) →
      contract.yields (.index tag base index) value
  name : ∀ ⦃steps tag name resolution decl value⦄,
    (Node.block program.body).Within steps (.expr (.name tag name)) →
    (program.resolve policy).resolutions[tag.id]? = some resolution →
    (program.resolve policy).tree.decls[resolution.decl]? = some decl →
    (decl.isFunction = false → contract.allows resolution.decl value) →
      contract.yields (.name tag name) value
  call : ∀ ⦃steps tag callee args resolution decl value⦄,
    (Node.block program.body).Within steps (.expr (.call tag callee args)) →
    (program.resolve policy).resolutions[callee.id]? = some resolution →
    (program.resolve policy).tree.decls[resolution.decl]? = some decl →
    (∀ signature builtin, decl.kind = .builtin (.function signature) →
      Builtin.ofName? callee.name = some builtin → builtin ≠ .read →
        value.ty = builtin.signature.returns) →
      contract.yields (.call tag callee args) value
  assign : ∀ ⦃steps tag ident expr final resolution value⦄,
    (Node.block program.body).Within steps (.stmt (.assign tag (.name ident) expr final)) →
    (program.resolve policy).resolutions[ident.id]? = some resolution →
    contract.yields expr value → contract.allows resolution.decl value
  loose : ∀ ⦃id decl value⦄, (program.resolve policy).tree.decls[id]? = some decl →
    decl.kind.seed? = some .unknown → contract.allows id value
  constant : ∀ ⦃id decl ty value⦄, (program.resolve policy).tree.decls[id]? = some decl →
    decl.kind = .builtin (.constant ty) → value.ty = ty → contract.allows id value
  shared : ∀ ⦃older newer : DeclId⦄ ⦃decl decl' : Decl⦄ ⦃value : Value⦄, contract.captured older →
    (program.resolve policy).tree.decls[older]? = some decl →
    (program.resolve policy).tree.decls[newer]? = some decl' →
    decl.isFunction = false → decl'.isFunction = false →
    decl'.name = decl.name → decl'.scope = decl.scope → older < newer →
    contract.assigned newer → contract.allows newer value → contract.allows older value
  capture : ∀ ⦃steps name inner layer outer id⦄,
    steps ++ [.use name] <+: program.scopeSteps →
    (program.before policy steps).layers = inner ++ layer :: outer → layer.own = false →
    layer.names.lookup name.name = some id →
    (∀ nearer ∈ inner, nearer.names.lookup name.name = none) → contract.captured id

/-! ### Places of configurations -/

/-- A configuration at a place of the program: what it does now is the node at the place, and its
layers are those of the place. A value is handed over behind the node. -/
inductive Placed (program : Program) (policy : Redeclaration) (code : Code) (contract : Contract)
    (bottom : Bottom) : Control → List Pending → Activation → List Activation → Prop
  | eval {expr pending steps act callers} :
    Waiting program policy code bottom pending steps (.expr expr) callers →
    act.layers = (program.before policy steps).layers →
      Placed program policy code contract bottom (.eval expr) pending act callers
  | exec {stmt pending steps act callers} :
    Waiting program policy code bottom pending steps (.stmt stmt) callers →
    act.layers = (program.before policy steps).layers →
      Placed program policy code contract bottom (.exec stmt) pending act callers
  | enter {block pending steps act callers} :
    Waiting program policy code bottom pending steps (.block block) callers →
    act.layers = (program.before policy steps).layers →
      Placed program policy code contract bottom (.enter block) pending act callers
  | resume {value pending steps node act callers} :
    Waiting program policy code bottom pending steps node callers →
    act.layers = (program.before policy (steps ++ node.scopeSteps)).layers →
    (∀ expr, node = .expr expr → contract.yields expr value) →
      Placed program policy code contract bottom (.resume value) pending act callers
  | unwind {fault pending steps node act callers} :
    Waiting program policy code bottom pending steps node callers →
    act.layers = (program.before policy steps).layers → fault.cause.isUnbound = false →
      Placed program policy code contract bottom (.unwind fault) pending act callers

end ScopedScript

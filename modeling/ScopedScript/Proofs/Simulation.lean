/-
**A run follows the program.**

From a configuration at a place of the program, every step leads to a configuration at a place of the
program, and what it does to the frames is one of the transitions of activations:

* `Leads`: a configuration at a place, reached by a transition;
* `Setting.read`: a name that is used stands for something;
* `leads_eval`, `leads_exec`, `leads_enter`, `leads_resume`, `leads_abort`: the steps by control;
* `Code.step_leads`: every step.
-/

import ScopedScript.Proofs.Location
import ScopedScript.Proofs.Places

set_option linter.unusedSectionVars false

namespace ScopedScript

namespace Hole

open Resolver

variable {policy : Redeclaration} {work : Pending} {node part : Node} {offset : List ScopeStep}
  {program : Program} {steps : List ScopeStep}
variable (hole : Hole work node offset part) (plain : work.ownsFrame = false)

include hole plain

/-- Work without a frame of its own waits in the layers of its node. -/
theorem quiet : Quiet policy offset ∧ Quiet policy part.scopeSteps := by
  cases hole with
  | left | first | unary | base | size | source | assign | storeValue | condition | loopTest
  | eachSource | ret => exact ⟨.nil, Expr.quiet _⟩
  | right | second | index | storeBase => exact ⟨Expr.quiet _, Expr.quiet _⟩
  | items => exact ⟨exprs_quiet _, Expr.quiet _⟩
  | key => exact ⟨entries_quiet _, Expr.quiet _⟩
  | entry => exact ⟨(entries_quiet _).append (Expr.quiet _), Expr.quiet _⟩
  | args => exact ⟨(quiet_use _).append (exprs_quiet _), Expr.quiet _⟩
  | storeIndex => exact ⟨(Expr.quiet _).append (Expr.quiet _), Expr.quiet _⟩
  | clause =>
    exact ⟨((Expr.quiet _).append (Block.quiet _)).append (branches_quiet _), Expr.quiet _⟩
  | body | loopBody => exact ⟨Expr.quiet _, Block.quiet _⟩
  | branch =>
    exact ⟨(((Expr.quiet _).append (Block.quiet _)).append (branches_quiet _)).append
      (option_quiet _), Block.quiet _⟩
  | filter | element | eachBody | block => cases plain

theorem layers_same :
    (program.before policy (steps ++ offset)).layers = (program.before policy steps).layers :=
  Program.before_quiet (hole.quiet plain).1

theorem layers_behind :
    (program.before policy (steps ++ offset ++ part.scopeSteps)).layers =
      (program.before policy steps).layers :=
  (Program.before_quiet (hole.quiet plain).2).trans (hole.layers_same plain)

end Hole

/-- A program, its code, a contract that respects it, and the node where a run ends. -/
structure Setting (program : Program) (policy : Redeclaration) (code : Code) (contract : Contract)
    (bottom : Bottom) : Prop where
  of : code.Of program policy
  valid : contract.Valid program policy
  inside : (Node.block program.body).Within bottom.steps bottom.node

/-- What a contract promises of the declarations of a program. -/
abbrev Program.promise (program : Program) (policy : Redeclaration) (contract : Contract) :
    Promise := contract.promise (program.resolve policy).tree

/-- A configuration at a place, reached by a transition of activations. -/
def Leads (program : Program) (policy : Redeclaration) (code : Code) (contract : Contract)
    (bottom : Bottom) (act : Activation) (callers : List Activation) (event : Option Assignment)
    (config : Config) : Prop :=
  ∃ next callers', next.frames = config.store.frames ∧
    Placed program policy code contract bottom config.control config.pending next callers' ∧
    Transition (program.promise policy contract) (program.resolve policy).tree.Final
      (act :: callers) event (next :: callers')

section Steps

variable {program : Program} {policy : Redeclaration} {code : Code} {contract : Contract}
  {bottom : Bottom} {setting : Setting program policy code contract bottom} {act : Activation}
  {callers : List Activation} {store : Store} {pending : List Pending}
  {steps place : List ScopeStep} {node : Node}
variable {done rest : List Expr} {before : Array Value}
variable {tag : Tag} {name : Ident}

abbrev Setting.Leads (_ : Setting program policy code contract bottom) :=
  ScopedScript.Leads program policy code contract bottom

/-- A node is next or waits for a part of it, in an activation with the layers of a place. -/
structure Setting.Stands (_ : Setting program policy code contract bottom) (act : Activation)
    (callers : List Activation) (frames : Frames) (pending : List Pending) (steps : List ScopeStep)
    (node : Node) (place : List ScopeStep) : Prop where
  sound : Sound (program.promise policy contract) (act :: callers)
  frames : frames = act.frames
  waiting : Waiting program policy code bottom pending steps node callers
  here : act.layers = (program.before policy place).layers

namespace Setting.Stands

variable (stands : setting.Stands act callers store.frames pending steps node place)

include stands

theorem within : (Node.block program.body).Within steps node := stands.waiting.within setting.inside

theorem back {place' : List ScopeStep}
    (same : (program.before policy place).layers = (program.before policy place').layers) :
    setting.Stands act callers store.frames pending steps node place' :=
  ⟨stands.sound, stands.frames, stands.waiting, stands.here.trans same⟩

theorem popped {scope : ScopeId} :
    setting.Stands act callers (store.push store.current scope).pop.frames pending steps node place :=
  ⟨stands.sound, Frames.pop_child.trans stands.frames, stands.waiting, stands.here⟩

end Setting.Stands

/-! ### Ways to lead on -/

namespace Leads

variable {event : Option Assignment} {control : Control} {expr : Expr} {line : Nat}
variable {action : Action Value} {given : List Value} {result : Except Cause Value}
variable {good : Value → Prop}

theorem stay (frames : store.frames = act.frames)
    (placed : Placed program policy code contract bottom control pending act callers) :
    setting.Leads act callers none ⟨control, pending, store⟩ :=
  ⟨act, callers, frames.symm, placed, .move (.still act)⟩

theorem move {next : Activation}
    (moves : act.Move (program.promise policy contract) (program.resolve policy).tree.Final event
      next)
    (frames : store.frames = next.frames)
    (placed : Placed program policy code contract bottom control pending next callers) :
    setting.Leads act callers event ⟨control, pending, store⟩ :=
  ⟨next, callers, frames.symm, placed, .move moves⟩

theorem perform
    (ends : ∀ world, Action.Ends (fun value _ => good value) (fun cause _ => cause.isUnbound =
      false) (action world))
    (ok : ∀ value store', store'.frames = store.frames → good value → setting.Leads act callers
      event (give value pending store'))
    (error : ∀ cause store', store'.frames = store.frames → cause.isUnbound = false → setting.Leads
      act callers event (fail line cause pending store')) :
    setting.Leads act callers event (ScopedScript.perform line action given pending store) := by
  have result := ends store.world
  unfold ScopedScript.perform Store.act
  cases found : action store.world with
  | ok value world =>
    rw [found] at result
    simp only [found]
    exact ok value _ rfl result
  | error cause world =>
    rw [found] at result
    simp only [found]
    exact error cause _ rfl result

theorem settle (works : Works good result)
    (ok : ∀ value, good value → setting.Leads act callers event (give value pending store))
    (error : ∀ cause, cause.isUnbound = false → setting.Leads act callers event (fail line cause
      pending store)) :
    setting.Leads act callers event (ScopedScript.settle line result pending store) := by
  cases result with
  | ok value => exact ok value works
  | error cause => exact error cause (Cause.isUnbound_of_work works)

theorem value {result : Value}
    (stands : setting.Stands act callers store.frames pending steps (.expr expr) steps)
    (yields : contract.yields expr result) :
    setting.Leads act callers none (give result pending store) := by
  refine stay stands.frames (.resume stands.waiting
    (stands.here.trans (Program.before_quiet expr.quiet).symm) ?_)
  intro other same
  obtain rfl := Node.expr.inj same
  exact yields

section Holes

variable {work : Pending} {offset : List ScopeStep} {block : Block}
  (stands : setting.Stands act callers store.frames pending steps node steps)

include stands

theorem part (hole : Hole work node offset (.expr expr)) (plain : work.ownsFrame = false) :
    setting.Leads act callers none (evaluate expr work pending store) :=
  stay stands.frames
    (.eval (.work hole stands.waiting) (stands.here.trans (hole.layers_same plain).symm))

theorem enters (hole : Hole work node offset (.block block)) (plain : work.ownsFrame = false) :
    setting.Leads act callers none ⟨.enter block, work :: pending, store⟩ :=
  stay stands.frames
    (.enter (.work hole stands.waiting) (stands.here.trans (hole.layers_same plain).symm))

end Holes

theorem finished {result : Value}
    (stands : setting.Stands act callers store.frames pending steps node steps)
    (quiet : Resolver.Quiet policy node.scopeSteps) (other : ∀ expr, node ≠ .expr expr := by simp) :
    setting.Leads act callers none (give result pending store) :=
  stay stands.frames (.resume stands.waiting (stands.here.trans (Program.before_quiet quiet).symm)
    fun expr same => absurd same (other expr))

theorem failure {cause : Cause}
    (stands : setting.Stands act callers store.frames pending steps node steps)
    (bound : cause.isUnbound = false) :
    setting.Leads act callers none (fail line cause pending store) :=
  stay stands.frames (.unwind stands.waiting stands.here bound)

theorem made (stands : setting.Stands act callers store.frames pending steps (.expr expr) steps)
    (ends : ∀ world, Action.Ends (fun value _ => good value) (fun cause _ => cause.isUnbound =
      false) (action world)) (yields : ∀ value, good value → contract.yields expr value) :
    setting.Leads act callers none (ScopedScript.perform line action given pending store) :=
  .perform ends (fun value _ same fits => .value (same ▸ stands) (yields value fits))
    fun _ _ same bound => .failure (same ▸ stands) bound

theorem computed (stands : setting.Stands act callers store.frames pending steps (.expr expr) steps)
    (works : Works good result) (yields : ∀ value, good value → contract.yields expr value) :
    setting.Leads act callers none (ScopedScript.settle line result pending store) :=
  .settle works (fun value fits => .value stands (yields value fits))
    fun _ bound => .failure stands bound

end Leads

/-! ### Names -/

section Names

variable (setting)

include setting

theorem Setting.resolved {id : NodeId} {resolution : Resolution} {decl : Decl}
    (noted : (program.resolve policy).resolutions[id]? = some resolution)
    (stored : (program.resolve policy).tree.decls[resolution.decl]? = some decl) :
    code.resolved? id = some (resolution, decl.kind) := by
  rw [Code.resolved?, setting.of.resolutions, setting.of.tree, noted, Option.bind_eq_bind,
    Option.bind_some, stored]
  rfl

/-- What a name refers to at a place: a layer of the place and the latest declaration there. -/
theorem Setting.use (within : steps ++ [.use name] <+: program.scopeSteps) :
    ∃ inner layer outer id decl, (program.before policy steps).layers = inner ++ layer :: outer ∧
      layer.names.lookup name.name = some id ∧
      (∀ nearer ∈ inner, nearer.names.lookup name.name = none) ∧
      (program.resolve policy).resolutions[name.id]? = some ⟨layer.scope, id⟩ ∧
      (program.resolve policy).tree.decls[id]? = some decl ∧
      code.resolved? name.id = some (⟨layer.scope, id⟩, decl.kind) := by
  obtain ⟨inner, layer, outer, id, around, latest, nearer, noted⟩ :=
    setting.of.accepted.use within
  have member : layer ∈ (program.before policy steps).layers := by
    rw [around]
    exact List.mem_append_right _ List.mem_cons_self
  obtain ⟨decl, stored, -, -⟩ := Program.listed ((List.prefix_append _ _).trans within) member
    (Layer.mem_of_lookup latest)
  exact ⟨inner, layer, outer, id, decl, around, latest, nearer, noted, stored,
    setting.resolved noted stored⟩

variable (sound : Sound (program.promise policy contract) (act :: callers))
  (frames : store.frames = act.frames) (here : act.layers = (program.before policy steps).layers)

include sound frames here

/-- A layer of the place has its frame on the chain. -/
theorem Setting.frame {layer : Layer} (member : layer ∈ (program.before policy steps).layers) :
    ∃ number, store.frames.frameFor store.current layer.scope = some number ∧
      Activation.Lies (program.promise policy contract) act.frames act.base number layer := by
  have apart := program.layers_apart policy steps
  rw [← here] at apart member
  obtain ⟨number, place, lies⟩ := sound.fits.frame apart member
  refine ⟨number, ?_, lies⟩
  rw [Store.current, frames]
  exact place

/-- **A name that is used stands for something**: it is resolved, the frame of its scope is on the
chain, and unless it names a function, it has a value there that the contract allows. -/
theorem Setting.read (within : steps ++ [.use name] <+: program.scopeSteps) :
    ∃ resolution decl number,
      (program.resolve policy).resolutions[name.id]? = some resolution ∧
      (program.resolve policy).tree.decls[resolution.decl]? = some decl ∧
      store.frames.frameFor store.current resolution.scope = some number ∧
      (decl.isFunction = false → ∃ value, store.frames.get? number name.name = some value ∧
        contract.allows resolution.decl value) := by
  obtain ⟨inner, layer, outer, id, decl, around, latest, nearer, noted, stored, -⟩ :=
    setting.use within
  have member : layer ∈ (program.before policy steps).layers := by
    rw [around]
    exact List.mem_append_right _ List.mem_cons_self
  obtain ⟨number, place, own, frame, found, kept⟩ := setting.frame sound frames here member
  refine ⟨⟨layer.scope, id⟩, decl, number, noted, stored, place, fun plain => ?_⟩
  obtain ⟨value, bound, allowed⟩ := kept.bound (Layer.mem_of_lookup latest) ⟨decl, stored, plain⟩
  refine ⟨value, ?_, allowed ?_⟩
  · rw [frames, Frames.get?, found]
    exact bound
  · by_cases mine : layer.own = true
    · exact .inl ⟨mine, latest⟩
    · exact .inr (setting.valid.capture within around (Bool.eq_false_iff.mpr mine) latest nearer)

theorem Setting.lookup_ok {name : String}
    (within : (Node.block program.body).Within steps (.expr (.name tag name))) :
    ∃ value, code.lookup store tag.id name = .ok value ∧
      contract.yields (.name tag name) value := by
  have reads : steps ++ [.use ⟨tag.id, name, tag.position⟩] <+: program.scopeSteps :=
    within.steps_isPrefix
  obtain ⟨resolution, decl, number, noted, stored, place, bound⟩ :=
    setting.read sound frames here reads
  have resolved := setting.resolved noted stored
  change (program.resolve policy).resolutions[tag.id]? = _ at noted
  change code.resolved? tag.id = _ at resolved
  have yields : ∀ value, (decl.isFunction = false → contract.allows resolution.decl value) →
      contract.yields (.name tag name) value :=
    fun value allowed => setting.valid.name within noted stored allowed
  -- names of functions stand for themselves, all others for what the frame holds
  by_cases plain : decl.isFunction = false
  · obtain ⟨value, found, allowed⟩ := bound plain
    refine ⟨value, ?_, yields value fun _ => allowed⟩
    unfold Code.lookup
    rw [resolved]
    unfold Decl.isFunction at plain
    split
    · simp_all
    · simp_all
    · rename_i same
      cases same
      rw [place, Option.bind_some, found]
    · contradiction
  · unfold Code.lookup
    rw [resolved]
    unfold Decl.isFunction at plain
    split at plain
    · rename_i kind
      rw [kind]
      exact ⟨_, rfl, yields _ fun no => absurd no (by simp [Decl.isFunction, kind])⟩
    · rename_i kind
      rw [kind]
      exact ⟨_, rfl, yields _ fun no => absurd no (by simp [Decl.isFunction, kind])⟩
    · simp at plain

/-- **A function that is called has the frame of its declaration on the chain.** -/
theorem Setting.declaring {function : Function} {place : Tag} {origin : List ScopeStep}
    {inner outer : List Layer} {layer : Layer}
    (callee : program.Callee policy steps function place origin inner layer outer) :
    ∃ number, store.frames.frameFor store.current
        ((code.analysis.tree.parent? (code.scopeOf store function.id)).getD ScopeTree.root) =
          some number ∧
      act.frames.frameFor act.frames.newest layer.scope = some number := by
  have opening := callee.opening
  obtain ⟨scope, names, -, opened, parent, -⟩ := setting.of.accepted.function_layers opening
  have member : layer ∈ (program.before policy steps).layers := by
    rw [callee.around]
    exact List.mem_append_right _ List.mem_cons_self
  obtain ⟨number, found, -⟩ := setting.frame sound frames here member
  refine ⟨number, ?_, by rw [← frames]; exact found⟩
  rw [Code.scopeOf, setting.of.tree, ← callee.number, opened, Option.getD_some, parent,
    Option.getD_some, ← callee.scope, found]

end Names

/-! ### Expressions in rows -/

theorem leads_items
    (stands : setting.Stands act callers store.frames pending steps (.expr (.array tag (done ++
      rest))) steps) : setting.Leads act callers none (evalItems before rest pending store) := by
  cases rest with
  | nil =>
    refine .made stands (allocate_works before).gives fun value ty => ?_
    exact setting.valid.form stands.within (by rw [ty]; rfl)
  | cons item rest => exact .part stands .items rfl

theorem leads_entries {done rest : List (Expr × Expr)} {before : Std.TreeMap Key Value}
    (stands : setting.Stands act callers store.frames pending steps (.expr (.map tag (done ++
      rest))) steps) : setting.Leads act callers none (evalEntries before rest pending store) := by
  cases rest with
  | nil =>
    refine .made stands (allocateMap_works before).gives fun value ty => ?_
    exact setting.valid.form stands.within (by rw [ty]; rfl)
  | cons entry rest => exact .part stands .key rfl

/-! ### Calls -/

/-- Binding parameters fills the newest frame, for as many as there are arguments. -/
theorem bindParams_frames (params : List Ident) (args : List Value) {table : Array Frame}
    {frame : Frame} (shape : store.frames.table = table.push frame) :
    ∃ bindings, (bindParams params args store).frames.table =
        table.push { frame with bindings := bindings } ∧
      ∀ name, (frame.bindings.get? name).isSome ∨
        name ∈ (params.zip args).map (fun pair => pair.1.name) →
          (bindings.get? name).isSome := by
  unfold bindParams
  generalize params.zip args = pairs
  induction pairs generalizing store frame with
  | nil => exact ⟨frame.bindings, shape, fun name known => by simpa using known⟩
  | cons pair rest ih =>
    obtain ⟨param, value⟩ := pair
    have filled : (store.bindHere param.name value).frames.table =
        table.push { frame with bindings := frame.bindings.set param.name value } :=
      Frames.set_newest shape
    obtain ⟨bindings, shape', known⟩ := ih filled
    refine ⟨bindings, shape', fun name named => known name ?_⟩
    by_cases same : name = param.name
    · subst same
      exact .inl (by rw [Bindings.get?_set_self]; rfl)
    · rw [Bindings.get?_set_other _ _ same]
      simpa [same] using named

section Calls

variable {tag : Tag} {callee : Ident} {line : Nat}
variable {exprs : List Expr} {args : List Value}

/-- A call of a function of the program: its body is next, in a new frame. -/
theorem leads_invoke {resolution : Resolution} {decl : Decl} {node : NodeId} {arity : Nat}
    (stands : setting.Stands act callers store.frames pending steps (.expr (.call tag callee exprs))
      steps) (noted : (program.resolve policy).resolutions[callee.id]? = some resolution)
    (stored : (program.resolve policy).tree.decls[resolution.decl]? = some decl)
    (kind : decl.kind = .function node arity) :
    setting.Leads act callers none (code.invoke node args line pending store) := by
  unfold Code.invoke
  rw [setting.of.functions]
  split
  · exact .failure stands rfl
  · rename_i function found
    split
    · exact .failure stands rfl
    · rename_i count
      split
      · exact .failure stands rfl
      · obtain ⟨place, origin, inner, layer, outer, -, body⟩ :=
          setting.of.accepted.callee stands.within.use_isPrefix noted stored kind found
        obtain ⟨sound, frames, waiting, here⟩ := stands
        obtain ⟨number, declaring, parent⟩ := setting.declaring sound frames here body
        obtain ⟨scope, names, layers, opened, -, known⟩ :=
          setting.of.accepted.function_layers body.opening
        have same : code.scopeOf store function.id = scope := by
          rw [Code.scopeOf, setting.of.tree, ← body.number, opened, Option.getD_some]
        simp only [declaring]
        rw [same]
        have shape : (store.push number scope).frames.table =
            act.frames.table.push ⟨scope, some number, .empty⟩ := by
          show store.frames.table.push _ = _
          rw [frames]
        obtain ⟨bindings, table, bound⟩ := bindParams_frames function.params args shape
        refine ⟨⟨act.frames.table.size, _, ⟨true, scope, names⟩ ::
          (program.before policy (origin ++ [.define function.name place.id
            function.params.length])).layers.map Layer.disowned⟩, act :: callers, rfl, ?_, .call ?_⟩
        · exact .enter (.call waiting here (kind ▸ setting.resolved noted stored) body.within)
            layers.symm
        · refine .mk (here.trans body.around) parent body.older table rfl rfl ⟨rfl, ?_⟩
          intro name id named _
          obtain ⟨listed, parameter, index, stored', kind'⟩ := known (name, id) named
          have given : name ∈ (function.params.zip args).map (fun pair => pair.1.name) := by
            have zipped : (function.params.zip args).map Prod.fst = function.params :=
              List.map_fst_zip (by omega)
            rw [← zipped, List.map_map] at listed
            exact listed
          obtain ⟨value, found⟩ := Option.isSome_iff_exists.mp (bound name (.inr given))
          exact ⟨value, found, fun _ => setting.valid.loose stored' (by rw [kind']; rfl)⟩

/-- A call: of a function of the program, or of a built-in one. -/
theorem leads_dispatch
    (stands : setting.Stands act callers store.frames pending steps (.expr (.call tag callee exprs))
      steps) : setting.Leads act callers none (code.dispatch callee line args pending store) := by
  have within := stands.within
  obtain ⟨resolution, decl, -, noted, stored, -⟩ :=
    setting.read stands.sound stands.frames stands.here within.use_isPrefix
  unfold Code.dispatch
  rw [setting.resolved noted stored]
  cases kind : decl.kind with
  | function node arity => exact leads_invoke stands noted stored kind
  | builtin provided =>
    cases provided with
    | function signature =>
      dsimp only
      split
      · rename_i builtin found
        refine .made stands (builtin.call_gives args) fun value typed => ?_
        refine setting.valid.call within noted stored fun signature' builtin' _ found' other => ?_
        rw [found] at found'
        cases found'
        exact typed other
      · exact .failure stands rfl
    | constant ty => exact .failure stands rfl
  | _ => exact .failure stands rfl

theorem leads_args
    (stands : setting.Stands act callers store.frames pending steps (.expr (.call tag callee (done
      ++ rest))) steps) :
    setting.Leads act callers none (code.evalArgs callee line before rest pending store) := by
  cases rest with
  | nil => exact leads_dispatch stands
  | cons item rest => exact .part stands .args rfl

end Calls

/-! ### The start of expressions and statements -/

theorem leads_eval {expr : Expr}
    (stands : setting.Stands act callers store.frames pending steps (.expr expr) steps) :
    setting.Leads act callers none (code.eval expr pending store) := by
  cases expr with
  | int | bool | text | none => exact .value stands (setting.valid.form stands.within rfl)
  | name tag name =>
    obtain ⟨value, found, yields⟩ :=
      setting.lookup_ok stands.sound stands.frames stands.here stands.within
    rw [Code.eval, found]
    exact .value stands yields
  | binary tag op left right =>
    rw [Code.eval]
    split
    · exact .part stands (.first ‹_›) rfl
    · exact .part stands (.left ‹_›) rfl
  | unary tag op operand => exact .part stands .unary rfl
  | index tag base index => exact .part stands .base rfl
  | array tag items =>
    rw [← List.nil_append items] at stands
    exact leads_items stands
  | sized tag size => exact .part stands .size rfl
  | map tag entries =>
    rw [← List.nil_append entries] at stands
    exact leads_entries stands
  | comprehension tag element binder source filter => exact .part stands .source rfl
  | call tag callee args =>
    rw [← List.nil_append args] at stands
    exact leads_args stands

theorem leads_define {params : List Ident} {body : Block}
    (stands : setting.Stands act callers store.frames pending steps (.stmt (.define tag name params
      body)) steps) : setting.Leads act callers none (give .none pending store) := by
  have defines : steps ++ [.define name tag.id params.length] <+: program.scopeSteps :=
    ((List.prefix_append_right_inj steps).mpr ⟨_, rfl⟩).trans stands.within.steps_isPrefix
  have same := setting.of.accepted.define defines
  obtain ⟨decl, stored, -, older, -⟩ := Program.Accepted.declared defines same
  -- the function scope opens and closes behind the declaration
  have enclosed : Resolver.Quiet policy
      (.enter .function tag.id :: ((paramSteps params ++ body.scopeSteps) ++ [.leave])) :=
    ((Resolver.local_params params).append body.quiet.local).enclosed .function tag.id
  have behind : (program.before policy
      (steps ++ (Node.stmt (.define tag name params body)).scopeSteps)).layers =
        (program.before policy (steps ++ [.define name tag.id params.length])).layers := by
    refine .trans (congrArg (fun steps => (program.before policy steps).layers) ?_)
      (Program.before_quiet enclosed)
    simp [Node.scopeSteps, Stmt.scopeSteps]
  obtain ⟨layer, rest, shape, -⟩ := program.layers_cons policy steps
  have named := Resolver.layers_declare (program.formed_before policy steps) name
    (.function tag.id params.length) shape
  rw [← same, ← Program.before_concat, ← behind] at named
  obtain ⟨-, frames, waiting, here⟩ := stands
  obtain ⟨base, frames', layers⟩ := act
  obtain rfl : layers = layer :: rest := here.trans shape
  refine .move (.defined name.name _ ?_) frames (.resume waiting named.symm (by simp))
  rintro ⟨decl', stored', plain⟩
  rw [stored] at stored'
  cases stored'
  have kind := older.function_iff.mpr rfl
  simp [Decl.isFunction, kind] at plain

theorem leads_exec {stmt : Stmt}
    (stands : setting.Stands act callers store.frames pending steps (.stmt stmt) steps) :
    setting.Leads act callers none (Code.exec stmt pending store) := by
  cases stmt with
  | expr value => exact .stay stands.frames (.eval (.value stands.waiting) stands.here)
  | assign tag target value final =>
    cases target with
    | name ident => exact .part stands .assign rfl
    | element slot base index => exact .part stands .storeValue rfl
  | cond position condition body branches => exact .part stands .condition rfl
  | loop position condition body => exact .part stands .loopTest rfl
  | each tag binder source body => exact .part stands .eachSource rfl
  | define tag name params body => exact leads_define stands
  | ret position value =>
    cases value with
    | none => exact .finished stands (option_quiet none)
    | some value => exact .part stands .ret rfl

end Steps

end ScopedScript

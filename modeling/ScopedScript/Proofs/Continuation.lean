/-
**Values handed to waiting work.**

The rest of the steps of a run: blocks and loops that begin and end, assignments, calls that end,
and all work that goes on with a value or is ended by a failure:

* `Leads.close`: a block, a loop or a comprehension ends, and its frame goes;
* `Setting.admits`: a variable can take the value that is assigned to it;
* `leads_fill`, `leads_abort`: waiting work goes on with a value, or ends with a failure;
* `leads_ended`: a call ends, and its caller goes on;
* `Code.step_leads`: **every step** of a run follows the program.
-/

import ScopedScript.Proofs.Simulation
import ScopedScript.Proofs.Tandem

set_option linter.unusedSectionVars false

namespace ScopedScript

/-! ### What lies between a node and a part of it -/

namespace Hole

open Resolver

variable {policy : Redeclaration} {work : Pending} {node part : Node} {offset : List ScopeStep}

variable (hole : Hole work node offset part)

include hole

/-- Work with a frame of its own waits in a scope of its node. -/
theorem enters (policy : Redeclaration)
    (owns : work.ownsFrame = true) :
    ∃ first kind owner inner, offset = first ++ .enter kind owner :: inner ∧ kind ≠ .function ∧
      Quiet policy first ∧ Local policy inner := by
  cases hole with
  | @filter tag line element binder source condition rest before =>
    exact ⟨source.scopeSteps, .comprehension, tag.id, _, rfl, by decide, source.quiet,
      .of_declares (.declare _ _)⟩
  | @element tag element binder source filter rest before =>
    refine ⟨source.scopeSteps, .comprehension, tag.id, _, ?_, by decide, source.quiet,
      (Local.of_declares (.declare binder (.comprehensionVariable tag.id))).append
        (option_quiet filter).local⟩
    simp [comprehensionOpening]
  | @eachBody tag binder source body rest =>
    exact ⟨source.scopeSteps, .loop, tag.id, _, rfl, by decide, source.quiet,
      .of_declares (.declare _ _)⟩
  | @block tag last done stmt rest =>
    exact ⟨[], .block, tag.id, stmtsSteps done, rfl, by decide, .nil, stmts_local done⟩
  | _ => cases owns

variable {program : Program} {steps more : List ScopeStep}

/-- The layers of work with a frame of its own: one more than those of its node. -/
theorem layers_inside (owns : work.ownsFrame = true)
    (further : Local policy more) :
    ∃ layer, (program.before policy (steps ++ offset ++ more)).layers =
      layer :: (program.before policy steps).layers := by
  obtain ⟨first, kind, owner, inner, rfl, other, quiet, isLocal⟩ := hole.enters policy owns
  obtain ⟨names, shape⟩ : ∃ names,
      (program.before policy (steps ++ first ++ .enter kind owner :: (inner ++ more))).layers =
        ⟨true, (program.before policy (steps ++ first)).tree.scopes.size, names⟩ ::
          (program.before policy (steps ++ first)).layers :=
    Program.inside_layers owner other (isLocal.append further)
  rw [Program.before_quiet quiet] at shape
  refine ⟨_, .trans ?_ shape⟩
  simp

end Hole

section Steps

variable {program : Program} {policy : Redeclaration} {code : Code} {contract : Contract}
  {bottom : Bottom} {setting : Setting program policy code contract bottom} {act : Activation}
  {callers : List Activation} {store : Store} {pending : List Pending}
  {steps place : List ScopeStep} {node : Node} {tag : Tag} {value : Value} {line : Nat}
variable {control : Control} {stmt : Stmt} {name : String} {resolution : Resolution} {body : Block}
  {fault : Fault}
variable {layer : Layer} {id : DeclId} {promise : Promise} {work : Pending}

/-- A block, a loop or a comprehension ends: its layer and its frame go. -/
theorem Leads.close (shape : act.layers = layer :: (program.before policy steps).layers)
    (frames : store.frames = act.frames.pop)
    (placed : ∀ next : Activation, next.layers = (program.before policy steps).layers → Placed
      program policy code contract bottom control pending next callers) :
    setting.Leads act callers none ⟨control, pending, store⟩ := by
  obtain ⟨next, rest, around, own⟩ := program.layers_cons policy steps
  rw [around] at shape
  obtain ⟨base, frames', layers⟩ := act
  obtain rfl : layers = layer :: next :: rest := shape
  exact .move (.closed own) frames (placed _ around.symm)

/-! ### Blocks -/

/-- A block begins with its first statement, in a new frame, or is over at once. -/
theorem leads_enter {block : Block}
    (stands : setting.Stands act callers store.frames pending steps (.block block) steps) :
    setting.Leads act callers none (code.enter block pending store) := by
  obtain ⟨tag, stmts⟩ := block
  have within : steps ++ [.enter .block tag.id] <+: program.scopeSteps :=
    ((List.prefix_append_right_inj steps).mpr ⟨_, rfl⟩).trans stands.within.steps_isPrefix
  have scope : code.scopeOf store tag.id = (program.before policy steps).tree.scopes.size := by
    rw [Code.scopeOf, setting.of.tree, setting.of.accepted.opened within, Option.getD_some]
  have at_once : setting.Leads act callers none
      (give .none pending (store.push store.current (code.scopeOf store tag.id)).pop) := by
    exact .finished stands.popped (Block.quiet _)
  unfold Code.enter proceed
  cases stmts with
  | nil => exact at_once
  | cons stmt rest =>
    cases returning : store.returning with
    | some => simpa only [Block.stmts, Block.id, Block.tag, Store.push, returning] using at_once
    | none =>
      simp only [Block.stmts, Block.id, Block.tag, Store.push, returning]
      have hole : Hole (.block .none rest) (.block (.mk tag ([] ++ stmt :: rest)))
          ([.enter .block tag.id] ++ stmtsSteps []) (.stmt stmt) := .block
      obtain ⟨-, frames, waiting, here⟩ := stands
      obtain ⟨base, frames', layers⟩ := act
      obtain rfl : store.frames = frames' := frames
      refine .move (.opened _) rfl (.exec (.work hole waiting) ?_)
      show _ = (program.before policy (steps ++ [.enter .block tag.id])).layers
      rw [Program.before_concat]
      refine .trans ?_ (Resolver.layers_enter (program.formed_before policy steps) _ _).symm
      rw [scope, if_neg (by decide), ← here]

/-- A block goes on with its next statement, or ends. -/
theorem leads_proceed {done rest : List Stmt} {last : Value}
    (stands : setting.Stands act callers store.frames pending steps (.block (.mk tag (done ++ stmt
      :: rest))) (steps ++ ([.enter .block tag.id] ++ stmtsSteps done) ++ stmt.scopeSteps)) :
    setting.Leads act callers none (proceed last rest pending store) := by
  obtain ⟨-, frames, waiting, here⟩ := stands
  have split : steps ++ ([.enter .block tag.id] ++ stmtsSteps done) ++ stmt.scopeSteps =
      steps ++ ([.enter .block tag.id] ++ stmtsSteps (done ++ [stmt])) := by
    simp [stmtsSteps_append, stmtsSteps]
  have finished : setting.Leads act callers none (give last pending store.pop) := by
    have hole : Hole (.block last rest) (.block (.mk tag (done ++ stmt :: rest)))
      ([.enter .block tag.id] ++ stmtsSteps done) (.stmt stmt) := .block
    obtain ⟨layer, shape⟩ := hole.layers_inside rfl stmt.isLocal
    refine .close (here.trans shape) (congrArg Frames.pop frames) fun next same => ?_
    exact .resume waiting (same.trans (Program.before_quiet (Block.quiet _)).symm) (by simp)
  unfold proceed
  cases rest with
  | nil => exact finished
  | cons next rest =>
    cases returning : store.returning with
    | some => exact finished
    | none =>
      rw [List.append_cons] at waiting
      rw [split] at here
      exact .stay frames (.exec (.work .block waiting) here)

/-! ### Loops and comprehensions -/

section Binders

variable {binder : Ident} {element source : Expr} {filter : Option Expr} {body : Block}
variable {final : DeclId → Prop} {before : Array Value} {items : List Value}
variable {scope : ScopeId} {rest : List Value}

/-- The scope of a loop or a comprehension: its layer has one variable, which takes every value. -/
def Setting.Binds (_ : Setting program policy code contract bottom) (steps inner : List ScopeStep)
    (owner : NodeId) (name : String) : Prop :=
  ∃ scope id, code.analysis.tree.scopeOf? owner = some scope ∧
    (program.before policy (steps ++ inner)).layers =
      ⟨true, scope, [(name, id)]⟩ :: (program.before policy steps).layers ∧
    (∀ value, (program.promise policy contract).allows id value) ∧
    ¬ (program.resolve policy).tree.Final id

theorem Setting.binds (setting : Setting program policy code contract bottom) {kind : ScopeKind}
    {owner : NodeId} {declared : DeclKind} {first : List ScopeStep} (other : kind ≠ .function)
    (quiet : Resolver.Quiet policy first)
    (within : steps ++ (first ++ [.enter kind owner, .declare binder declared]) <+:
      program.scopeSteps)
    (loose : declared.seed? = some .unknown)
    (free : ∀ decl : Decl, declared.Older decl.kind → decl.isFinal = false) :
    setting.Binds steps (first ++ [.enter kind owner, .declare binder declared]) owner
      binder.name := by
  unfold Binds
  rw [← List.append_assoc] at within ⊢
  obtain ⟨id, decl, shape, stored, older, opened⟩ :=
    setting.of.accepted.opening_layers other within
  rw [Program.before_quiet quiet] at shape
  refine ⟨_, id, setting.of.tree ▸ opened, shape, fun value => ?_, ?_⟩
  · exact setting.valid.loose stored (older.seed_eq loose)
  · rintro ⟨decl', stored', final⟩
    obtain rfl : decl = decl' := Option.some.inj (stored.symm.trans stored')
    rw [free decl older] at final
    cases final

theorem Setting.comprehension (setting : Setting program policy code contract bottom)
    (within : (Node.block program.body).Within steps
      (.expr (.comprehension tag element binder source filter))) :
    setting.Binds steps (source.scopeSteps ++ comprehensionOpening tag binder) tag.id
      binder.name := by
  refine setting.binds nofun source.quiet ?_ rfl fun decl older => ?_
  · refine .trans ((List.prefix_append_right_inj steps).mpr ?_) within.steps_isPrefix
    exact ⟨optionSteps filter ++ element.scopeSteps ++ [.leave], by
      simp [Node.scopeSteps, Expr.scopeSteps]⟩
  · obtain ⟨name, kind, position, scope⟩ := decl
    cases older
    rfl

theorem Setting.loop (setting : Setting program policy code contract bottom)
    (within : (Node.block program.body).Within steps (.stmt (.each tag binder source body))) :
    setting.Binds steps (source.scopeSteps ++ loopOpening tag binder) tag.id binder.name := by
  refine setting.binds nofun source.quiet ?_ rfl fun decl older => ?_
  · refine .trans ((List.prefix_append_right_inj steps).mpr ?_) within.steps_isPrefix
    exact ⟨body.scopeSteps ++ [.leave], by simp [Node.scopeSteps, Stmt.scopeSteps]⟩
  · obtain ⟨name, kind, position, scope⟩ := decl
    cases older
    rfl

/-- A loop begins with the first value of its variable, in a new frame. -/
theorem Activation.Move.begins (frames : store.frames = act.frames) (name : String)
    (allowed : promise.allows id value) :
    ∃ next, act.Move promise final none next ∧
      ((store.push store.current scope).bindHere name value).frames = next.frames ∧
      next.layers = ⟨true, scope, [(name, id)]⟩ :: act.layers := by
  obtain ⟨base, frames', layers⟩ := act
  obtain rfl : store.frames = frames' := frames
  refine ⟨_, .begun scope name id value allowed, ?_, rfl⟩
  show (store.frames.child store.frames.newest scope).set
    (store.frames.child store.frames.newest scope).newest name value = _
  rw [Frames.newest_child]

/-- A loop goes on with the next value of its variable. -/
theorem Activation.Move.goesOn {own : Bool} {rest : List Layer} (frames : store.frames = act.frames)
    (shape : act.layers = ⟨own, scope, [(name, id)]⟩ :: rest) (allowed : promise.allows id value)
    (free : ¬ final id) :
    ∃ next, act.Move promise final none next ∧
      (store.bindHere name value).frames = next.frames ∧ next.layers = act.layers := by
  obtain ⟨base, frames', layers⟩ := act
  obtain rfl : layers = ⟨own, scope, [(name, id)]⟩ :: rest := shape
  obtain rfl : store.frames = frames' := frames
  exact ⟨_, .again name id value allowed free, rfl, rfl⟩

/-- An item of a comprehension: its condition is next, or what it gives. -/
theorem leads_item {item : Value} {next : Activation}
    (moves : act.Move (program.promise policy contract) (program.resolve policy).tree.Final none
      next) (frames : (store.bindHere binder.name item).frames = next.frames)
    (waiting : Waiting program policy code bottom pending steps (.expr (.comprehension tag element
      binder source filter)) callers)
    (inside : next.layers = (program.before policy (steps ++ (source.scopeSteps ++
      comprehensionOpening tag binder))).layers) :
    setting.Leads act callers none
      (collect ⟨element, binder, filter⟩ (item :: rest) before pending store) := by
  cases filter with
  | some condition => exact .move moves frames (.eval (.work .filter waiting) inside)
  | none =>
    refine .move moves frames (.eval (.work .element waiting) (inside.trans ?_))
    rw [optionSteps, List.append_nil]

/-- A comprehension goes on with its next item, or ends. -/
theorem leads_collect
    (stands : setting.Stands act callers store.frames pending steps (.expr (.comprehension tag
      element binder source filter)) (steps ++ (source.scopeSteps ++ comprehensionOpening tag
      binder))) :
    setting.Leads act callers none
      (collect ⟨element, binder, filter⟩ rest before pending store) := by
  have within := stands.within
  obtain ⟨-, frames, waiting, inside⟩ := stands
  obtain ⟨scope, id, -, shape, allowed, free⟩ := setting.comprehension within
  cases rest with
  | nil =>
    refine .perform (allocate_works before).gives (fun value store' same ty => ?_)
      (fun cause store' same bound => ?_)
    · have left := same.trans (congrArg Frames.pop frames)
      refine .close (inside.trans shape) left fun next same => ?_
      refine .resume waiting (same.trans (Program.before_quiet (Expr.quiet _)).symm) ?_
      intro other is
      obtain rfl := Node.expr.inj is
      refine setting.valid.form within ?_
      rw [ty]
      rfl
    · have left := same.trans (congrArg Frames.pop frames)
      refine .close (inside.trans shape) left fun next same => ?_
      exact .unwind waiting same bound
  | cons item rest =>
    obtain ⟨next, moves, same, layers⟩ :=
      Activation.Move.goesOn frames (inside.trans shape) (allowed item) free
    exact leads_item moves same waiting (layers.trans inside)

/-- A comprehension begins with its first item, in a new frame, or is over at once. -/
theorem leads_source
    (stands : setting.Stands act callers store.frames pending steps (.expr (.comprehension tag
      element binder source filter)) steps) (opened : code.scopeOf store tag.id = scope) :
    setting.Leads act callers none
      (collect ⟨element, binder, filter⟩ items #[] pending (store.push store.current scope)) := by
  have within := stands.within
  obtain ⟨scope', id, owns, shape, allowed, -⟩ := setting.comprehension within
  obtain rfl : scope' = scope := by rw [← opened, Code.scopeOf, owns, Option.getD_some]
  cases items with
  | nil =>
    refine .made stands.popped (allocate_works #[]).gives fun value ty => ?_
    exact setting.valid.form within (by rw [ty]; rfl)
  | cons item rest =>
    obtain ⟨next, moves, same, layers⟩ :=
      Activation.Move.begins stands.frames binder.name (allowed item)
    exact leads_item moves same stands.waiting (layers.trans (by rw [stands.here, shape]))

theorem leads_iterate
    (stands : setting.Stands act callers store.frames pending steps (.stmt (.each tag binder source
      body)) (steps ++ (source.scopeSteps ++ loopOpening tag binder))) :
    setting.Leads act callers none (iterate binder body rest pending store) := by
  obtain ⟨scope, id, -, shape, allowed, free⟩ := setting.loop stands.within
  obtain ⟨-, frames, waiting, inside⟩ := stands
  unfold iterate
  cases rest with
  | nil =>
    refine .close (inside.trans shape) (congrArg Frames.pop frames) fun next same => ?_
    exact .resume waiting (same.trans (Program.before_quiet (each_quiet _ _ _ body.quiet)).symm) nofun
  | cons item rest =>
    obtain ⟨next, moves, same, layers⟩ :=
      Activation.Move.goesOn frames (inside.trans shape) (allowed item) free
    exact .move moves same (.enter (.work .eachBody waiting) (layers.trans inside))

/-- A loop begins with its first item, in a new frame, or is over at once. -/
theorem leads_eachSource
    (stands : setting.Stands act callers store.frames pending steps (.stmt (.each tag binder source
      body)) steps) (opened : code.scopeOf store tag.id = scope) :
    setting.Leads act callers none
      (iterate binder body items pending (store.push store.current scope)) := by
  obtain ⟨scope', id, owns, shape, allowed, -⟩ := setting.loop stands.within
  obtain rfl : scope' = scope := by rw [← opened, Code.scopeOf, owns, Option.getD_some]
  unfold iterate
  cases items with
  | nil =>
    exact .finished stands.popped (each_quiet tag binder source body.quiet)
  | cons item rest =>
    obtain ⟨next, moves, same, layers⟩ :=
      Activation.Move.begins stands.frames binder.name (allowed item)
    exact .move moves same (.enter (.work .eachBody stands.waiting)
      (layers.trans (by rw [stands.here, shape])))

end Binders

/-! ### Assignments -/

/-- **A variable can take the value that is assigned to it**: what is allowed for the latest
declaration of a name in a layer is allowed for the older ones that are still read. -/
theorem Setting.admits (setting : Setting program policy code contract bottom) {decl : Decl}
    (before : steps <+: program.scopeSteps) (member : layer ∈ (program.before policy steps).layers)
    (newest : ∀ other, (name, other) ∈ layer.names → other ≤ id)
    (stored : (program.resolve policy).tree.decls[id]? = some decl)
    (plain : decl.isFunction = false) (named : decl.name = name) (scope : decl.scope = layer.scope)
    (assigned : contract.assigned id) (allowed : contract.allows id value) :
    ∀ other, (name, other) ∈ layer.names → (program.promise policy contract).held other →
      (other = id ∨ contract.captured other) → contract.allows other value := by
  rintro other listed ⟨old, stored', plain'⟩ readable
  by_cases same : other = id
  · exact same ▸ allowed
  · obtain ⟨late, found, named', scope'⟩ := Program.listed before member listed
    obtain rfl : old = late := Option.some.inj (stored'.symm.trans found)
    refine setting.valid.shared (readable.resolve_left same) stored' stored plain' plain ?_ ?_
      (Nat.lt_of_le_of_ne (newest other listed) same) assigned allowed
    · rw [named, named']
    · rw [scope, scope']

theorem Activation.Fits.frameFor_top {rest : List Layer} (fits : act.Fits promise)
    (shape : act.layers = layer :: rest) :
    act.frames.frameFor act.frames.newest layer.scope = some act.frames.newest := by
  obtain ⟨numbers, ascent, -⟩ := fits.laid
  rw [Frames.frameFor_eq ascent fits.descend]
  obtain ⟨others, rfl⟩ := ascent.cons_eq
  rw [List.find?_cons, (fits.top shape).scope]
  simp

/-- What an assignment does, where the machine is about to make one. -/
def Code.assignment? (code : Code) (config : Config) : Option Assignment :=
  match config with
  | ⟨.resume _, .assign name _ :: _, store⟩ => do
    let resolution ← code.analysis.resolutions[name.id]?
    let number ← store.frames.frameFor store.current resolution.scope
    return ⟨number, name.name, resolution.decl⟩
  | _ => none

/-- The step that follows does not assign what a contract excludes. -/
def Code.Permits (code : Code) (contract : Contract) (config : Config) : Prop :=
  ∀ event, code.assignment? config = some event → contract.assigned event.decl

theorem Setting.assigning (setting : Setting program policy code contract bottom) {name : Ident}
    {number : Nat} (frames : store.frames = act.frames)
    (noted : (program.resolve policy).resolutions[name.id]? = some resolution)
    (place : act.frames.frameFor act.frames.newest resolution.scope = some number) :
    code.assignment? ⟨.resume value, .assign name line :: pending, store⟩ =
        some ⟨number, name.name, resolution.decl⟩ ∧
      code.assign name line value pending store =
        give value pending (store.bind number name.name value) := by
  have here : store.frames.frameFor store.current resolution.scope = some number := by
    rw [Store.current, frames, place]
  rw [Code.assign, Code.assignment?, setting.of.resolutions, noted]
  simp only [Option.bind_eq_bind, Option.bind_some, here, and_true]
  rfl

section Assignments

variable {name : Ident} {final : Bool}
  (permitted : code.Permits contract ⟨.resume value, .assign name line :: pending, store⟩)

include permitted

section

variable {owner : NodeId} (stands : setting.Stands act callers store.frames pending steps node place)
  (other : ∀ expr, node ≠ .expr expr)
  (behind : steps ++ node.scopeSteps = place ++ [.assign name owner final])

include stands other behind

/-- An assignment that declares a variable of the innermost scope. -/
theorem leads_declared
    (same : (program.before policy place).take policy (.assign name owner final) =
      (program.before policy place).declare name (.assigned final owner false))
    (noted : (program.resolve policy).resolutions[name.id]? =
      some ⟨(program.before policy place).current, (program.before policy place).tree.decls.size⟩)
    (allowed : contract.allows (program.before policy place).tree.decls.size value) :
    setting.Leads act callers
      (code.assignment? ⟨.resume value, .assign name line :: pending, store⟩)
      (code.assign name line value pending store) := by
  have assigns : place ++ [.assign name owner final] <+: program.scopeSteps :=
    behind ▸ stands.within.steps_isPrefix
  obtain ⟨sound, frames, waiting, here⟩ := stands
  have formed := program.formed_before policy place
  obtain ⟨names, rest, shape⟩ := formed.layers_cons
  obtain ⟨event, assign⟩ :=
    setting.assigning frames noted (sound.fits.frameFor_top (here.trans shape))
  have assigned := permitted _ event
  obtain ⟨decl, stored, named, kind, scope⟩ := Program.Accepted.declared assigns same
  have plain : decl.isFunction = false := by
    obtain ⟨name, kind', position, scope⟩ := decl
    cases kind <;> rfl
  have innermost : (⟨true, (program.before policy place).current, names⟩ : Layer) ∈
      (program.before policy place).layers := shape ▸ List.mem_cons_self
  have newer : ∀ entry ∈ names, entry.2 < (program.before policy place).tree.decls.size := by
    intro entry member
    obtain ⟨early, found, -, -⟩ := formed.listed innermost member
    exact (Array.getElem?_eq_some_iff.mp found).1
  have listed := Resolver.layers_declare formed name (.assigned final owner false) shape
  rw [← same, ← Program.before_concat, ← behind] at listed
  rw [event, assign]
  obtain ⟨base, frames', layers⟩ := act
  obtain rfl := here.trans shape
  obtain rfl : store.frames = frames' := frames
  refine .move (.declared name.name _ value newer ?_) rfl
    (.resume waiting listed.symm fun expr is => absurd is (other expr))
  intro older member held readable
  rcases List.mem_cons.mp member with is | before
  · cases is
    exact allowed
  · refine setting.admits ((List.prefix_append _ _).trans assigns) innermost
      (fun other listed => Nat.le_of_lt (newer (name.name, other) listed)) stored plain named
      scope assigned allowed older before held ?_
    rcases readable with ⟨-, latest⟩ | captured
    · left
      simpa [Layer.named] using latest.symm
    · exact .inr captured

/-- An assignment to a variable that an own layer has. -/
theorem leads_rebound {decl : Decl}
    (unchanged : (program.before policy (place ++ [.assign name owner final])).layers =
      (program.before policy place).layers) (member : layer ∈ (program.before policy place).layers)
    (own : layer.own = true) (latest : layer.names.lookup name.name = some id)
    (noted : (program.resolve policy).resolutions[name.id]? = some ⟨layer.scope, id⟩)
    (stored : (program.resolve policy).tree.decls[id]? = some decl) (free : decl.isFinal = false)
    (plain : decl.isFunction = false) (allowed : contract.allows id value) :
    setting.Leads act callers
      (code.assignment? ⟨.resume value, .assign name line :: pending, store⟩)
      (code.assign name line value pending store) := by
  have before : place <+: program.scopeSteps :=
    (List.prefix_append _ _).trans (behind ▸ stands.within.steps_isPrefix)
  obtain ⟨sound, frames, waiting, here⟩ := stands
  have formed := program.formed_before policy place
  obtain ⟨number, found, -⟩ := setting.frame sound frames here member
  rw [Store.current, frames] at found
  obtain ⟨event, assign⟩ := setting.assigning frames noted found
  have assigned := permitted _ event
  obtain ⟨late, stored', named, scope⟩ := Program.listed before member (Layer.mem_of_lookup latest)
  obtain rfl : decl = late := Option.some.inj (stored.symm.trans stored')
  rw [event, assign]
  obtain ⟨base, frames', layers⟩ := act
  obtain rfl := here
  obtain rfl : store.frames = frames' := frames
  refine .move (.rebound name.name id value member own latest ?_ found ?_) rfl
    (.resume waiting (by rw [behind, unchanged]) fun expr is => absurd is (other expr))
  · rintro ⟨decl', stored', final⟩
    obtain rfl : decl = decl' := Option.some.inj (stored.symm.trans stored')
    rw [free] at final
    cases final
  · intro other listed held readable
    refine setting.admits before member (fun other => Resolver.le_of_lookup (formed.latest member) latest)
      stored plain named scope assigned allowed other listed held ?_
    rcases readable with ⟨-, found⟩ | captured
    · exact .inl (Option.some.inj (found.symm.trans latest))
    · exact .inr captured

end

/-- An assignment to a name: the frame of its scope takes the value. -/
theorem leads_assign {expr : Expr}
    (stands : setting.Stands act callers store.frames pending steps
      (.stmt (.assign tag (.name name) expr final)) (steps ++ expr.scopeSteps))
    (yields : contract.yields expr value) :
    setting.Leads act callers
      (code.assignment? ⟨.resume value, .assign name line :: pending, store⟩)
      (code.assign name line value pending store) := by
  have within := stands.within
  have behind : steps ++ (Node.stmt (.assign tag (.name name) expr final)).scopeSteps =
      steps ++ expr.scopeSteps ++ [.assign name tag.id final] := by
    rw [Node.scopeSteps, Stmt.scopeSteps, assignSteps, ← List.append_assoc]
  rcases setting.of.accepted.assign within.assign_isPrefix with
    ⟨same, noted⟩ | ⟨inner, layer, outer, id, decl, around, own, latest, noted, stored, free, plain,
      -, unchanged⟩
  · exact leads_declared permitted stands (by simp) behind same noted
      (setting.valid.assign within noted yields)
  · have member : layer ∈ (program.before policy (steps ++ expr.scopeSteps)).layers := by
      rw [around]
      exact List.mem_append_right _ List.mem_cons_self
    exact leads_rebound permitted stands (by simp) behind unchanged member own latest noted
      stored free plain (setting.valid.assign within noted yields)

end Assignments

/-! ### The end of calls -/

/-- A call ends: its frame goes, and the caller finds its own frames as they were. -/
theorem leads_ended {caller : Activation} {origin : List ScopeStep} {name : Ident}
    {params : List Ident}
    (sound : Sound (program.promise policy contract) (act :: caller :: callers))
    (within : (Node.block program.body).Within origin (.stmt (.define tag name params body)))
    (here : act.layers = (program.before policy (origin ++ functionOpening tag name params)).layers)
    (frames : store.frames = act.frames.pop)
    (placed : Placed program policy code contract bottom control pending caller callers) :
    setting.Leads act (caller :: callers) none ⟨control, pending, store⟩ := by
  have opening : origin ++ functionOpening tag name params <+: program.scopeSteps :=
    (List.prefix_append _ _).trans (within.tail List.mem_cons_self).steps_isPrefix
  obtain ⟨scope, names, layers, -⟩ := setting.of.accepted.function_layers opening
  obtain ⟨around, rest, shape, -⟩ :=
    program.layers_cons policy (origin ++ [.define name tag.id params.length])
  rw [shape, List.map_cons] at layers
  have shape := here.trans layers
  exact ⟨caller, callers, ((sound.pop_eq shape rfl).symm.trans frames.symm), placed,
    .ended shape rfl⟩

/-- What a call of a function of the program gives may be anything. -/
theorem Setting.call_yields (setting : Setting program policy code contract bottom) {callee : Ident}
    {args : List Expr} {node : NodeId} {arity : Nat}
    (within : (Node.block program.body).Within steps (.expr (.call tag callee args)))
    (resolved : code.resolved? callee.id = some (resolution, .function node arity)) :
    contract.yields (.call tag callee args) value := by
  rw [Code.resolved?, setting.of.resolutions, setting.of.tree] at resolved
  obtain ⟨resolution', noted, rest⟩ := Option.bind_eq_some_iff.mp resolved
  obtain ⟨decl, stored, rest⟩ := Option.bind_eq_some_iff.mp rest
  obtain ⟨rfl, function⟩ := Prod.mk.inj (Option.some.inj rest)
  refine setting.valid.call within noted stored fun signature builtin kind => ?_
  rw [function] at kind
  cases kind

/-! ### Values for expressions -/

section Fill

variable {work : Pending} {offset : List ScopeStep} {part : Node} (hole : Hole work node offset part)
  (stands : setting.Stands act callers store.frames pending steps node
    (steps ++ offset ++ part.scopeSteps))

include hole stands

/-- Work without a frame of its own goes on in the layers of its node. -/
theorem Hole.behind (plain : work.ownsFrame = false) :
    setting.Stands act callers store.frames pending steps node steps :=
  stands.back (hole.layers_behind plain)

variable (yields : ∀ expr, part = .expr expr → contract.yields expr value)

theorem leads_fill_expr {expr : Expr} (is : node = .expr expr) :
    setting.Leads act callers (code.assignment? ⟨.resume value, work :: pending, store⟩)
      (code.resume value work pending store) := by
  subst is
  have back := hole.behind stands
  have formed : ∀ {result : Value}, expr.form? = some result.ty → contract.yields expr result :=
    fun form => setting.valid.form stands.within form
  cases hole with
  | @left tag op line left right other => exact .part (back rfl) (.right other) rfl
  | @right tag op line value' left right other =>
    exact .computed (back rfl) (op.apply_works store.world.heap value' value) fun result ty =>
      formed (congrArg some (ty other).symm)
  | @first tag op line left right logical =>
    have form : Typing.resultOf op = .bool := by rw [Typing.resultOf, logical]
    cases value with
    | bool holds =>
      rw [Code.resume]
      split
      · exact .value (back rfl) (formed (congrArg some form))
      · exact .part (back rfl) (.second logical) rfl
    | _ => exact .failure (back rfl) rfl
  | @second tag op line left right logical =>
    have form : Typing.resultOf op = .bool := by rw [Typing.resultOf, logical]
    cases value with
    | bool holds => exact .value (back rfl) (formed (congrArg some form))
    | _ => exact .failure (back rfl) rfl
  | @unary tag op line operand =>
    exact .computed (back rfl) (op.apply_works value) fun result ty => formed (congrArg some ty.symm)
  | @base tag line base index => exact .part (back rfl) .index rfl
  | @index tag line base' base index =>
    exact .computed (back rfl) (base'.load_works store.world.heap value) fun result _ =>
      setting.valid.element stands.within
  | @items tag before done item rest =>
    rw [List.append_cons] at back
    exact leads_items (back rfl)
  | @size tag line size =>
    cases value with
    | int count =>
      rw [Code.resume]
      split
      · exact .failure (back rfl) rfl
      · exact .made (back rfl) (allocateSized_works count _).gives fun result ty =>
          formed (congrArg some ty.symm)
    | _ => exact .failure (back rfl) rfl
  | @key tag line before done key expr rest =>
    have result := value.asKey_works
    rw [Code.resume]
    cases found : value.asKey with
    | ok found => exact .part (back rfl) .entry rfl
    | error cause =>
      rw [found] at result
      exact .failure (back rfl) (Cause.isUnbound_of_work result)
  | @entry tag found before done key expr rest =>
    rw [List.append_cons] at back
    exact leads_entries (back rfl)
  | @source tag element binder source filter =>
    cases value with
    | array place => exact leads_source (back rfl) rfl
    | _ => exact .failure (back rfl) rfl
  | @filter tag line element binder source condition rest before =>
    have inside := stands.back (Program.before_quiet condition.quiet)
    cases value with
    | bool holds =>
      cases holds with
      | false => exact leads_collect inside
      | true =>
        refine .stay stands.frames (.eval (.work .element stands.waiting) (stands.here.trans ?_))
        simp [optionSteps, Node.scopeSteps]
    | _ => exact .stay inside.frames (.unwind (.work .filter inside.waiting) inside.here rfl)
  | @element tag element binder source filter rest before =>
    refine leads_collect (stands.back ?_)
    have quiet : Resolver.Quiet policy (optionSteps filter ++ element.scopeSteps) :=
      (option_quiet filter).append element.quiet
    refine .trans (congrArg (fun steps => (program.before policy steps).layers) ?_)
      (Program.before_quiet quiet)
    simp [Node.scopeSteps]
  | @args tag callee line before done item rest =>
    rw [List.append_cons] at back
    exact leads_args (back rfl)

/-! ### Values for statements and blocks -/

omit hole stands in
/-- An `if` goes on with its next clause, or is over. -/
theorem leads_branches {position : Position} {condition : Expr} {done rest : List Branch}
    (stands : setting.Stands act callers store.frames pending steps (.stmt (.cond position condition
      body (done ++ rest))) steps) :
    setting.Leads act callers none (chooseBranch rest pending store) := by
  cases rest with
  | nil =>
    exact .finished stands ((condition.quiet.append body.quiet).append (branches_quiet _))
  | cons branch rest =>
    obtain ⟨place, test, block⟩ := branch
    cases test with
    | none => exact .enters stands .branch rfl
    | some test => exact .part stands .clause rfl

include yields

variable (permitted : code.Permits contract ⟨.resume value, work :: pending, store⟩)

include permitted

theorem leads_fill_stmt (is : node = .stmt stmt) :
    setting.Leads act callers (code.assignment? ⟨.resume value, work :: pending, store⟩)
      (code.resume value work pending store) := by
  subst is
  have back := hole.behind stands
  cases hole with
  | @assign tag name line expr final =>
    rw [List.append_nil] at stands
    exact leads_assign permitted stands (yields expr rfl)
  | @storeValue tag slot line expr base index final => exact .part (back rfl) .storeBase rfl
  | @storeBase tag slot line held expr base index final => exact .part (back rfl) .storeIndex rfl
  | @storeIndex tag slot line held container expr base index final =>
    have result := replaceElement_works container value held store.world
    rw [Code.resume]
    unfold storeElement Store.act
    cases found : replaceElement container value held store.world with
    | ok old world =>
      simp only [found]
      exact .finished (back rfl) (expr.quiet.append (base.quiet.append index.quiet))
    | error cause world =>
      rw [found] at result
      simp only [found]
      exact .failure (back rfl) (Cause.isUnbound_of_work result)
  | @condition position line condition body branches =>
    cases value with
    | bool holds =>
      cases holds with
      | true => exact .enters (back rfl) .body rfl
      | false =>
        rw [← List.nil_append branches] at back
        exact leads_branches (back rfl)
    | _ => exact .failure (back rfl) rfl
  | @clause position line condition body done place test block rest =>
    cases value with
    | bool holds =>
      cases holds with
      | true => exact .enters (back rfl) .branch rfl
      | false =>
        rw [List.append_cons] at back
        exact leads_branches (back rfl)
    | _ => exact .failure (back rfl) rfl
  | body | branch =>
    exact .finished (back rfl)
      (((Expr.quiet _).append (Block.quiet _)).append (branches_quiet _))
  | @loopTest position condition body =>
    cases value with
    | bool holds =>
      cases holds with
      | true => exact .enters (back rfl) .loopBody rfl
      | false => exact .finished (back rfl) (condition.quiet.append body.quiet)
    | _ => exact .failure (back rfl) rfl
  | @loopBody position condition body =>
    rw [Code.resume]
    cases store.returning with
    | some => exact .finished (back rfl) (condition.quiet.append body.quiet)
    | none => exact .part (back rfl) .loopTest rfl
  | @eachSource tag binder source body =>
    cases value with
    | array place => exact leads_eachSource (back rfl) rfl
    | _ => exact .failure (back rfl) rfl
  | @eachBody tag binder source body rest =>
    have inside := stands.back (Program.before_quiet body.quiet)
    rw [Code.resume]
    cases store.returning with
    | none => exact leads_iterate inside
    | some =>
      obtain ⟨scope, id, -, shape, -⟩ := setting.loop stands.within
      refine .close (inside.here.trans shape) (congrArg Frames.pop stands.frames) fun next same => ?_
      exact .resume stands.waiting
        (same.trans (Program.before_quiet (each_quiet _ _ _ body.quiet)).symm) (by simp)
  | @ret position expr => exact .finished (back rfl) expr.quiet

/-- **A value is handed to waiting work.** -/
theorem leads_fill :
    setting.Leads act callers (code.assignment? ⟨.resume value, work :: pending, store⟩)
      (code.resume value work pending store) := by
  cases node with
  | expr expr => exact leads_fill_expr hole stands rfl
  | stmt stmt => exact leads_fill_stmt hole stands yields permitted rfl
  | block block =>
    cases hole with
    | block => exact leads_proceed stands

end Fill

theorem leads_abort {part : Node} {offset : List ScopeStep} (hole : Hole work node offset part)
    (stands : setting.Stands act callers store.frames pending steps node (steps ++ offset))
    (bound : fault.cause.isUnbound = false) :
    setting.Leads act callers none (Code.abort fault work pending store) := by
  have other : work.isCall = false := by cases hole <;> rfl
  unfold Code.abort
  simp only [other, Bool.false_eq_true, if_false]
  split
  · rename_i owns
    obtain ⟨layer, shape⟩ := hole.layers_inside owns Resolver.Quiet.nil.local
    rw [List.append_nil] at shape
    exact .close (stands.here.trans shape) (congrArg Frames.pop stands.frames) fun next same =>
      .unwind stands.waiting same bound
  · rename_i plain
    exact .failure (stands.back (hole.layers_same (Bool.eq_false_iff.mpr plain))) bound

/-! ### Every step -/

theorem leads_resume
    (stands : setting.Stands act callers store.frames (work :: pending) steps node (steps ++
      node.scopeSteps)) (above : work :: pending ≠ bottom.pending)
    (permitted : code.Permits contract ⟨.resume value, work :: pending, store⟩)
    (yields : ∀ expr, node = .expr expr → contract.yields expr value) :
    setting.Leads act callers (code.assignment? ⟨.resume value, work :: pending, store⟩)
      (code.resume value work pending store) := by
  obtain ⟨sound, frames, waiting, here⟩ := stands
  generalize shape : work :: pending = all at waiting
  induction waiting with
  | bottom => exact absurd shape above
  | work hole waiting _ =>
    cases shape
    exact leads_fill hole ⟨sound, frames, waiting, here⟩ yields permitted
  | value _ ih => exact ih nofun sound here shape
  | call waiting same resolved within _ =>
    cases shape
    have back := here.trans (Program.before_quiet (Block.quiet _))
    refine leads_ended sound within back (congrArg Frames.pop frames) ?_
    refine .resume waiting (same.trans (Program.before_quiet (Expr.quiet _)).symm) fun expr is => ?_
    obtain rfl := Node.expr.inj is
    exact setting.call_yields (waiting.within setting.inside) resolved

theorem leads_unwind
    (stands : setting.Stands act callers store.frames (work :: pending) steps node steps)
    (above : work :: pending ≠ bottom.pending) (bound : fault.cause.isUnbound = false) :
    setting.Leads act callers none (Code.abort fault work pending store) := by
  obtain ⟨sound, frames, waiting, here⟩ := stands
  generalize shape : work :: pending = all at waiting
  induction waiting with
  | bottom => exact absurd shape above
  | work hole waiting _ =>
    cases shape
    exact leads_abort hole ⟨sound, frames, waiting, here⟩ bound
  | value _ ih => exact ih sound here shape
  | call waiting same resolved within _ =>
    cases shape
    exact leads_ended sound within here (congrArg Frames.pop frames) (.unwind waiting same bound)

/-- **Every step follows the program**, until what was to be done is over. -/
theorem Code.step_leads (setting : Setting program policy code contract bottom)
    {config next : Config} (sound : Sound (program.promise policy contract) (act :: callers))
    (frames : config.store.frames = act.frames)
    (placed : Placed program policy code contract bottom config.control config.pending act callers)
    (above : config.control.isOver = true → config.pending ≠ bottom.pending)
    (permitted : code.Permits contract config) (step : code.step config = .next next) :
    setting.Leads act callers (code.assignment? config) next := by
  obtain ⟨control, pending, store⟩ := config
  cases placed with
  | eval waiting here =>
    cases step
    exact leads_eval ⟨sound, frames, waiting, here⟩
  | exec waiting here =>
    cases step
    exact leads_exec ⟨sound, frames, waiting, here⟩
  | enter waiting here =>
    cases step
    exact leads_enter ⟨sound, frames, waiting, here⟩
  | resume waiting here yields =>
    cases pending with
    | nil => cases step
    | cons work pending =>
      cases step
      exact leads_resume ⟨sound, frames, waiting, here⟩ (above rfl) permitted yields
  | unwind waiting here bound =>
    cases pending with
    | nil => cases step
    | cons work pending =>
      cases step
      exact leads_unwind ⟨sound, frames, waiting, here⟩ (above rfl) bound

end Steps

end ScopedScript

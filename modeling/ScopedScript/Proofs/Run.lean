/-
**Runs of accepted scripts.**

A run starts at the beginning of the program with the built-in values, and every step of it follows
the program:

* `Code.after`: the configuration after a number of steps; `Code.run_fault` says that a run fails
  where one of these configurations fails;
* `Standing`: a configuration at a place whose frames go with the layers there;
* `Setting.next`, `Setting.after`: one step and many steps keep this up;
* `Script.code_of_compile`, `Setting.start`: a compiled script has an accepted program, and its first
  configuration stands at the beginning.
-/

import ScopedScript.Proofs.Continuation
import ScopedScript.Proofs.Numbering
import ScopedScript.Script

set_option linter.unusedSectionVars false

namespace ScopedScript

/-! ### Steps in a row -/

namespace Code

variable {code : Code} {config : Config}

/-- The configuration after one step, if the run goes on. -/
def next? (code : Code) (config : Config) : Option Config :=
  match code.step config with
  | .next config => some config.tidied
  | _ => none

/-- The configuration after a number of steps, if the run gets that far. -/
def after (code : Code) : Nat → Config → Option Config
  | 0, config => some config
  | steps + 1, config => (code.next? config).bind (code.after steps)

theorem after_add (first second : Nat) :
    code.after (first + second) config = (code.after first config).bind (code.after second) := by
  induction first generalizing config with
  | zero => rw [Nat.zero_add, after, Option.bind_some]
  | succ first ih =>
    rw [Nat.succ_add, after, after, Option.bind_assoc]
    exact congrArg _ (funext fun next => ih)

theorem after_one : code.after 1 config = code.next? config := Option.bind_fun_some _

theorem after_succ (steps : Nat) :
    code.after (steps + 1) config = (code.after steps config).bind code.next? := by
  rw [after_add]
  exact congrArg _ (funext fun _ => after_one)

/-- For some steps the work above `below` is not over. -/
def Lasts (code : Code) (steps : Nat) (config : Config) (below : List Pending) : Prop :=
  ∀ earlier < steps, ∀ middle, code.after earlier config = some middle →
    middle.control.isOver = true → middle.pending ≠ below

/-- **Induction along a run:** what holds where it starts and is kept by each step holds at its end. -/
@[elab_as_elim]
theorem after_induction {motive : Nat → Config → Prop} {steps : Nat} {last : Config}
    (start : motive 0 config)
    (next : ∀ count < steps, ∀ middle later, code.after count config = some middle →
      code.next? middle = some later → motive count middle → motive (count + 1) later)
    (reached : code.after steps config = some last) : motive steps last := by
  induction steps generalizing last with
  | zero =>
    cases reached
    exact start
  | succ steps ih =>
    rw [after_succ] at reached
    obtain ⟨middle, before, found⟩ := Option.bind_eq_some_iff.mp reached
    refine next steps (Nat.lt_succ_self steps) middle last before found (ih ?_ before)
    exact fun count early => next count (Nat.lt_succ_of_lt early)

theorem step_of_next? {next : Config} (found : code.next? config = some next) :
    ∃ middle, code.step config = .next middle ∧ middle.tidied = next := by
  unfold next? at found
  split at found
  · rename_i middle step
    exact ⟨middle, step, Option.some.inj found⟩
  · cases found

theorem run_fault {steps : Nat} {fault : Fault} {store : Store}
    (failed : code.run steps config = (.fault fault, store)) :
    ∃ count last, code.after count config = some last ∧ code.step last = .failed fault store := by
  induction steps generalizing config with
  | zero => cases failed
  | succ steps ih =>
    rw [run] at failed
    split at failed
    · rename_i next step
      obtain ⟨count, last, reached, fails⟩ := ih failed
      refine ⟨count + 1, last, ?_, fails⟩
      rw [after, next?, step]
      exact reached
    · cases failed
    · rename_i step
      cases failed
      exact ⟨0, config, rfl, step⟩

/-- A failure ends a run only when no work waits. -/
theorem step_failed {fault : Fault} {store : Store} (step : code.step config = .failed fault store) :
    config = ⟨.unwind fault, [], store⟩ := by
  unfold Code.step at step
  split at step <;> first | cases step; rfl | cases step

/-- Nothing follows when no work waits and what was to be done is over. -/
theorem next?_over (finished : config.control.isOver = true) (last : config.pending = []) :
    code.next? config = none := by
  obtain ⟨control, pending, store⟩ := config
  subst last
  cases control with
  | resume | unwind => rfl
  | eval | exec | enter => cases finished

theorem next?_name {tag : Tag} {name : String} {pending : List Pending} {store : Store}
    {value : Value} (found : code.lookup store tag.id name = .ok value) :
    code.next? ⟨.eval (.name tag name), pending, store⟩ =
      some (Config.tidied ⟨.resume value, pending, store⟩) := by
  have step : code.step ⟨.eval (.name tag name), pending, store⟩ =
      .next (settle tag.position.line (code.lookup store tag.id name) pending store) := rfl
  rw [next?, step, found]
  rfl

theorem pending_of_next? {next : Config} (found : code.next? config = some next)
    (finished : config.control.isOver = true) : config.pending ≠ [] := by
  intro last
  rw [next?_over finished last] at found
  cases found

end Code

namespace Config

variable (config : Config)

@[simp] theorem tidied_control : config.tidied.control = config.control := by
  unfold tidied
  split <;> rfl

@[simp] theorem tidied_pending : config.tidied.pending = config.pending := by
  unfold tidied
  split <;> rfl

@[simp] theorem tidied_frames : config.tidied.store.frames = config.store.frames := by
  unfold tidied
  split <;> rfl

end Config

/-! ### Standing at a place -/

/-- A configuration at a place, whose frames go with the layers of the place. -/
structure Standing (program : Program) (policy : Redeclaration) (code : Code) (contract : Contract)
    (bottom : Bottom) (act : Activation) (callers : List Activation) (config : Config) : Prop where
  frames : config.store.frames = act.frames
  sound : Sound (program.promise policy contract) (act :: callers)
  placed : Placed program policy code contract bottom config.control config.pending act callers

section Steps

variable {program : Program} {policy : Redeclaration} {code : Code} {contract : Contract}
  {bottom : Bottom} {act : Activation} {callers : List Activation} {config : Config}
  (setting : Setting program policy code contract bottom)
  (standing : Standing program policy code contract bottom act callers config)

include setting standing

/-- The layers are those of a place in the program. -/
theorem Setting.place :
    ∃ steps, steps <+: program.scopeSteps ∧ act.layers = (program.before policy steps).layers := by
  obtain ⟨control, pending, store⟩ := config
  cases standing.placed with
  | eval waiting here | exec waiting here | enter waiting here | unwind waiting here =>
    exact ⟨_, (List.prefix_append _ _).trans (waiting.within setting.inside).steps_isPrefix, here⟩
  | resume waiting here => exact ⟨_, (waiting.within setting.inside).steps_isPrefix, here⟩

theorem Setting.apart : (act.layers.map Layer.scope).Nodup := by
  obtain ⟨steps, -, here⟩ := setting.place standing
  rw [here]
  exact program.layers_apart policy steps

/-- **A step leads from a place to a place.** -/
theorem Setting.next {next : Config}
    (above : config.control.isOver = true → config.pending ≠ bottom.pending)
    (permitted : code.Permits contract config) (found : code.next? config = some next) :
    ∃ act' callers', Standing program policy code contract bottom act' callers' next ∧
      Transition (program.promise policy contract) (program.resolve policy).tree.Final
        (act :: callers) (code.assignment? config) (act' :: callers') := by
  obtain ⟨middle, step, rfl⟩ := Code.step_of_next? found
  obtain ⟨act', callers', frames, placed, transition⟩ :=
    Code.step_leads setting standing.sound standing.frames standing.placed above permitted step
  refine ⟨act', callers', ⟨?_, transition.sound standing.sound (setting.apart standing), ?_⟩,
    transition⟩
  · rw [Config.tidied_frames, frames]
  · rw [Config.tidied_control, Config.tidied_pending]
    exact placed

/-- **A run stays at places** until what was to be done is over. -/
theorem Setting.after {steps : Nat} {last : Config}
    (above : code.Lasts steps config bottom.pending)
    (permitted : ∀ earlier < steps, ∀ middle, code.after earlier config = some middle →
      code.Permits contract middle)
    (reached : code.after steps config = some last) :
    ∃ act' callers', Standing program policy code contract bottom act' callers' last := by
  refine Code.after_induction ⟨act, callers, standing⟩ ?_ reached
  rintro count early middle later before found ⟨act', callers', stands⟩
  obtain ⟨act'', callers'', stands, -⟩ := setting.next stands (above count early middle before)
    (permitted count early middle before) found
  exact ⟨act'', callers'', stands⟩

end Steps

/-! ### The beginning of a run -/

theorem ok_of_bind {ε α β : Type} {first : Except ε α} {second : α → Except ε β} {result : β}
    (done : first >>= second = .ok result) :
    ∃ middle, first = .ok middle ∧ second middle = .ok result := by
  cases first with
  | ok middle => exact ⟨middle, rfl, done⟩
  | error => cases done

theorem Program.of_analyze {program : Program} {options : Options} {analysis : Analysis}
    (analyzed : program.analyze options = .ok analysis) :
    (program.resolve options.redeclaration).problems = [] ∧
      analysis.tree = (program.resolve options.redeclaration).tree ∧
      analysis.resolutions = (program.resolve options.redeclaration).resolutions ∧
      analysis.types = (program.check (program.resolve options.redeclaration)).nodeTypes ∧
      analysis.declTypes = (program.check (program.resolve options.redeclaration)).declTypes := by
  unfold Program.analyze at analyzed
  simp only at analyzed
  split at analyzed
  · rename_i clean
    cases analyzed
    have clean := List.isEmpty_iff.mp clean
    exact ⟨(List.append_eq_nil_iff.mp (List.append_eq_nil_iff.mp clean).1).1, rfl, rfl, rfl, rfl⟩
  · cases analyzed

namespace Script

variable {source : String} {options : Options} {script : Script}

theorem of_compile (compiled : Script.compile source options = .ok script) :
    script.program.ids.Nodup ∧ script.program.analyze options = .ok script.analysis ∧
      script.options = options := by
  obtain ⟨lexemes, -, compiled⟩ := ok_of_bind compiled
  obtain ⟨program, parsed, compiled⟩ := ok_of_bind compiled
  obtain ⟨analysis, analyzed, compiled⟩ := ok_of_bind compiled
  cases compiled
  exact ⟨Program.parse_ids_nodup parsed, analyzed, rfl⟩

/-- A compiled script has an accepted program, and its code is the code of that program. -/
theorem code_of_compile (compiled : Script.compile source options = .ok script) :
    script.code.Of script.program options.redeclaration := by
  obtain ⟨distinct, analyzed, -⟩ := of_compile compiled
  obtain ⟨clean, tree, resolutions, -⟩ := Program.of_analyze analyzed
  exact ⟨⟨distinct, clean⟩, tree, resolutions, rfl⟩

/-- A text compiles to a script that passes a test. -/
theorem exists_compiled {property : Script → Prop} (test : Script → Bool)
    (passes : (Script.compile source options).toOption.any test = true)
    (holds : ∀ script, Script.compile source options = .ok script → test script = true →
      property script) :
    ∃ script, Script.compile source options = .ok script ∧ property script := by
  cases compiled : Script.compile source options with
  | error => rw [compiled] at passes; cases passes
  | ok script =>
    rw [compiled] at passes
    exact ⟨script, rfl, holds script compiled passes⟩

end Script

/-- At the beginning there is one layer, with the built-in names. -/
theorem Program.layers_nil (program : Program) (policy : Redeclaration) :
    ∃ names, (program.before policy []).layers = [⟨true, ScopeTree.root, names⟩] := by
  have formed := program.formed_before policy []
  obtain ⟨names, rest, shape⟩ := formed.layers_cons
  have ascent := formed.layers_ascent
  refine ⟨names, shape.trans ?_⟩
  rw [shape, List.map_cons] at ascent
  generalize scopes : rest.map Layer.scope = walk at ascent
  cases ascent with
  | last =>
    obtain rfl := List.map_eq_nil_iff.mp scopes
    rfl
  | next up => exact absurd (formed.tree.root.symm.trans up) nofun

theorem Script.firstStore_frames (host : Host) :
    ∃ bindings, (Script.firstStore host).frames = ⟨#[⟨ScopeTree.root, none, bindings⟩]⟩ ∧
      ∀ constant : Constant, ∃ value, bindings.get? constant.name = some value ∧
        value.ty = constant.ty := by
  refine ⟨_, rfl, fun constant => ?_⟩
  cases constant <;> exact ⟨_, rfl, rfl⟩

theorem Export.constant_of_mem {name : String} {ty : Ty}
    (provided : ⟨name, .constant ty⟩ ∈ Export.standard) :
    ∃ constant : Constant, constant.name = name ∧ constant.ty = ty := by
  obtain ⟨library, -, provided⟩ := List.mem_flatMap.mp provided
  rcases List.mem_append.mp provided with value | function
  · obtain ⟨constant, -, same⟩ := List.mem_map.mp value
    cases same
    exact ⟨constant, rfl, rfl⟩
  · obtain ⟨builtin, -, same⟩ := List.mem_map.mp function
    cases same

/-- What has a value at the beginning is a built-in value. -/
theorem Program.initial_held {program : Program} {policy : Redeclaration} {layer : Layer}
    {name : String} {id : DeclId} (member : layer ∈ (program.before policy []).layers)
    (named : (name, id) ∈ layer.names) (held : (program.resolve policy).tree.Holds id) :
    ∃ (constant : Constant) (decl : Decl), constant.name = name ∧
      (program.resolve policy).tree.decls[id]? = some decl ∧
      decl.kind = .builtin (.constant constant.ty) := by
  obtain ⟨decl, stored, rfl, -⟩ := (program.formed_before policy []).listed member named
  obtain ⟨entry, provided, same, kind⟩ := initial_decls stored
  have grows : (program.before policy []).tree.Grows (program.resolve policy).tree :=
    Program.grows_before List.nil_prefix
  obtain ⟨late, stored', older⟩ := grows.decls stored
  obtain ⟨late', stored'', plain⟩ := held
  obtain rfl : late = late' := Option.some.inj (stored'.symm.trans stored'')
  obtain ⟨name, entry⟩ := entry
  cases entry with
  | function signature =>
    rw [older.isFunction_eq, Decl.isFunction, kind] at plain
    cases plain
  | constant ty =>
    obtain ⟨constant, rfl, rfl⟩ := Export.constant_of_mem provided
    refine ⟨constant, late, same.symm, stored', ?_⟩
    have kinds := older.kind
    rw [kind] at kinds
    generalize late.kind = last at kinds
    cases kinds
    rfl

/-- **The first configuration stands at the beginning of the program.** -/
theorem Setting.start {script : Script} {policy : Redeclaration} {contract : Contract}
    (setting : Setting script.program policy script.code contract (.whole script.program))
    (host : Host) :
    ∃ act, Standing script.program policy script.code contract (.whole script.program) act []
      (script.start host) := by
  obtain ⟨names, shape⟩ := script.program.layers_nil policy
  obtain ⟨bindings, frames, bound⟩ := Script.firstStore_frames host
  have waiting : Waiting script.program policy script.code (.whole script.program) [] []
      (.block script.program.body) [] := .bottom
  refine ⟨⟨0, ⟨#[⟨ScopeTree.root, none, bindings⟩]⟩, [⟨true, ScopeTree.root, names⟩]⟩, frames,
    .last ?_, .enter waiting shape.symm⟩
  refine ⟨?_, Nat.one_pos, ?_, [0], .last rfl, .cons ⟨by simp, _, rfl, rfl, ?_⟩ .nil⟩
  · intro number parent link
    cases number <;> cases link
  · intro number above inside
    change 0 < number at above
    change number < 1 at inside
    omega
  · intro name id named held
    obtain ⟨constant, decl, rfl, stored, kind⟩ :=
      Program.initial_held (shape ▸ List.mem_singleton.mpr rfl) named held
    obtain ⟨value, found, ty⟩ := bound constant
    exact ⟨value, found, fun _ => setting.valid.constant stored kind ty⟩

/-- A configuration that a run of a script comes to. -/
def Script.Reaches (script : Script) (host : Host)
    (config : Config) : Prop :=
  ∃ steps, script.code.after steps (script.start host) = some config

/-- **What a run comes to stands at a place of the program.** -/
theorem Setting.stands {script : Script} {policy : Redeclaration} {contract : Contract}
    (setting : Setting script.program policy script.code contract (.whole script.program))
    {host : Host} {steps : Nat} {config : Config}
    (permitted : ∀ earlier < steps, ∀ middle,
      script.code.after earlier (script.start host) = some middle →
        script.code.Permits contract middle)
    (reached : script.code.after steps (script.start host) = some config) :
    ∃ act callers, Standing script.program policy script.code contract (.whole script.program) act
      callers config := by
  obtain ⟨act, standing⟩ := setting.start host
  refine setting.after standing ?_ permitted reached
  intro earlier early middle found finished last
  -- a run that is over does not go on
  obtain ⟨rest, rfl⟩ : ∃ rest, steps = earlier + (1 + rest) := ⟨steps - earlier - 1, by omega⟩
  rw [Code.after_add, found, Option.bind_some, Code.after_add, Code.after_one,
    Code.next?_over finished last] at reached
  cases reached

end ScopedScript

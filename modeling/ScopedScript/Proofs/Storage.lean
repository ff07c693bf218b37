/-
**Names and frames of a run.**

Two things hold of every run of a script that compiles, whatever its arguments:

* `Script.names_bound`: **definite assignment.** Every name that is read, assigned or called is
  resolved, the frame of its scope is on the chain in use, and a name that is read is bound there.
  So no run fails because a name has no value.
* `Script.chain_mirrors_scopes`: **frames mirror scopes.** The chain in use consists of one frame
  for each scope around the node in progress, from the inside out, and of no other frames.

Both come from `Setting.stands`, with a contract that asks nothing of values.
-/

import ScopedScript.Proofs.Run

namespace ScopedScript

variable {source : String} {options : Options} {code : Code} {tree : ScopeTree}
  {walk : List ScopeId} {program : Program} {policy : Redeclaration}

/-! ### A contract that asks nothing -/

/-- Every value is allowed everywhere. -/
def Contract.anything : Contract :=
  ⟨fun _ => True, fun _ => True, fun _ _ => True, fun _ _ => True⟩

theorem Contract.anything_valid (program : Program) (policy : Redeclaration) :
    Contract.anything.Valid program policy := by
  constructor <;> intros <;> trivial

theorem Script.setting {script : Script} (compiled : Script.compile source options = .ok script) :
    Setting script.program options.redeclaration script.code .anything (.whole script.program) :=
  ⟨Script.code_of_compile compiled, Contract.anything_valid _ _, .self _⟩

/-- Everything that a run reaches stands at a place of the program. -/
theorem Script.standing {script : Script} (compiled : Script.compile source options = .ok script)
    {host : Host} {config : Config}
    (reached : script.Reaches host config) :
    ∃ act callers, Standing script.program options.redeclaration script.code .anything
      (.whole script.program) act callers config := by
  obtain ⟨steps, reached⟩ := reached
  exact (Script.setting compiled).stands (fun _ _ _ _ _ _ => trivial) reached

/-! ### Names in use -/

namespace Config

/-- The name that a configuration is about to read. -/
def reads? : Config → Option Ident
  | ⟨.eval (.name tag name), _, _⟩ => some ⟨tag.id, name, tag.position⟩
  | _ => none

/-- The name that a configuration is about to assign. -/
def assigns? : Config → Option Ident
  | ⟨.resume _, .assign name _ :: _, _⟩ => some name
  | _ => none

/-- The name that a configuration is about to call, once all arguments have their values. -/
def calls? : Config → Option Ident
  | ⟨.eval (.call _ callee []), _, _⟩ => some callee
  | ⟨.resume _, .args callee _ _ [] :: _, _⟩ => some callee
  | _ => none

end Config

/-- The name that a configuration reads, and the value it gets. -/
def Code.read? (code : Code) (config : Config) : Option (Ident × Value) :=
  match config.reads?, (code.next? config).map Config.control with
  | some name, some (.resume value) => some (name, value)
  | _, _ => none

theorem Code.of_read? {config : Config} {name : Ident} {value : Value}
    (read : code.read? config = some (name, value)) : config.reads? = some name ∧
      (code.next? config).map Config.control = some (.resume value) := by
  unfold read? at read
  split at read
  · rename_i reads gives
    cases read
    exact ⟨reads, gives⟩
  · cases read

/-- A name stands for a declaration, and the frame of its scope is on the chain in use. -/
def Code.Finds (code : Code) (store : Store) (name : Ident) (decl : Decl) (number : Nat) : Prop :=
  ∃ resolution, code.analysis.resolutions[name.id]? = some resolution ∧
    code.analysis.tree.decls[resolution.decl]? = some decl ∧
    store.frames.frameFor store.current resolution.scope = some number

section Names

variable {program : Program} {policy : Redeclaration} {code : Code} {contract : Contract}
  {bottom : Bottom} {act : Activation} {callers : List Activation} {store : Store}
  {pending : List Pending} {steps : List ScopeStep}
variable {config : Config} {tag : Tag}

/-- Work other than a call waits in a node, for a part of it. -/
theorem Waiting.hole {work : Pending} {node : Node}
    (waiting : Waiting program policy code bottom (work :: pending) steps node callers)
    (above : work :: pending ≠ bottom.pending) (other : work ≠ .call) :
    ∃ before owner offset part, steps = before ++ offset ∧ part.scopeSteps = node.scopeSteps ∧
      Hole work owner offset part ∧
      Waiting program policy code bottom pending before owner callers := by
  generalize shape : work :: pending = all at waiting
  induction waiting with
  | bottom => exact absurd shape above
  | work hole waiting _ =>
    cases shape
    exact ⟨_, _, _, _, rfl, rfl, hole, waiting⟩
  | value _ ih => exact ih shape
  | call =>
    cases shape
    exact absurd rfl other

variable (setting : Setting program policy code contract bottom)

include setting

/-- A name that is read is used at a place of the program. -/
theorem Setting.uses {name : Ident}
    (standing : Standing program policy code contract bottom act callers config)
    (reads : config.reads? = some name) :
    ∃ steps, steps ++ [.use name] <+: program.scopeSteps ∧
      act.layers = (program.before policy steps).layers := by
  obtain ⟨control, pending, store⟩ := config
  unfold Config.reads? at reads
  split at reads
  · rename_i same
    cases same
    cases reads
    cases standing.placed with
    | eval waiting here => exact ⟨_, (waiting.within setting.inside).steps_isPrefix, here⟩
  · cases reads

theorem Setting.found_use {name : Ident}
    (sound : Sound (program.promise policy contract) (act :: callers))
    (frames : store.frames = act.frames) (here : act.layers = (program.before policy steps).layers)
    (within : steps ++ [.use name] <+: program.scopeSteps) :
    ∃ decl number, code.Finds store name decl number ∧
      (decl.isFunction = false → ∃ value, store.frames.get? number name.name = some value) := by
  obtain ⟨resolution, decl, number, noted, stored, place, bound⟩ :=
    setting.read sound frames here within
  rw [← setting.of.resolutions] at noted
  rw [← setting.of.tree] at stored
  exact ⟨decl, number, ⟨resolution, noted, stored, place⟩, fun plain =>
    (bound plain).imp fun value found => found.1⟩

theorem Setting.found_assign {name : Ident} {expr : Expr} {final : Bool}
    (sound : Sound (program.promise policy contract) (act :: callers))
    (frames : store.frames = act.frames)
    (here : act.layers = (program.before policy (steps ++ expr.scopeSteps)).layers)
    (within : (Node.block program.body).Within steps (.stmt (.assign tag (.name name) expr final))) :
    ∃ decl number, code.Finds store name decl number ∧ decl.isFunction = false := by
  have assigns := within.assign_isPrefix
  unfold Code.Finds
  rw [setting.of.resolutions, setting.of.tree]
  rcases setting.of.accepted.assign assigns with
    ⟨same, noted⟩ | ⟨inner, layer, outer, id, decl, around, -, -, noted, stored, -, plain, -⟩
  · obtain ⟨names, rest, shape⟩ :=
      (program.formed_before policy (steps ++ expr.scopeSteps)).layers_cons
    obtain ⟨decl, stored, -, older, -⟩ := Program.Accepted.declared assigns same
    obtain ⟨further, kind⟩ := older.assigned
    refine ⟨decl, store.current, ⟨_, noted, stored, ?_⟩, by rw [Decl.isFunction, kind]⟩
    rw [Store.current, frames]
    exact sound.fits.frameFor_top (here.trans shape)
  · have member : layer ∈ (program.before policy (steps ++ expr.scopeSteps)).layers := by
      rw [around]
      exact List.mem_append_right _ List.mem_cons_self
    obtain ⟨number, place, -⟩ := setting.frame sound frames here member
    exact ⟨decl, number, ⟨_, noted, stored, place⟩, plain⟩

/-- What a call finds: the frame of the scope of the name is the one in which a function of the
program goes on. -/
theorem Setting.found_call {callee : Ident} {args : List Expr}
    (sound : Sound (program.promise policy contract) (act :: callers))
    (frames : store.frames = act.frames) (here : act.layers = (program.before policy steps).layers)
    (within : (Node.block program.body).Within steps (.expr (.call tag callee args))) :
    ∃ decl number, code.Finds store callee decl number ∧
      ∀ node arity function, decl.kind = .function node arity →
        code.functions[node]? = some function →
        store.frames.frameFor store.current
          ((code.analysis.tree.parent? (code.scopeOf store function.id)).getD ScopeTree.root) =
            some number := by
  have uses := within.use_isPrefix
  obtain ⟨resolution, decl, number, noted, stored, place, -⟩ :=
    setting.read sound frames here uses
  refine ⟨decl, number, ⟨resolution, setting.of.resolutions ▸ noted, setting.of.tree ▸ stored,
    place⟩, fun node arity function kind found => ?_⟩
  rw [setting.of.functions] at found
  obtain ⟨tag, origin, inner, layer, outer, same, body⟩ :=
    setting.of.accepted.callee uses noted stored kind found
  obtain ⟨number', declaring, place'⟩ := setting.declaring sound frames here body
  rw [same, ← frames] at place'
  rw [declaring]
  exact place'.symm.trans place

/-- What is in use at a place is found. -/
theorem Setting.names_found (whole : bottom.pending = [])
    (standing : Standing program policy code contract bottom act callers config) :
    (∀ name, config.reads? = some name → ∃ decl number, code.Finds config.store name decl number ∧
      (decl.isFunction = false →
        ∃ value, config.store.frames.get? number name.name = some value)) ∧
    (∀ name, config.assigns? = some name →
      ∃ decl number, code.Finds config.store name decl number ∧ decl.isFunction = false) ∧
    (∀ name, config.calls? = some name → ∃ decl number, code.Finds config.store name decl number ∧
      ∀ node arity function, decl.kind = .function node arity →
        code.functions[node]? = some function →
        config.store.frames.frameFor config.store.current
          ((code.analysis.tree.parent? (code.scopeOf config.store function.id)).getD
            ScopeTree.root) = some number) := by
  obtain ⟨control, pending, store⟩ := config
  have ⟨frames, sound, placed⟩ := standing
  refine ⟨fun name reads => ?_, fun name assigns => ?_, fun name calls => ?_⟩
  · obtain ⟨steps, within, here⟩ := setting.uses standing reads
    exact setting.found_use standing.sound standing.frames here within
  · unfold Config.assigns? at assigns
    split at assigns
    · rename_i same
      cases same
      cases assigns
      cases placed with
      | resume waiting here yields =>
        obtain ⟨before, owner, offset, part, rfl, same, hole, below⟩ :=
          waiting.hole (by rw [whole]; nofun) nofun
        cases hole with
        | assign =>
          rw [List.append_nil, ← same] at here
          exact setting.found_assign sound frames here (below.within setting.inside)
    · cases assigns
  · unfold Config.calls? at calls
    split at calls
    · rename_i same
      cases same
      cases calls
      cases placed with
      | eval waiting here =>
        exact setting.found_call sound frames here (waiting.within setting.inside)
    · rename_i same
      cases same
      cases calls
      cases placed with
      | resume waiting here yields =>
        obtain ⟨before, owner, offset, part, rfl, same, hole, below⟩ :=
          waiting.hole (by rw [whole]; nofun) nofun
        rw [← same] at here
        have back := here.trans (hole.layers_behind rfl)
        cases hole with
        | args => exact setting.found_call sound frames back (below.within setting.inside)
    · cases calls

end Names

/-- **Definite assignment.** Every name that is read, assigned or called is resolved, and the frame
of its scope is on the chain in use; a name that is read, unless it is that of a function, is bound
there, and a function that is called goes on in that frame. Nothing ever fails because a name has no
value. -/
theorem Script.names_bound {source : String} {options : Options} {script : Script}
    (compiled : Script.compile source options = .ok script) (host : Host) :
    (∀ config, script.Reaches host config →
      (∀ line name, config.control ≠ .unwind ⟨line, .unbound name⟩) ∧
      (∀ name, config.reads? = some name →
        ∃ decl number, script.code.Finds config.store name decl number ∧
          (decl.isFunction = false →
            ∃ value, config.store.frames.get? number name.name = some value)) ∧
      (∀ name, config.assigns? = some name →
        ∃ decl number, script.code.Finds config.store name decl number ∧
          decl.isFunction = false) ∧
      (∀ name, config.calls? = some name →
        ∃ decl number, script.code.Finds config.store name decl number ∧
          ∀ node arity function, decl.kind = .function node arity →
            script.code.functions[node]? = some function →
            config.store.frames.frameFor config.store.current
              ((script.analysis.tree.parent? (script.code.scopeOf config.store function.id)).getD
                ScopeTree.root) = some number)) ∧
    ∀ line name, (script.runOn host).outcome ≠ .fault ⟨line, .unbound name⟩ := by
  have setting := Script.setting compiled
  have bound : ∀ config, script.Reaches host config →
      ∀ line name, config.control ≠ .unwind ⟨line, .unbound name⟩ := by
    rintro config reached line name same
    obtain ⟨act, callers, -, -, placed⟩ := Script.standing compiled reached
    rw [same] at placed
    cases placed with
    | unwind _ _ bound => cases bound
  refine ⟨fun config reached => ⟨bound config reached, ?_⟩, fun line name fails => ?_⟩
  · obtain ⟨act, callers, standing⟩ := Script.standing compiled reached
    exact setting.names_found rfl standing
  · unfold Script.runOn at fails
    split at fails
    · cases fails
    · rename_i outcome store _ ran
      obtain rfl : outcome = .fault ⟨line, .unbound name⟩ := fails
      obtain ⟨count, last, reached, step⟩ := Code.run_fault ran
      obtain rfl := Code.step_failed step
      exact bound _ ⟨count, reached⟩ line name rfl

/-- A text in which an inner function that calls itself reads a variable of the one around it. -/
def nesting : String :=
  "\n".intercalate ["def outer(n):", "  final seen = n", "  def inner(k):", "    if k > 0:",
    "      return inner(k - 1)", "    end", "    return seen", "  end", "  return inner(1)", "end",
    "outer(3)", ""]

/-- Nothing is unbound in calls within calls. -/
theorem Script.names_bound_inside : ∃ script, Script.compile nesting {} = .ok script ∧
    (∀ config, script.Reaches .bare config →
      (∀ line name, config.control ≠ .unwind ⟨line, .unbound name⟩) ∧
      ∀ name, config.reads? = some name →
        ∃ decl number, script.code.Finds config.store name decl number ∧
          (decl.isFunction = false →
            ∃ value, config.store.frames.get? number name.name = some value)) ∧
    ∀ line name, (script.runOn .bare).outcome ≠ .fault ⟨line, .unbound name⟩ := by
  refine Script.exists_compiled (fun _ => true) (by decide +kernel) fun script compiled _ => ?_
  obtain ⟨found, bound⟩ := Script.names_bound compiled .bare
  refine ⟨fun config reached => ?_, bound⟩
  obtain ⟨never, reads, -, -⟩ := found config reached
  exact ⟨never, reads⟩

/-! ### Frames and scopes -/

theorem ScopeTree.Grows.ascent {newer : ScopeTree} (grows : tree.Grows newer) {scope : ScopeId}
    (ascent : Ascent tree.links scope walk) : Ascent newer.links scope walk := by
  refine ascent.congr fun inside member => ?_
  obtain ⟨parent, link⟩ := Option.isSome_iff_exists.mp (ascent.known member)
  obtain ⟨entry, found, rfl⟩ := Option.map_eq_some_iff.mp link
  obtain ⟨entry', found', older⟩ := grows.scopes found
  rw [link, links, found', Option.map_some, older.parent]

/-- A walk outward ends at the root. -/
theorem ScopeTree.Formed.getLast_ascent (formed : tree.Formed) {scope : ScopeId}
    (ascent : Ascent tree.links scope walk) : walk.getLast? = some ScopeTree.root := by
  induction ascent with
  | @last scope top =>
    obtain ⟨entry, found, parent⟩ := Option.map_eq_some_iff.mp top
    by_contra other
    have other : scope ≠ ScopeTree.root := fun same => other (by rw [same]; rfl)
    obtain ⟨around, up, -⟩ := formed.inside found other
    rw [parent] at up
    cases up
  | next _ further ih =>
    obtain ⟨rest, rfl⟩ := further.cons_eq
    rw [List.getLast?_cons_cons, ih]

/-- Behind a node the scopes around are those before it. -/
theorem Node.scopes_behind {steps : List ScopeStep} (node : Node) :
    (program.before policy (steps ++ node.scopeSteps)).layers.map Layer.scope =
      (program.before policy steps).layers.map Layer.scope := by
  have isLocal : Resolver.Local policy node.scopeSteps := by
    cases node with
    | expr expr => exact expr.quiet.local
    | stmt stmt => exact stmt.isLocal
    | block block => exact block.quiet.local
  have formed := program.formed_before policy steps
  obtain ⟨entry, rest, shape⟩ := formed.stack_cons
  obtain ⟨entry', -, shape'⟩ := isLocal _ formed _ _ _ shape
  rw [Program.before_append, Resolver.layers, Resolver.layers, layersOf_scopes, layersOf_scopes,
    shape, shape']
  rfl

/-- The search for a scope on the chain finds the only frame of that scope. -/
theorem Activation.Fits.only_frame {promise : Promise} {act : Activation} {numbers : List Nat}
    {scope : ScopeId} (fits : act.Fits promise)
    (ascent : Ascent act.frames.links act.frames.newest numbers)
    (distinct : (numbers.map act.frames.scope).Nodup)
    (member : scope ∈ numbers.map act.frames.scope) :
    ∃ number ∈ numbers, act.frames.scope number = scope ∧
      act.frames.frameFor act.frames.newest scope = some number ∧
      ∀ other ∈ numbers, act.frames.scope other = scope → other = number := by
  obtain ⟨number, inside, rfl⟩ := List.mem_map.mp member
  have only : ∀ other ∈ numbers, act.frames.scope other = act.frames.scope number →
      other = number :=
    fun other there equal => List.inj_on_of_nodup_map distinct there inside equal
  refine ⟨number, inside, rfl, ?_, only⟩
  rw [Frames.frameFor_eq ascent fits.descend]
  cases found : numbers.find? fun index => act.frames.scope index = act.frames.scope number with
  | none => exact absurd (List.find?_eq_none.mp found number inside) (by simp)
  | some first =>
    rw [only first (List.mem_of_find?_eq_some found) (by simpa using List.find?_some found)]

/-- What a control is about: the node that it starts. A value or a failure is of a node that has
been started. -/
def Control.Concerns : Control → Node → Prop
  | .eval expr, node => node = .expr expr
  | .exec stmt, node => node = .stmt stmt
  | .enter block, node => node = .block block
  | .resume _, _ | .unwind _, _ => True

/-- At a place, the layers are of the scopes around the node in progress. -/
theorem Placed.scopes {contract : Contract} {bottom : Bottom} {control : Control}
    {pending : List Pending} {act : Activation} {callers : List Activation}
    (placed : Placed program policy code contract bottom control pending act callers) :
    ∃ steps node, Waiting program policy code bottom pending steps node callers ∧
      control.Concerns node ∧
      act.layers.map Layer.scope = (program.before policy steps).layers.map Layer.scope := by
  cases placed with
  | eval waiting here | exec waiting here | enter waiting here =>
    exact ⟨_, _, waiting, rfl, by rw [here]⟩
  | resume waiting here =>
    exact ⟨_, _, waiting, trivial, by rw [here]; exact Node.scopes_behind _⟩
  | unwind waiting here => exact ⟨_, _, waiting, trivial, by rw [here]⟩

/-- **Frames mirror scopes.** In every configuration that a run reaches, work waits for some node of
the program, the one in progress, and the scopes of the chain of frames in use are the scope in which
resolution visited that node, the scope around it, and so on to the root. No scope occurs twice, and
the search for the frame of a scope on the way finds the only one. -/
theorem Script.chain_mirrors_scopes {source : String} {options : Options} {script : Script}
    (compiled : Script.compile source options = .ok script) {host : Host}
    {config : Config} (reached : script.Reaches host config) :
    ∃ steps node callers scope scopes,
      Waiting script.program options.redeclaration script.code (.whole script.program)
        config.pending steps node callers ∧
      config.control.Concerns node ∧
      (Node.block script.program.body).Within steps node ∧
      scope = (script.program.before options.redeclaration steps).current ∧
      (config.store.frames.chain config.store.current).map config.store.frames.scope = scopes ∧
      Ascent script.analysis.tree.links scope scopes ∧
      script.analysis.tree.ancestors scope = scopes ∧
      scopes.getLast? = some ScopeTree.root ∧ scopes.Nodup ∧
      ∀ outer ∈ scopes, ∃ number ∈ config.store.frames.chain config.store.current,
        config.store.frames.scope number = outer ∧
        config.store.frames.frameFor config.store.current outer = some number ∧
        ∀ other ∈ config.store.frames.chain config.store.current,
          config.store.frames.scope other = outer → other = number := by
  have setting := Script.setting compiled
  have tree : script.analysis.tree = (script.program.resolve options.redeclaration).tree :=
    setting.of.tree
  obtain ⟨act, callers, frames, sound, placed⟩ := Script.standing compiled reached
  obtain ⟨steps, node, waiting, concerns, same⟩ := placed.scopes
  have within := waiting.within setting.inside
  have before : steps <+: script.program.scopeSteps :=
    (List.prefix_append _ _).trans within.steps_isPrefix
  have formed := script.program.formed_before options.redeclaration steps
  -- the scopes around the node, in the final tree
  have outward : Ascent script.analysis.tree.links
      (script.program.before options.redeclaration steps).current
      ((script.program.before options.redeclaration steps).layers.map Layer.scope) := by
    rw [tree]
    exact (Program.grows_before before).ascent formed.layers_ascent
  have final : script.analysis.tree.Formed := by
    rw [tree]
    exact (script.program.formed_before options.redeclaration script.program.scopeSteps).tree
  obtain ⟨numbers, ascent, scopes⟩ := sound.fits.chain_scopes
  have chain : config.store.frames.chain config.store.current = numbers := by
    rw [Store.current, frames]
    exact Frames.chain_eq ascent sound.fits.descend
  rw [same] at scopes
  have distinct := outward.nodup final.descend
  refine ⟨steps, node, callers, _, _, waiting, concerns, within, rfl, ?_, outward,
    ScopeTree.ancestors_eq outward final.descend, final.getLast_ascent outward, distinct, ?_⟩
  · rw [chain, frames, scopes]
  · intro outer member
    rw [chain, Store.current, frames]
    rw [← scopes] at member distinct
    exact sound.fits.only_frame ascent distinct member

/-- In a call of an inner function from itself, nine frames exist and six of them are in use. -/
theorem Script.chain_mirrors_scopes_inside : ∃ script, Script.compile nesting {} = .ok script ∧
    ∃ config scope, script.Reaches .bare config ∧ config.store.frames.table.size = 9 ∧
      (config.store.frames.chain config.store.current).length = 6 ∧
      (config.store.frames.chain config.store.current).map config.store.frames.scope =
        script.analysis.tree.ancestors scope ∧
      (script.analysis.tree.ancestors scope).Nodup := by
  refine Script.exists_compiled (fun script =>
    (script.code.after 45 (script.start .bare)).any fun config =>
      config.store.frames.table.size = 9 ∧
        (config.store.frames.chain config.store.current).length = 6) (by decide +kernel)
    fun script compiled passes => ?_
  obtain ⟨config, reached, sizes⟩ := (Option.any_eq_true _ _).mp passes
  obtain ⟨frames, chain⟩ := of_decide_eq_true sizes
  obtain ⟨steps, node, callers, scope, scopes, -, -, -, -, same, -, rfl, -, distinct, -⟩ :=
    Script.chain_mirrors_scopes compiled ⟨45, reached⟩
  exact ⟨config, scope, ⟨45, reached⟩, frames, chain, same, distinct⟩

end ScopedScript

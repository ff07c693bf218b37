/-
**Calls reach what their names refer to.**

In a program without problems every call can be made: its name refers to a function, built in or defined
by the program, that takes as many arguments as the call has. A call of a function of the program runs
the body of the definition that declared it, with every parameter bound to its argument:

* `Program.functionTable_of_within`: the table of functions holds every definition;
* `Program.Defines`, `Program.Accepted.defines`: a declared function has one definition, whose name
  refers to the declaration;
* `Program.Accepted.params_nodup`, `bindParams_get?`: parameters have different names, so each of them
  keeps its argument;
* `Program.Accepted.callable`: a call has as many arguments as what its name refers to takes;
* `Upkeep.dispatch`: the number of arguments of a call in progress, and how work fails;
* `Script.calls_dispatch`: **no call fails because of what is called or how many arguments there are.**
-/

import ScopedScript.Proofs.Annotation
import ScopedScript.Proofs.Balance
import ScopedScript.Proofs.TypeSoundness

namespace ScopedScript

variable {inner : Node} {node : NodeId} {callee : Ident}

/-! ### The table of functions -/

namespace Program

variable {program : Program} {policy : Redeclaration}

theorem functionTable_isSome {function : Function} (listed : function ∈ program.body.functions) :
    ∃ found, program.functionTable[function.id]? = some found := by
  have kept : ∀ (functions : List Function) (table : Std.TreeMap NodeId Function),
      function.id ∈ table ∨ function ∈ functions →
        function.id ∈
          functions.foldl (fun table function => table.insert function.id function) table := by
    intro functions
    induction functions with
    | nil => exact fun table known => known.resolve_right List.not_mem_nil
    | cons first rest ih =>
      intro table known
      refine ih _ ?_
      rcases known with known | known
      · exact .inl (Std.TreeMap.mem_insert.mpr (.inr known))
      · rcases List.mem_cons.mp known with rfl | known
        · exact .inl Std.TreeMap.mem_insert_self
        · exact .inr known
  have member : function.id ∈ program.functionTable := kept _ _ (.inr listed)
  exact ⟨_, Std.TreeMap.getElem?_eq_some_getElem member⟩

/-- **Every definition of a program is in the table of functions**, if all numbers differ. -/
theorem functionTable_of_within (distinct : program.ids.Nodup) {place : List ScopeStep} {tag : Tag}
    {name : Ident} {params : List Ident} {body : Block}
    (within : (Node.block program.body).Within place (.stmt (.define tag name params body))) :
    program.functionTable[tag.id]? = some ⟨tag.id, name, params, body⟩ := by
  have listed : (⟨tag.id, name, params, body⟩ : Function) ∈ program.body.functions :=
    within.functions List.mem_cons_self
  obtain ⟨found, known⟩ : ∃ found, program.functionTable[tag.id]? = some found :=
    functionTable_isSome listed
  obtain ⟨same, place', tag', within', number⟩ := function_within known
  have apart : (Node.block program.body).ids.Nodup := (List.nodup_cons.mp distinct).2
  obtain ⟨-, equal⟩ := within.unique apart within' List.mem_cons_self
    (by rw [← same, ← number]; exact List.mem_cons_self)
  cases equal
  rw [known, ← same]

/-! ### Definitions and their declarations -/

/-- A definition of the program whose name refers to a declaration. -/
def Defines (program : Program) (policy : Redeclaration) (id : DeclId) (function : Function) : Prop :=
  ∃ place tag scope, (Node.block program.body).Within place
      (.stmt (.define tag function.name function.params function.body)) ∧ tag.id = function.id ∧
    (program.resolve policy).resolutions[function.name.id]? = some ⟨scope, id⟩

end Program

theorem Node.define_of_introduces {step : ScopeStep} {arity : Nat} (mine : step ∈ inner.ownSteps)
    (introduces : step.Introduces (.function node arity)) :
    ∃ tag name params body, inner = .stmt (.define tag name params body) ∧
      step = .define name tag.id params.length ∧ node = tag.id ∧ arity = params.length := by
  have taken := takenBy_of_mem mine
  cases step with
  | enter | leave | use | parameter | assign => cases introduces
  | declare name kind =>
    -- the variables of loops and comprehensions are no functions
    cases introduces
    obtain ⟨owner, other | other⟩ := taken <;> cases other
  | define name number count =>
    cases introduces
    obtain ⟨tag, params, body, rfl, rfl, rfl⟩ := taken
    exact ⟨tag, name, params, body, rfl, rfl, rfl, rfl⟩

namespace Resolver

variable {resolver : Resolver} {name : Ident}

/-- A parameter without a complaint has a name that was free. -/
theorem free_of_clean {index : Nat} (clean : (resolver.parameter name index).Clean) :
    resolver.tree.getIn? resolver.current name.name = none := by
  cases found : resolver.tree.getIn? resolver.current name.name with
  | none => rfl
  | some id =>
    have problems := clean.1
    simp [parameter, found, complain, declare, bind] at problems

end Resolver

namespace Program.Accepted

variable {program : Program} {policy : Redeclaration} {id : DeclId} {decl : Decl} {node : NodeId}
  {arity : Nat} (accepted : program.Accepted policy)
variable {steps place : List ScopeStep} {name : Ident} {params : List Ident} {tag : Tag}

include accepted

theorem define_noted (within : steps ++ [.define name node arity] <+: program.scopeSteps) :
    (program.resolve policy).resolutions[name.id]? =
      some ⟨(program.before policy steps).current, (program.before policy steps).tree.decls.size⟩ := by
  rw [(noted accepted.distinct within List.mem_cons_self).1, accepted.define within]
  exact Resolver.resolutions_bind_self

/-- **A declared function has a definition**, the one in the table, whose name refers to it. -/
theorem defines (stored : (program.resolve policy).tree.decls[id]? = some decl)
    (kind : decl.kind = .function node arity) :
    ∃ function, program.Defines policy id function ∧ function.params.length = arity ∧
      program.functionTable[node]? = some function := by
  obtain ⟨earlier, step, first, introduces, rfl, -⟩ := introduced stored kind
  have taken : step ∈ (Node.block program.body).scopeSteps :=
    first.subset (List.mem_append_right _ List.mem_cons_self)
  obtain ⟨place, inner, within, mine⟩ := Node.step_within taken
  obtain ⟨tag, name, params, body, rfl, rfl, rfl, rfl⟩ := Node.define_of_introduces mine introduces
  refine ⟨⟨tag.id, name, params, body⟩, ⟨place, tag, _, within, rfl, accepted.define_noted first⟩, rfl,
    functionTable_of_within accepted.distinct within⟩

theorem kind_of_defines {function : Function} (defines : program.Defines policy id function) :
    ∃ decl, (program.resolve policy).tree.decls[id]? = some decl ∧
      decl.kind = .function function.id function.params.length := by
  obtain ⟨place, tag, scope, within, number, noted⟩ := defines
  have first : place ++ [.define function.name tag.id function.params.length] <+:
      program.scopeSteps :=
    ((List.prefix_append_right_inj place).mpr ⟨_, rfl⟩).trans within.steps_isPrefix
  rw [accepted.define_noted first] at noted
  obtain ⟨-, rfl⟩ := Resolution.mk.inj (Option.some.inj noted)
  obtain ⟨decl, stored, -, older, -⟩ := declared first (accepted.define first)
  exact ⟨decl, stored, by rw [older.function_iff.mpr rfl, number]⟩

/-- **There is one definition of a declared function.** -/
theorem defines_unique {function other : Function} (defines : program.Defines policy id function)
    (defines' : program.Defines policy id other) : other = function := by
  obtain ⟨decl, stored, kind⟩ := accepted.kind_of_defines defines
  obtain ⟨decl', stored', kind'⟩ := accepted.kind_of_defines defines'
  cases stored.symm.trans stored'
  obtain ⟨same, -⟩ := DeclKind.function.inj (kind.symm.trans kind')
  obtain ⟨place, tag, scope, within, number, -⟩ := defines
  obtain ⟨place', tag', scope', within', number', -⟩ := defines'
  obtain ⟨-, equal⟩ := within.unique accepted.distinct_body within' List.mem_cons_self
    (by rw [number, same, ← number']; exact List.mem_cons_self)
  obtain ⟨number, name, params, body⟩ := function
  obtain ⟨number', name', params', body'⟩ := other
  cases equal
  cases same
  rfl

/-! ### Parameters -/

/-- Parameters are declared in the scope of the function, each of them where its name is free. -/
theorem params_declared (within : steps ++ paramSteps params <+: program.scopeSteps) :
    (params.map Ident.name).Nodup ∧ ∀ param ∈ params,
      ((program.before policy (steps ++ paramSteps params)).tree.getIn?
        (program.before policy (steps ++ paramSteps params)).current param.name).isSome := by
  induction params using List.reverseRecOn with
  | nil => exact ⟨List.nodup_nil, nofun⟩
  | append_singleton earlier last ih =>
    rw [paramSteps_append, ← List.append_assoc] at within ⊢
    obtain ⟨distinct, known⟩ := ih ((List.prefix_append _ _).trans within)
    have clean := accepted.clean_take within
    have same := accepted.parameter within
    have formed := program.formed_before policy (steps ++ paramSteps earlier)
    rw [before_concat]
    generalize program.before policy (steps ++ paramSteps earlier) = resolver at *
    have free := Resolver.free_of_clean clean
    rw [same]
    constructor
    · rw [List.map_append, List.nodup_append]
      refine ⟨distinct, List.nodup_singleton _, ?_⟩
      intro name listed other single equal
      obtain ⟨param, member, rfl⟩ := List.mem_map.mp listed
      have taken := known param member
      rw [equal, List.mem_singleton.mp single, free] at taken
      cases taken
    · intro param member
      show ((resolver.declare last _).tree.getIn? resolver.current param.name).isSome
      rw [Resolver.getIn?_declare formed.current]
      split
      · rfl
      · rename_i other
        rcases List.mem_append.mp member with member | member
        · exact known param member
        · rw [List.mem_singleton.mp member] at other
          exact absurd rfl other

/-- **The parameters of a function have different names.** -/
theorem params_nodup {body : Block}
    (within : (Node.block program.body).Within place (.stmt (.define tag name params body))) :
    (params.map Ident.name).Nodup := by
  have opening : place ++ [.define name tag.id params.length, .enter .function tag.id] ++
      paramSteps params <+: program.scopeSteps := by
    refine List.IsPrefix.trans ⟨body.scopeSteps ++ [.leave], ?_⟩ within.steps_isPrefix
    simp [Node.scopeSteps, Stmt.scopeSteps]
  exact (accepted.params_declared opening).1

/-! ### The number of arguments -/

/-- **A call has as many arguments as what it calls takes.** -/
theorem callable (quiet : (program.check (program.resolve policy)).errors = []) {args : List Expr}
    (within : (Node.block program.body).Within place (.expr (.call tag callee args))) :
    ∃ resolution decl signature,
      (program.resolve policy).resolutions[callee.id]? = some resolution ∧
      (program.resolve policy).tree.decls[resolution.decl]? = some decl ∧
      Scoping.callable? decl.kind = some (args.length, signature) := by
  obtain ⟨resolution, decl, noted, stored⟩ := accepted.named_declared within List.mem_cons_self
  have found := Scoping.declOf?_eq_some.mpr ⟨resolution, noted, rfl, stored⟩
  have right : ∀ {diagnostic : Diagnostic}, .problem diagnostic ∉
      (program.resolve policy).callRegistrations tag callee args := no_problem quiet within
  have calls := (program.resolve policy).calls tag callee args
  generalize (program.resolve policy).callRegistrations tag callee args = all at calls right
  cases calls with
  | unknown missing => cases missing.symm.trans found
  | refused => exact absurd List.mem_cons_self right
  | defined found' takes | provided found' takes =>
    cases found.symm.trans found'
    exact ⟨resolution, decl, _, noted, stored, takes⟩

end Program.Accepted

/-- Binding names in a row in the newest frame: each keeps its value, as later names differ from it. -/
theorem bindRow_bindings {pairs : List (Ident × Value)} {store : Store} {table : Array Frame}
    {frame : Frame} (shape : store.frames.table = table.push frame)
    (distinct : (pairs.map fun pair => pair.1.name).Nodup) :
    ∃ bindings, (pairs.foldl (fun store pair => store.bindHere pair.1.name pair.2)
        store).frames.table = table.push { frame with bindings := bindings } ∧
      (∀ pair ∈ pairs, bindings.get? pair.1.name = some pair.2) ∧
      ∀ name ∉ pairs.map (fun pair => pair.1.name),
        bindings.get? name = frame.bindings.get? name := by
  induction pairs generalizing store frame with
  | nil => exact ⟨frame.bindings, shape, nofun, fun _ _ => rfl⟩
  | cons pair rest ih =>
    obtain ⟨fresh, distinct⟩ := List.nodup_cons.mp distinct
    have filled : (store.bindHere pair.1.name pair.2).frames.table =
        table.push { frame with bindings := frame.bindings.set pair.1.name pair.2 } :=
      Frames.set_newest shape
    obtain ⟨bindings, shape', bound, others⟩ := ih filled distinct
    refine ⟨bindings, shape', List.forall_mem_cons.mpr ⟨?_, bound⟩, fun name absent => ?_⟩
    · rw [others _ fresh]
      exact Bindings.get?_set_self _ _ _
    · obtain ⟨other, absent⟩ := not_or.mp (mt List.mem_cons.mpr absent)
      rw [others name absent]
      exact Bindings.get?_set_other _ _ other

/-- **Each parameter has its argument**, in the newest frame, if no two have one name. -/
theorem bindParams_get? {params : List Ident} {args : List Value} (store : Store) (parent : Nat)
    (scope : ScopeId) (distinct : (params.map Ident.name).Nodup)
    (count : args.length = params.length) :
    (bindParams params args (store.push parent scope)).current = store.frames.table.size ∧
    ∀ (index : Nat) param arg, params[index]? = some param → args[index]? = some arg →
      (bindParams params args (store.push parent scope)).frames.get? store.frames.table.size
        param.name = some arg := by
  have names : (params.zip args).map (fun pair => pair.1.name) = params.map Ident.name := by
    calc (params.zip args).map (fun pair => pair.1.name)
        = ((params.zip args).map Prod.fst).map Ident.name := by rw [List.map_map]; rfl
      _ = params.map Ident.name := by rw [List.map_fst_zip (Nat.le_of_eq count.symm)]
  rw [← names] at distinct
  have opened : (store.push parent scope).frames.table =
      store.frames.table.push ⟨scope, some parent, .empty⟩ := rfl
  obtain ⟨bindings, shape, bound, -⟩ := bindRow_bindings opened distinct
  change (bindParams params args (store.push parent scope)).frames.table = _ at shape
  constructor
  · rw [Store.current, Frames.newest, shape, Array.size_push, Nat.add_sub_cancel]
  · intro index param arg named given
    have member : (param, arg) ∈ params.zip args := by
      refine List.mem_of_getElem? (i := index) ?_
      rw [List.getElem?_zip_eq_some]
      exact ⟨named, given⟩
    rw [Frames.get?, shape, Array.getElem?_push, if_pos rfl, Option.bind_some]
    exact bound _ member

/-! ### Calls in progress -/

/-- The failures of a call that finds nothing to call, or not for that many arguments. -/
def Cause.ofDispatch : Cause → Bool
  | .type (.notFunction _) | .type .undefined | .type (.notProvided _)
  | .type (.argumentCount ..) => true
  | _ => false

theorem Cause.ofDispatch_eq_false {cause : Cause} (other : cause.ofCall = false) :
    cause.ofDispatch = false := by
  cases cause with
  | type fault =>
    cases fault with
    | notFunction | undefined | notProvided | argumentCount => cases other
    | _ => rfl
  | _ => rfl

/-- The arguments of a call in the program: those that have a value, the one being evaluated, and the
rest. -/
def Program.Calls (program : Program) (callee : Ident) (done : Nat) (rest : List Expr) : Prop :=
  ∃ place tag before item, (Node.block program.body).Within place
    (.expr (.call tag callee (before ++ item :: rest))) ∧ before.length = done

/-- Work that waits for an argument belongs to a call of the program, and no call fails to find what it
calls. -/
def Upkeep.dispatch (program : Program) (limit : Nat) (origin : Store) : Upkeep where
  limit := limit
  origin := origin
  bottom := []
  fits work := ∀ callee line before rest, work = .args callee line before rest →
    program.Calls callee before.size rest
  bears fault := fault.cause.ofDispatch = false
  fits_other work other := by
    rintro callee line before rest rfl
    cases other
  fits_args := by
    rintro callee line before expr rest fits value _ _ _ _ ⟨⟩
    obtain ⟨place, tag, earlier, item, within, count⟩ := fits _ _ _ _ rfl
    refine ⟨place, tag, earlier ++ [item], expr, by simpa using within, ?_⟩
    rw [List.length_append, Array.size_push, count]
    rfl
  bears_other line cause other := Cause.ofDispatch_eq_false other

namespace Script

variable {source : String} {options : Options} {script : Script} {host : Host} {config : Config} {call : Call}
variable {bound : Nat} {origin : Store}

/-- A call about to be made is a call of the program, with as many arguments. -/
theorem call_within (compiled : Script.compile source options = .ok script)
    (reached : script.Reaches host config)
    (holds : (Upkeep.dispatch script.program bound origin).Holds config)
    (about : config.call? = some call) :
    ∃ place tag exprs, (Node.block script.program.body).Within place
      (.expr (.call tag call.callee exprs)) ∧ exprs.length = call.args.length := by
  obtain ⟨act, callers, -, -, placed⟩ := Script.standing compiled reached
  unfold Config.call? at about
  split at about
  · cases about
    cases placed with
    | eval waiting _ =>
      exact ⟨_, _, _, waiting.within (Script.setting compiled).inside, rfl⟩
  · rename_i value callee line before below store
    cases about
    generalize shape : (⟨.resume value, .args callee line before [] :: below, store⟩ : Config) =
      config at holds
    obtain ⟨control, upper, fits, -, -⟩ := holds
    obtain ⟨-, same, -⟩ := Config.mk.inj shape
    have member : .args callee line before [] ∈ upper := by
      rw [← List.append_nil upper]
      exact same ▸ List.mem_cons_self
    obtain ⟨place, tag, earlier, item, within, count⟩ := fits _ member _ _ _ _ rfl
    refine ⟨place, tag, _, within, ?_⟩
    show (earlier ++ [item]).length = (before.push value).toList.length
    simp [count]
  · cases about

theorem resolved?_eq {resolution : Resolution} {decl : Decl}
    (noted : script.analysis.resolutions[node]? = some resolution)
    (stored : script.analysis.tree.decls[resolution.decl]? = some decl) :
    script.code.resolved? node = some (resolution, decl.kind) := by
  show (script.analysis.resolutions[node]?).bind _ = _
  rw [noted, Option.bind_some]
  show (script.analysis.tree.decls[resolution.decl]?).bind _ = _
  rw [stored]
  rfl

theorem next?_builtin {resolution : Resolution} {signature : Signature} {builtin : Builtin}
    (about : config.call? = some call)
    (resolved : script.code.resolved? call.callee.id =
      some (resolution, .builtin (.function signature)))
    (named : Builtin.ofName? call.callee.name = some builtin) :
    script.code.next? config = some (Config.tidied
      (perform call.line (builtin.call call.args) call.args call.below config.store)) := by
  rw [Code.next?, Code.step_of_call? about, Code.dispatch, resolved]
  simp only [named]

/-- **What a call of the program finds**: a built-in function or a definition, for so many arguments. -/
theorem call_finds (compiled : Script.compile source options = .ok script) {place : List ScopeStep}
    {tag : Tag} {exprs : List Expr}
    (within : (Node.block script.program.body).Within place (.expr (.call tag callee exprs))) :
    ∃ resolution decl, script.analysis.resolutions[callee.id]? = some resolution ∧
      script.analysis.tree.decls[resolution.decl]? = some decl ∧
      ((∃ builtin : Builtin, decl.kind = .builtin (.function builtin.signature) ∧
          Builtin.ofName? callee.name = some builtin ∧ exprs.length = builtin.signature.arity) ∨
        ∃ function, decl.kind = .function function.id exprs.length ∧
          script.program.Defines options.redeclaration resolution.decl function ∧
          script.code.functions[function.id]? = some function ∧
          exprs.length = function.params.length ∧
          (function.params.map Ident.name).Nodup) := by
  have of := Script.code_of_compile compiled
  obtain ⟨-, analyzed, -⟩ := of_compile compiled
  have quiet := Program.quiet_of_analyze analyzed
  obtain ⟨resolution, decl, signature, noted, stored, takes⟩ := of.accepted.callable quiet within
  refine ⟨resolution, decl, of.resolutions ▸ noted, of.tree ▸ stored, ?_⟩
  cases kind : decl.kind with
  | function node arity =>
    rw [kind] at takes
    cases takes
    obtain ⟨function, defines, count, found⟩ := of.accepted.defines stored kind
    obtain ⟨decl', stored', kind'⟩ := of.accepted.kind_of_defines defines
    cases stored.symm.trans stored'
    obtain ⟨rfl, -⟩ := DeclKind.function.inj (kind.symm.trans kind')
    obtain ⟨place, tag, scope, inside, -⟩ := id defines
    exact .inr ⟨function, rfl, defines, of.functions ▸ found, count.symm,
      of.accepted.params_nodup inside⟩
  | builtin provided =>
    cases provided with
    | function signature =>
      rw [kind] at takes
      obtain ⟨count, -⟩ := Prod.mk.inj (Option.some.inj takes)
      obtain ⟨builtin, named, -, rfl⟩ := of.accepted.provided within.use_isPrefix noted stored kind
      exact .inl ⟨builtin, rfl, named, count.symm⟩
    | constant => rw [kind] at takes; cases takes
  | _ => rw [kind] at takes; cases takes

/-- A call that finds what it calls does not fail to. -/
theorem dispatch_borne (compiled : Script.compile source options = .ok script)
    (reached : script.Reaches host config)
    (holds : (Upkeep.dispatch script.program bound origin).Holds config)
    (about : config.call? = some call) {next : Config} {fault : Fault}
    (found : script.code.next? config = some next) (raised : next.control = .unwind fault) :
    fault.cause.ofDispatch = false := by
  obtain ⟨place, tag, exprs, within, count⟩ := call_within compiled reached holds about
  obtain ⟨resolution, decl, noted, stored, finds⟩ := call_finds compiled within
  have resolved := resolved?_eq noted stored
  rcases finds with ⟨builtin, kind, named, arity⟩ | ⟨function, kind, -, defined, arity, -⟩
  · rw [kind] at resolved
    rw [next?_builtin about resolved named] at found
    cases found
    have spares := (builtin.call_spares (count.symm.trans arity)).act config.store
    rw [Config.tidied_control, perform_eq_settle] at raised
    cases result : (config.store.act (builtin.call call.args)).1 with
    | ok value => rw [result] at raised; cases raised
    | error cause =>
      rw [result] at raised spares
      cases raised
      exact Cause.ofDispatch_eq_false spares
  · rw [kind] at resolved
    obtain ⟨parent, declaring⟩ := declaring_of_call? compiled reached about resolved defined
    rw [Code.next?_of_valid about resolved defined (count.symm.trans arity) declaring] at found
    cases found
    rw [Config.tidied_control] at raised
    split at raised
    · cases raised
      rfl
    · cases raised

/-- **Every call of a run is one of the program, and finds what it calls.** -/
theorem reaches_dispatching (compiled : Script.compile source options = .ok script)
    (reached : script.Reaches host config) :
    (Upkeep.dispatch script.program script.code.maxCallDepth
      (firstStore host)).Holds config := by
  obtain ⟨steps, reached⟩ := reached
  have begins : (Upkeep.dispatch script.program script.code.maxCallDepth
      (firstStore host)).Holds (script.start host) :=
    .mk _ [] nofun nofun (.refl (Nat.zero_le _))
  refine begins.after rfl (Code.not_over_before reached) ?_ ?_ reached
  · rintro earlier - middle tag callee first rest before starts _ _ _ _ ⟨⟩
    obtain ⟨act, callers, -, -, placed⟩ := Script.standing compiled ⟨earlier, before⟩
    rw [starts] at placed
    cases placed with
    | eval waiting _ =>
      exact ⟨_, tag, [], first, waiting.within (Script.setting compiled).inside, rfl⟩
  · intro earlier _ middle next call fault before holds about found raised
    exact dispatch_borne compiled ⟨earlier, before⟩ holds about found raised

/-- **Accepted calls always find what they call.** In every configuration that a run reaches, no failure
says that something is no function, has no definition, is not provided, or gets a wrong number of
arguments; nor does the failure of a whole run. A call about to be made refers to a declaration. This is
a built-in function that takes as many arguments, and is performed; or a function with exactly one
definition, whose name refers to that declaration and which has as many parameters. Unless too many calls
are in progress, its body is entered, in a new frame in which each parameter has its argument. -/
theorem calls_dispatch (compiled : Script.compile source options = .ok script) (host : Host) :
    (∀ config, script.Reaches host config →
      (∀ fault, config.control = .unwind fault → fault.cause.ofDispatch = false) ∧
      ∀ call, config.call? = some call →
        ∃ resolution decl, script.analysis.resolutions[call.callee.id]? = some resolution ∧
          script.analysis.tree.decls[resolution.decl]? = some decl ∧
          ((∃ builtin : Builtin, decl.kind = .builtin (.function builtin.signature) ∧
              Builtin.ofName? call.callee.name = some builtin ∧
              call.args.length = builtin.signature.arity ∧
              script.code.next? config = some (Config.tidied (perform call.line
                (builtin.call call.args) call.args call.below config.store))) ∨
            ∃ function, script.program.Defines options.redeclaration resolution.decl function ∧
              (∀ other, script.program.Defines options.redeclaration resolution.decl other →
                other = function) ∧
              decl.kind = .function function.id function.params.length ∧
              call.args.length = function.params.length ∧
              (config.store.depth < options.maxCallDepth →
                ∃ next, script.code.next? config = some next ∧
                  next.control = .enter function.body ∧ next.pending = .call :: call.below ∧
                  next.store.current = config.store.frames.table.size ∧
                  ∀ (index : Nat) param arg, function.params[index]? = some param →
                    call.args[index]? = some arg →
                    next.store.frames.get? next.store.current param.name = some arg))) ∧
    ∀ fault, (script.runOn host).outcome = .fault fault →
      fault.cause.ofDispatch = false := by
  have spared : ∀ config, script.Reaches host config → ∀ fault,
      config.control = .unwind fault → fault.cause.ofDispatch = false := by
    intro config reached fault failed
    obtain ⟨control, upper, -, bears, -⟩ := reaches_dispatching compiled reached
    exact bears fault failed
  refine ⟨fun config reached => ⟨spared config reached, fun call about => ?_⟩, fun fault fails => ?_⟩
  · have holds := reaches_dispatching compiled reached
    obtain ⟨place, tag, exprs, within, count⟩ := call_within compiled reached holds about
    obtain ⟨resolution, decl, noted, stored, finds⟩ := call_finds compiled within
    have resolved := resolved?_eq noted stored
    refine ⟨resolution, decl, noted, stored, ?_⟩
    rcases finds with
      ⟨builtin, kind, named, arity⟩ | ⟨function, kind, defines, defined, arity, distinct⟩
    · rw [kind] at resolved
      exact .inl ⟨builtin, kind, named, count.symm.trans arity, next?_builtin about resolved named⟩
    · have accepted := (Script.code_of_compile compiled).accepted
      have given := count.symm.trans arity
      refine .inr ⟨function, defines, fun other => accepted.defines_unique defines, arity ▸ kind,
        given, fun room => ?_⟩
      rw [kind] at resolved
      obtain ⟨parent, declaring⟩ := declaring_of_call? compiled reached about resolved defined
      refine ⟨_, Code.next?_of_valid about resolved defined given declaring, ?_⟩
      rw [limit_of_compile compiled, if_neg (Nat.not_le_of_lt room)]
      obtain ⟨newest, bound⟩ := bindParams_get? config.store parent
        (script.code.scopeOf config.store function.id) distinct given
      rw [Config.tidied_control, Config.tidied_pending, Store.current, Config.tidied_frames]
      refine ⟨rfl, rfl, newest, fun index param arg named value => ?_⟩
      rw [show Frames.newest _ = _ from newest]
      exact bound index param arg named value
  · unfold Script.runOn at fails
    split at fails
    · cases fails
    · rename_i outcome store _ ran
      obtain rfl : outcome = .fault fault := fails
      obtain ⟨count, last, reached, step⟩ := Code.run_fault ran
      obtain rfl := Code.step_failed step
      exact spared _ ⟨count, reached⟩ fault rfl

/-- A text with a function of two parameters that has the name of a built-in function of one. -/
def subtracting : String :=
  "\n".intercalate ["def print(a, b):", "  return a - b", "end", "println(print(5, 3))", ""]

/-- Where names may be taken over, the call goes to the definition. -/
theorem calls_dispatch_subtracting :
    ∃ script, Script.compile subtracting { redeclaration := .shadow } = .ok script ∧
      ∃ config call function first second next, script.Reaches .bare config ∧
        config.call? = some call ∧ call.callee.name = "print" ∧
        (∃ id, script.program.Defines .shadow id function) ∧ function.params = [first, second] ∧
        script.code.next? config = some next ∧ next.control = .enter function.body ∧
        next.store.frames.get? next.store.current first.name = some (.int 5) ∧
        next.store.frames.get? next.store.current second.name = some (.int 3) := by
  refine Script.exists_compiled (fun script =>
    (script.code.after 9 (script.start .bare)).any fun config =>
      config.store.depth == 0 && config.call?.any fun call =>
        call.callee.name == "print" && call.args == [.int 5, .int 3]) (by decide +kernel)
    fun script compiled passes => ?_
  obtain ⟨config, reached, passes⟩ := (Option.any_eq_true _ _).mp passes
  obtain ⟨outermost, passes⟩ := Bool.and_eq_true_iff.mp passes
  obtain ⟨call, about, passes⟩ := (Option.any_eq_true _ _).mp passes
  obtain ⟨named, given⟩ := Bool.and_eq_true_iff.mp passes
  have named := eq_of_beq named
  have given := eq_of_beq given
  have reached : script.Reaches .bare config := ⟨9, reached⟩
  obtain ⟨resolution, decl, -, -, finds⟩ :=
    ((calls_dispatch compiled .bare).1 config reached).2 call about
  rcases finds with ⟨builtin, -, found, count, -⟩ | ⟨function, defines, -, -, count, enters⟩
  · rw [named] at found
    cases found
    rw [given] at count
    cases count
  · rw [given] at count
    obtain ⟨first, second, params⟩ := List.length_eq_two.mp count.symm
    obtain ⟨next, step, body, -, -, bound⟩ := enters (by rw [eq_of_beq outermost]; decide)
    rw [params, given] at bound
    exact ⟨config, call, function, first, second, next, reached, about, named, ⟨_, defines⟩, params,
      step, body, bound 0 first _ rfl rfl, bound 1 second _ rfl rfl⟩

end Script

end ScopedScript

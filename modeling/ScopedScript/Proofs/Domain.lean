/-
**No operation outside its domain.**

Analysis and machine look things up by number: scopes, declarations, rules, frames, items, arguments.
Here a program is any tree whatever, with nodes that share ids, so that tables keep the last of several
entries. Every lookup still finds what it looks for:

* `Code.Lasting`: a property of frames that is kept by all that a step does to frames;
  `Code.Lasting.step` for one step, `Script.reaches_lasting` for a run;
* `Frames.Grounded`: frames of scopes that exist, each inside an older one; `Frames.Grounded.walk`:
  then a walk outward from a frame comes to an end;
* `Builtin.call?`, `Value.load?`: calls and elements without defaults;
* `Program.domains_kept`: **neither analysis nor a run leaves the domain of an operation.**
-/

import ScopedScript.Proofs.Indices
import ScopedScript.Proofs.StaticScoping
import ScopedScript.Proofs.Strict
import ScopedScript.Proofs.Balance

namespace ScopedScript

/-! ### What a step does to frames -/

/-- A property of frames that lasts: names are bound, the newest frame is left, and frames of the
scopes of nodes are made inside frames that are there. -/
structure Code.Lasting (code : Code) (property : Frames → Prop) : Prop where
  set : ∀ {frames : Frames} (number : Nat) (name : String) (value : Value), property frames →
    property (frames.set number name value)
  pop : ∀ {frames : Frames}, property frames → property frames.pop
  child : ∀ {frames : Frames} {parent : Nat} (node : NodeId), property frames →
    parent < frames.table.size → property (frames.child parent
      ((code.analysis.tree.scopeOf? node).getD (frames.scope frames.newest)))

namespace Code.Lasting

variable {code : Code} {property : Frames → Prop} {pending : List Pending} {store : Store}

theorem perform (held : property store.frames) (line : Nat) (action : Action Value)
    (given : List Value) : property (perform line action given pending store).store.frames := by
  have kept : (store.act action).2.frames = store.frames := by rw [Store.act_eq]
  rw [perform_eq_settle]
  cases (store.act action).1 <;> exact kept ▸ held

theorem storeElement (held : property store.frames) (line : Nat) (base index value : Value) :
    property (storeElement line base index value pending store).store.frames := by
  have kept : (store.act (replaceElement base index value)).2.frames = store.frames := by
    rw [Store.act_eq]
  unfold ScopedScript.storeElement
  split <;> rename_i acted <;> rw [acted] at kept <;> exact kept ▸ held

variable (lasting : code.Lasting property)

include lasting

theorem bindParams (held : property store.frames) (params : List Ident) (args : List Value) :
    property (bindParams params args store).frames := by
  unfold ScopedScript.bindParams
  generalize params.zip args = pairs
  induction pairs generalizing store with
  | nil => exact held
  | cons pair rest ih => exact ih (lasting.set _ _ _ held)

theorem dispatch (held : property store.frames) (callee : Ident) (line : Nat) (args : List Value) :
    property (code.dispatch callee line args pending store).store.frames := by
  refine Code.dispatch_rule callee (fun cause => held) ?_ fun builtin => perform held line _ args
  -- the body runs inside a frame that was found, in the scope of the function
  rintro function parent - ⟨scope, found⟩
  exact lasting.bindParams (lasting.child function.id held (Frames.lt_size_of_frameFor found)) _ _

/-- Changes of a store with a frame of its own below those of the work it is about. -/
theorem tandem {leave : Leave} {below below' : List Pending} {owned calls : Nat} {one two : Store}
    {next next' : Config} (tandem : code.Tandem leave below below' owned calls one two next next')
    (held : property one.frames) (room : owned < one.frames.table.size) :
    property next.store.frames := by
  induction tandem with
  | go | part => exact held
  | act line => exact perform held line _ _
  | store line => exact storeElement held line _ _ _
  | drop _ _ ih | returning _ _ ih | returned _ ih => exact ih held room
  | @push one two _ _ node _ _ ih =>
    have size : (one.push one.current (code.scopeOf one node)).frames.table.size =
        one.frames.table.size + 1 := Array.size_push _
    refine ih (lasting.child node held (Nat.sub_one_lt_of_lt room)) ?_
    omega
  | @pop owned calls one two _ _ _ ih =>
    have size : one.pop.frames.table.size = one.frames.table.size - 1 := Frames.size_pop
    exact ih (lasting.pop held) (by omega)
  | bind _ _ _ _ ih | bindHere _ _ _ ih =>
    exact ih (lasting.set _ _ _ held) (Nat.lt_of_lt_of_eq room Frames.size_set.symm)

/-- **One step** keeps a property that lasts, if there is a frame in use besides that of the work that the
step is about. -/
theorem step {control : Control} {top below : List Pending} {next : Config}
    (held : property store.frames) (room : top.countP Pending.ownsFrame < store.frames.table.size)
    (about : top.length = control.isOver.toNat)
    (found : code.step ⟨control, top ++ below, store⟩ = .next next) : property next.store.frames := by
  rcases Code.step_cases (Leave.free_covers code _) about found with ⟨call, -, -, -, rfl⟩ | changes
  · exact lasting.dispatch held call.callee call.line call.args
  · exact lasting.tandem changes held room

end Code.Lasting

namespace Script

variable {script : Script} {host : Host}
  {config : Config}

/-- The work that waits accounts for the frames and the calls of a run. -/
theorem reaches_counts (reached : script.Reaches host config) :
    config.store.frames.table.size = config.pending.countP Pending.ownsFrame + 1 ∧
      config.store.depth = config.pending.countP Pending.isCall := by
  obtain ⟨control, upper, -, -, extended⟩ := reaches_balanced reached
  obtain ⟨bindings, first, -⟩ := firstStore_frames host
  have alone : (firstStore host).frames.table.size = 1 := by
    rw [first]
    rfl
  have size := extended.size
  have depth := extended.depth
  simp only [Upkeep.balance, List.append_nil] at size depth ⊢
  exact ⟨by omega, depth.trans (Nat.zero_add _)⟩

theorem current_lt_size (reached : script.Reaches host config) :
    config.store.current < config.store.frames.table.size := by
  have size := (reaches_counts reached).1
  show config.store.frames.table.size - 1 < _
  omega

/-- **A run** keeps a property that lasts. -/
theorem reaches_lasting {property : Frames → Prop} (lasting : script.code.Lasting property)
    (first : property (firstStore host).frames)
    (reached : script.Reaches host config) : property config.store.frames := by
  obtain ⟨steps, reached⟩ := reached
  refine Code.after_induction first (fun count _ earlier later came found held => ?_) reached
  obtain ⟨next, step, rfl⟩ := Code.step_of_next? found
  rw [Config.tidied_frames]
  have size := (reaches_counts ⟨count, came⟩).1
  obtain ⟨control, top, below, store, rfl, about⟩ := Code.split_of_step step
  refine lasting.step held ?_ about step
  rw [size, List.countP_append]
  omega

end Script

/-! ### Frames of a run -/

namespace Frames

variable {tree : ScopeTree} {frames : Frames} {number : Nat}

/-- Every frame is of a scope that exists, and inside an older frame, if inside any. -/
structure Grounded (tree : ScopeTree) (frames : Frames) : Prop where
  scopes : ∀ ⦃number : Nat⦄ ⦃scope : ScopeId⦄ ⦃around : Option Nat⦄,
    frames.outline number = some (scope, around) → scope < tree.scopes.size
  parents : ∀ ⦃number parent : Nat⦄ ⦃scope : ScopeId⦄,
    frames.outline number = some (scope, some parent) → parent < number

namespace Grounded

variable (grounded : frames.Grounded tree)

include grounded

theorem descend : frames.links.Descend := by
  intro number parent up
  rw [links_eq_outline] at up
  obtain ⟨⟨scope, around⟩, found, rfl⟩ := Option.map_eq_some_iff.mp up
  exact grounded.parents found

theorem walk (inside : number < frames.table.size) :
    Ascent frames.links number (frames.chain number) := by
  have known : ∀ ⦃number⦄, number < frames.table.size → (frames.links number).isSome := by
    intro number inside
    rw [links, Array.getElem?_eq_getElem inside]
    rfl
  have closed : ∀ ⦃number parent⦄, frames.links number = some (some parent) →
      (frames.links parent).isSome :=
    fun number parent up => known (Nat.lt_trans (grounded.descend up) (lt_size_of_link up))
  obtain ⟨walk, ascent⟩ := Ascent.exists grounded.descend closed (known inside)
  rwa [chain_eq ascent grounded.descend]

/-- The scope of a node exists, also if that of the newest frame stands in for it. -/
theorem scope_lt_size (indexed : tree.Indexed)
    (inside : frames.newest < frames.table.size) (node : NodeId) :
    (tree.scopeOf? node).getD (frames.scope frames.newest) < tree.scopes.size := by
  cases opened : tree.scopeOf? node with
  | some scope => exact indexed.owners opened
  | none =>
    have found := Array.getElem?_eq_getElem inside
    have known : frames.outline frames.newest = some (frames.table[frames.newest].scope,
        frames.table[frames.newest].parent) := by rw [outline, found, Option.map_some]
    rw [Option.getD_none, scope, Array.getD_eq_getD_getElem?, found, Option.getD_some]
    exact grounded.scopes known

theorem set (number : Nat) (name : String) (value : Value) :
    (frames.set number name value).Grounded tree where
  scopes _ _ _ found := grounded.scopes (outline_set ▸ found)
  parents _ _ _ found := grounded.parents (outline_set ▸ found)

theorem pop : frames.pop.Grounded tree where
  scopes number scope around found := by
    rw [outline_pop] at found
    split at found
    · exact grounded.scopes found
    · cases found
  parents number parent scope found := by
    rw [outline_pop] at found
    split at found
    · exact grounded.parents found
    · cases found

theorem child {parent : Nat} {scope : ScopeId}
    (inside : parent < frames.table.size) (known : scope < tree.scopes.size) :
    (frames.child parent scope).Grounded tree where
  scopes number scope around found := by
    rw [outline_child] at found
    split at found
    · cases found
      exact known
    · exact grounded.scopes found
  parents number parent scope found := by
    rw [outline_child] at found
    split at found
    · cases found
      subst number
      exact inside
    · exact grounded.parents found

end Grounded

end Frames

theorem Code.lasting_grounded {code : Code} (indexed : code.analysis.tree.Indexed) :
    code.Lasting (Frames.Grounded code.analysis.tree) where
  set number name value grounded := grounded.set number name value
  pop grounded := grounded.pop
  child {frames _} node grounded inside := by
    refine grounded.child inside (grounded.scope_lt_size indexed ?_ node)
    exact Nat.sub_one_lt_of_lt inside

/-! ### Arguments and items -/

/-- Calls a built-in function that takes its arguments by their place, once their number is right.
Without a result if one that is taken is missing. -/
def Builtin.call? (builtin : Builtin) (args : List Value) : Option (Action Value) :=
  if args.length = builtin.signature.arity then
    match builtin with
    | .open_ | .write => do return builtin.call [← args[0]?, ← args[1]?]
    | _ => do return builtin.call [← args[0]?]
  else some (throw (.type (.argumentCount builtin.name builtin.signature.arity args.length)))

/-- A built-in function takes no argument that is missing. -/
theorem Builtin.call?_eq (builtin : Builtin) (args : List Value) :
    builtin.call? args = some (builtin.call args) := by
  unfold Builtin.call?
  split
  · rename_i count
    cases builtin with
    | open_ | write =>
      obtain ⟨first, second, rfl⟩ := List.length_eq_two.mp count
      rfl
    | _ =>
      obtain ⟨only, rfl⟩ := List.length_eq_one_iff.mp count
      rfl
  · rename_i count
    rw [builtin.call_of_length_ne count]

namespace Value

/-- The element of a container at an index. Without a result if the item of an array is missing. -/
def load? (heap : Heap) (base index : Value) : Option (Except Cause Value) :=
  match base with
  | .array place =>
    match index.asIndex (heap.items place).size with
    | .ok number => (heap.items place)[number]?.map .ok
    | .error cause => some (.error cause)
  | _ => some (base.load heap index)

theorem lt_of_asIndex {index : Value} {length number : Nat}
    (named : index.asIndex length = .ok number) : number < length := by
  unfold asIndex at named
  split at named
  · split at named
    · cases named
    · rename_i inside
      cases named
      exact Nat.lt_of_not_le fun outside => inside (.inr outside)
  · cases named

theorem load?_eq (heap : Heap) (base index : Value) :
    base.load? heap index = some (base.load heap index) := by
  cases base with
  | array place =>
    unfold load? load
    cases named : index.asIndex (heap.items place).size with
    | error cause =>
      simp only [named]
      rfl
    | ok number =>
      have found := Array.getElem?_eq_getElem (lt_of_asIndex named)
      simp only [named, found, Option.map_some]
      show _ = some (Except.ok ((heap.items place).getD number .none))
      rw [Array.getD_eq_getD_getElem?, found, Option.getD_some]
  | _ => rfl

/-- No item that is stored into is missing. -/
theorem lt_of_slot {heap : Heap} {base index : Value} {place number : Nat}
    (named : base.slot heap index = .ok (.item place number)) :
    number < (heap.items place).size := by
  cases base with
  | array other =>
    rw [slot] at named
    cases found : index.asIndex (heap.items other).size with
    | error cause => rw [found] at named; cases named
    | ok number =>
      rw [found] at named
      cases named
      exact lt_of_asIndex found
  | map other =>
    rw [slot] at named
    cases found : index.asKey with
    | error | ok => rw [found] at named; cases named
  | _ => cases named

end Value

/-! ### Programs -/

/-- Every number in an analysis is that of a scope or a declaration of its tree. -/
structure Analysis.Indexed (analysis : Analysis) : Prop where
  tree : analysis.tree.Indexed
  resolutions : ∀ ⦃id : NodeId⦄ ⦃resolution : Resolution⦄,
    analysis.resolutions[id]? = some resolution →
      resolution.scope < analysis.tree.scopes.size ∧ resolution.decl < analysis.tree.decls.size

theorem Program.indexed_analysis {program : Program} {options : Options} {analysis : Analysis}
    (analyzed : program.analyze options = .ok analysis) : analysis.Indexed := by
  obtain ⟨-, tree, resolutions, -⟩ := Program.of_analyze analyzed
  have indexed := program.indexed_before options.redeclaration program.scopeSteps
  refine ⟨tree ▸ indexed.tree, fun id resolution found => ?_⟩
  rw [resolutions] at found
  rw [tree]
  exact ⟨indexed.resolutions found, indexed.refers id resolution found⟩

/-- A configuration in which a step finds what it looks up. -/
structure Config.Grounded (code : Code) (config : Config) : Prop where
  current : config.store.current < config.store.frames.table.size
  frames : config.store.frames.Grounded code.analysis.tree
  /-- The search for a frame of a scope comes to an end, at a frame inside nothing. -/
  walks : ∀ number < config.store.frames.table.size,
    Ascent config.store.frames.links number (config.store.frames.chain number)
  scopes : ∀ node, code.scopeOf config.store node < code.analysis.tree.scopes.size
  /-- Work that leaves a frame leaves one that is not the first. -/
  leaves : ∀ work ∈ config.pending.head?, work.ownsFrame = true →
    1 < config.store.frames.table.size
  /-- A call that ends is counted. -/
  returns : ∀ work ∈ config.pending.head?, work.isCall = true → 0 < config.store.depth

theorem Script.reaches_grounded {script : Script} {host : Host} {config : Config}
    (indexed : script.analysis.Indexed)
    (reached : script.Reaches host config) : config.Grounded script.code := by
  have first : (firstStore host).frames.Grounded script.analysis.tree := by
    obtain ⟨bindings, shape, -⟩ := firstStore_frames host
    rw [shape]
    refine ⟨fun number scope around found => ?_, fun number parent scope found => ?_⟩
    · rcases number with _ | number
      · cases found
        exact indexed.tree.root
      · cases found
    · rcases number with _ | number <;> cases found
  have grounded := reaches_lasting (Code.lasting_grounded indexed.tree) first reached
  have current := current_lt_size reached
  obtain ⟨size, depth⟩ := reaches_counts reached
  refine ⟨current, grounded, fun number inside => grounded.walk inside,
    grounded.scope_lt_size indexed.tree current, fun work top owns => ?_, fun work top call => ?_⟩
  · obtain ⟨rest, shape⟩ := List.head?_eq_some_iff.mp top
    rw [size, shape, List.countP_cons_of_pos owns]
    omega
  · obtain ⟨rest, shape⟩ := List.head?_eq_some_iff.mp top
    rw [depth, shape, List.countP_cons_of_pos call]
    omega

/-- **Neither analysis nor a run leaves the domain of an operation**, whatever the program and the
settings. Before every step of resolution, what is noted refers to scopes and declarations that exist,
and so does what an analysis keeps; types are settled without defaults; in every configuration of a run,
a step finds what it looks up; calls of built-in functions and accesses to arrays are within the
arguments and the items. -/
theorem Program.domains_kept (program : Program) (options : Options) :
    (∀ steps, steps <+: program.scopeSteps →
      (program.before options.redeclaration steps).Indexed) ∧
    program.check? (program.resolve options.redeclaration) =
      some (program.check (program.resolve options.redeclaration)) ∧
    (∀ script, Script.ofProgram program options = .ok script →
      script.analysis.Indexed ∧
      ∀ host config, script.Reaches host config →
        config.Grounded script.code) ∧
    (∀ (builtin : Builtin) (args : List Value), builtin.call? args = some (builtin.call args)) ∧
    ∀ (heap : Heap) (base index : Value), base.load? heap index = some (base.load heap index) ∧
      ∀ place number, base.slot heap index = .ok (.item place number) →
        number < (heap.items place).size := by
  refine ⟨fun steps _ => program.indexed_before _ steps, program.check?_eq _, ?_, Builtin.call?_eq,
    fun heap base index => ⟨base.load?_eq heap index, fun place number => Value.lt_of_slot⟩⟩
  intro script made
  obtain ⟨analysis, analyzed, shape⟩ := ok_of_bind made
  cases shape
  have indexed := Program.indexed_analysis analyzed
  exact ⟨indexed, fun host config => Script.reaches_grounded indexed⟩

/-- A program in which all names and expressions share one id. The last name is that of the function
`f`, so that all names stand for it, and the call of `len` in its body is one of `f` again. -/
def clashing : Program :=
  let tag (id line : Nat) : Tag := ⟨id, ⟨line, 1⟩⟩
  let ident (name : String) (line : Nat) : Ident := ⟨9, name, ⟨line, 1⟩⟩
  ⟨0, .mk (tag 1 1)
    [.define (tag 2 1) (ident "f" 1) [ident "a" 1] (.mk (tag 3 1)
        [.ret ⟨2, 3⟩ (some (.call (tag 9 2) (ident "len" 2)
          [.array (tag 9 2) [.name (tag 9 2) "a"]]))]),
      .expr (.call (tag 9 4) (ident "f" 4) [.int (tag 9 4) 1])]⟩

/-- The program is analysed and run in spite of its ids, and comes to a call inside a call. -/
theorem Program.domains_kept_clashing :
    ¬ clashing.ids.Nodup ∧
    (clashing.scopeSteps <+: clashing.scopeSteps ∧
      (clashing.before .refuse clashing.scopeSteps).Indexed) ∧
    (∃ script config, Script.ofProgram clashing { maxCallDepth := 2 } = .ok script ∧
      script.Reaches .bare config ∧ config.store.depth = 2 ∧
      script.analysis.Indexed ∧ config.Grounded script.code) ∧
    (Value.array 0).slot ⟨#[#[.none]], #[]⟩ (.int 0) = .ok (.item 0 0) ∧
    0 < (Heap.items ⟨#[#[.none]], #[]⟩ 0).size := by
  obtain ⟨before, -, runs, -, items⟩ := Program.domains_kept clashing { maxCallDepth := 2 }
  have shared : ¬ clashing.ids.Nodup := by decide
  have slot : (Value.array 0).slot ⟨#[#[.none]], #[]⟩ (.int 0) = .ok (.item 0 0) := rfl
  refine ⟨shared, ⟨List.prefix_rfl, before _ List.prefix_rfl⟩, ?_, slot,
    (items _ _ _).2 _ _ slot⟩
  have passes : (Script.ofProgram clashing { maxCallDepth := 2 }).toOption.any (fun script =>
      (script.code.after 18 (script.start .bare)).any fun config =>
        config.store.depth == 2) = true := by decide +kernel
  cases made : Script.ofProgram clashing { maxCallDepth := 2 } with
  | error problems =>
    rw [made] at passes
    cases passes
  | ok script =>
    rw [made] at passes
    change (script.code.after 18 (script.start .bare)).any _ = true at passes
    obtain ⟨config, reached, deep⟩ := (Option.any_eq_true _ _).mp passes
    obtain ⟨indexed, grounded⟩ := runs script made
    exact ⟨script, config, rfl, ⟨18, reached⟩, beq_iff_eq.mp deep, indexed,
      grounded _ _ ⟨18, reached⟩⟩

end ScopedScript

/-
**What a step prints.**

Nothing in a run looks at the output but printing, and printing only adds to it:

* `Store.withOutput`, `Config.withOutput`: the same with another output;
* `Action.Silent`, `Builtin.call_output`: an action that neither looks at the output nor changes it; a
  built-in function is one, or prints one text;
* `Code.step_output`: **one step** does not look at the output, or hands it one text;
* `Code.step_grows`, `Code.run_grows`: one step and a whole run only add to the output.
-/

import ScopedScript.Proofs.Unwinding

namespace ScopedScript

/-! ### Another output -/

/-- A world with another output. -/
def World.withOutput (world : World) (output : Output) : World := { world with output }

/-- A store with another output. -/
def Store.withOutput (store : Store) (output : Output) : Store :=
  { store with world := store.world.withOutput output }

/-- A configuration with another output. -/
def Config.withOutput (config : Config) (output : Output) : Config :=
  { config with store := config.store.withOutput output }

/-- What a step comes to, with another output. -/
def Progress.withOutput : Progress → Output → Progress
  | .next config, output => .next (config.withOutput output)
  | .finished value store, output => .finished value (store.withOutput output)
  | .failed fault store, output => .failed fault (store.withOutput output)

theorem World.giveUp_withOutput (world : World) (output : Output) (steps : Nat) (counts : Array Nat)
    (files : Files) (gone : List Value) :
    (world.withOutput output).giveUp steps counts files gone =
      world.giveUp steps counts files gone := by
  induction steps generalizing counts files gone with
  | zero => rfl
  | succ steps ih =>
    cases gone with
    | nil => rfl
    | cons value rest =>
      have same : (world.withOutput output).number? value = world.number? value := by
        cases value <;> rfl
      simp only [World.giveUp, same, ih]
      rfl

theorem World.release_withOutput (world : World) (output : Output) (kept gone : List Value) :
    (world.withOutput output).release kept gone = (world.release kept gone).withOutput output := by
  have number : (world.withOutput output).number? = world.number? := by
    funext value
    cases value <;> rfl
  have references : (world.withOutput output).references (kept ++ gone) =
      world.references (kept ++ gone) := by
    unfold World.references
    rw [number]
    rfl
  unfold World.release
  rw [references]
  show (if world.keepsBytes && gone.any Value.isReference then _ else _) = _
  split
  · exact congrArg (fun files => { world with files, output })
      (world.giveUp_withOutput output _ _ _ gone)
  · rfl

theorem World.release_output (world : World) (kept gone : List Value) :
    (world.release kept gone).output = world.output :=
  (congrArg World.output (world.release_withOutput world.output kept gone)).trans rfl

theorem Config.tidied_withOutput (config : Config) (output : Output) :
    (config.withOutput output).tidied = config.tidied.withOutput output := by
  have loose : (config.withOutput output).hasLooseEnd = config.hasLooseEnd := rfl
  unfold Config.tidied
  rw [loose]
  show (if config.store.gone.isEmpty then _ else _) = _
  split
  · rfl
  · cases config.hasLooseEnd with
    | false => rfl
    | true =>
      exact congrArg
        (fun world => { config with store := { config.store with world, gone := [] } })
        (World.release_withOutput config.store.world output _ config.store.gone)

/-! ### Actions -/

namespace Action

variable {α β : Type}

/-- What an action comes to, with another output. -/
def resultWith (output : Output) : EStateM.Result Cause World α → EStateM.Result Cause World α
  | .ok value world => .ok value (world.withOutput output)
  | .error cause world => .error cause (world.withOutput output)

/-- An action that neither looks at the output nor changes it. -/
def Silent (action : Action α) : Prop :=
  ∀ world output, action (world.withOutput output) = resultWith output (action world)

theorem silent_pure (value : α) : Silent (pure value : Action α) := fun _ _ => rfl

theorem silent_throw (cause : Cause) : Silent (throw cause : Action α) := fun _ _ => rfl

theorem Silent.bind {action : Action α} {next : α → Action β} (silent : Silent action)
    (then_ : ∀ value, Silent (next value)) : Silent (action >>= next) := by
  intro world output
  show EStateM.bind action next (world.withOutput output) =
    resultWith output (EStateM.bind action next world)
  unfold EStateM.bind
  rw [silent world output]
  cases action world with
  | ok value world => exact then_ value world output
  | error => rfl

/-- An action that takes from the world something else than the output. -/
theorem silent_get {next : World → Action α}
    (blind : ∀ world output, next (world.withOutput output) = next world)
    (silent : ∀ world, Silent (next world)) : Silent (get >>= next) := by
  intro world output
  show next (world.withOutput output) (world.withOutput output) = _
  rw [blind]
  exact silent world world output

theorem Silent.act {action : Action α} (silent : Silent action) (store : Store) (output : Output) :
    (store.withOutput output).act action =
      ((store.act action).1, (store.act action).2.withOutput output) := by
  obtain ⟨frames, depth, returning, world, gone, orders⟩ := store
  have here := silent world output
  simp only [Store.withOutput, Store.act, here]
  cases action world <;> rfl

end Action

theorem allocate_silent (items : Array Value) : Action.Silent (allocate items) := fun _ _ => rfl

theorem allocateMap_silent (entries : Std.TreeMap Key Value) :
    Action.Silent (allocateMap entries) := fun _ _ => rfl

theorem allocateSized_silent (count : Int64) (item : Nat → Value) :
    Action.Silent (allocateSized count item) := by
  intro world output
  unfold allocateSized
  show (if world.largest < count.toNatClampNeg then _ else _) = _
  split
  · rfl
  · exact allocate_silent _ world output

theorem replaceElement_silent (base index value : Value) :
    Action.Silent (replaceElement base index value) := by
  intro world output
  cases found : base.slot world.heap index with
  | ok slot =>
    have found' : base.slot (world.withOutput output).heap index = .ok slot := found
    simp only [replaceElement, found, found']
    rfl
  | error cause =>
    have found' : base.slot (world.withOutput output).heap index = .error cause := found
    simp only [replaceElement, found, found']
    rfl

theorem onFiles_silent {α : Type} (operation : Files → Except FileFault α × Files) :
    Action.Silent (onFiles operation) := by
  refine Action.Silent.bind (fun _ _ => rfl) fun result => ?_
  cases result with
  | ok value => exact Action.silent_pure value
  | error => exact Action.silent_throw _

theorem openPath_silent (path mode : String) : Action.Silent (openPath path mode) := by
  intro world output
  have got : ∀ world : World, (get : Action World) world = .ok world world := fun _ => rfl
  have same : (world.withOutput output).files.openFile path mode =
      world.files.openFile path mode := rfl
  simp only [openPath, bind, EStateM.bind, got, same]
  cases world.files.openFile path mode <;> rfl

theorem sortArray_silent (place : Nat) : Action.Silent (sortArray place) := by
  refine Action.silent_get (fun _ _ => rfl) fun world => ?_
  split
  · exact allocate_silent _
  · exact Action.silent_throw _

theorem readInt_silent (text : String) : Action.Silent (readInt text) := by
  unfold readInt
  split
  · exact Action.silent_pure _
  · exact Action.silent_throw _

namespace Builtin

variable {builtin : Builtin} {args : List Value}

theorem pick_silent {α : Type} (accepted : List Ty) (wanted : Value → Option α) (value : Value) :
    Action.Silent (builtin.pick accepted wanted value) := by
  unfold pick
  split
  · exact Action.silent_pure _
  · exact Action.silent_throw _

theorem length_silent (value : Value) : Action.Silent (builtin.length value) :=
  Action.silent_get (fun _ _ => rfl) fun _ => pick_silent _ _ value

theorem one_silent {work : Value → Action Value} (silent : ∀ value, Action.Silent (work value)) :
    Action.Silent (builtin.one args work) := by
  unfold one
  split
  · exact silent _
  · exact Action.silent_throw _

theorem two_silent {work : Value → Value → Action Value}
    (silent : ∀ first second, Action.Silent (work first second)) :
    Action.Silent (builtin.two args work) := by
  unfold two
  split
  · exact silent _ _
  · exact Action.silent_throw _

/-- **A built-in function does not look at the output, or prints one text.** -/
theorem call_output (builtin : Builtin) (args : List Value) :
    Action.Silent (builtin.call args) ∨
      ∃ text : Heap → String, builtin.call args = get >>= fun world => emit (text world.heap) := by
  by_cases count : args.length = builtin.signature.arity
  case neg =>
    rw [call_of_length_ne _ count]
    exact .inl (Action.silent_throw _)
  cases builtin with
  | print =>
    obtain ⟨value, rfl⟩ := List.length_eq_one_iff.mp count
    exact .inr ⟨fun heap => value.shown heap, rfl⟩
  | println =>
    obtain ⟨value, rfl⟩ := List.length_eq_one_iff.mp count
    exact .inr ⟨fun heap => value.shown heap ++ "\n", rfl⟩
  | range =>
    exact .inl (one_silent fun value => (pick_silent _ _ value).bind fun _ => allocateSized_silent _ _)
  | indexer =>
    refine .inl (one_silent fun value => ?_)
    split
    · exact Action.silent_get (fun _ _ => rfl) fun _ => allocate_silent _
    · exact (length_silent _).bind fun _ => allocate_silent _
  | sort => exact .inl (one_silent fun value => (pick_silent _ _ value).bind sortArray_silent)
  | len =>
    exact .inl (one_silent fun value => (length_silent value).bind fun _ => Action.silent_pure _)
  | int => exact .inl (one_silent fun value => (pick_silent _ _ value).bind readInt_silent)
  | open_ =>
    exact .inl (two_silent fun path mode => (pick_silent _ _ path).bind fun _ =>
      (pick_silent _ _ mode).bind fun _ => openPath_silent _ _)
  | close =>
    exact .inl (one_silent fun value => (pick_silent _ _ value).bind fun _ =>
      (onFiles_silent _).bind fun _ => Action.silent_pure _)
  | read =>
    refine .inl (one_silent fun value => (pick_silent _ _ value).bind fun _ =>
      (onFiles_silent _).bind fun line => ?_)
    split <;> exact Action.silent_pure _
  | write =>
    exact .inl (two_silent fun file value => (pick_silent _ _ file).bind fun _ =>
      Action.silent_get (fun _ _ => rfl) fun _ => (onFiles_silent _).bind fun _ => Action.silent_pure _)

end Builtin

/-! ### Steps -/

theorem Action.Allocates.silent {action : Action Value} (allocates : Action.Allocates action) :
    action.Silent := by
  cases allocates with
  | array items => exact allocate_silent items
  | map entries => exact allocateMap_silent entries
  | sized count => exact allocateSized_silent count _

section Steps

variable {code : Code} {pending : List Pending} (store : Store) (output : Output)

theorem settle_withOutput (line : Nat) (result : Except Cause Value) :
    settle line result pending (store.withOutput output) =
      (settle line result pending store).withOutput output := by
  cases result <;> rfl

theorem perform_withOutput {action : Action Value} (silent : action.Silent) (line : Nat)
    (given : List Value) : perform line action given pending (store.withOutput output) =
      (perform line action given pending store).withOutput output := by
  rw [perform_eq_settle, perform_eq_settle, silent.act]
  exact settle_withOutput ((store.act action).2.drop given) output line _

theorem storeElement_withOutput (line : Nat) (base index value : Value) :
    storeElement line base index value pending (store.withOutput output) =
      (storeElement line base index value pending store).withOutput output := by
  unfold storeElement
  rw [(replaceElement_silent base index value).act]
  rcases store.act (replaceElement base index value) with ⟨⟨⟩ | ⟨⟩, store⟩ <;> rfl

theorem bindParams_withOutput (params : List Ident) (args : List Value) :
    bindParams params args (store.withOutput output) =
      (bindParams params args store).withOutput output := by
  unfold bindParams
  generalize params.zip args = pairs
  induction pairs generalizing store with
  | nil => rfl
  | cons pair rest ih => exact ih (store.bindHere pair.1.name pair.2)

theorem Code.Tandem.withOutput {leave : Leave} {owned calls : Nat} {one two : Store}
    {next next' : Config} (tandem : code.Tandem leave pending pending owned calls one two next next')
    (same : two = one.withOutput output) : next' = next.withOutput output := by
  induction tandem with
  | go | part =>
    rw [same]
    rfl
  | act line allocates =>
    rw [same]
    exact perform_withOutput _ output allocates.silent line []
  | store line =>
    rw [same]
    exact storeElement_withOutput _ output line _ _ _
  | drop _ _ ih | push _ _ _ ih | pop _ ih | bind _ _ _ _ ih | bindHere _ _ _ ih | returning _ _ ih
  | returned _ ih =>
    subst same
    exact ih rfl

namespace Code

theorem invoke_withOutput (node : NodeId) (args : List Value) (line : Nat) :
    code.invoke node args line pending (store.withOutput output) =
      (code.invoke node args line pending store).withOutput output := by
  unfold invoke
  cases code.functions[node]? with
  | none => rfl
  | some function =>
    have scope : code.scopeOf (store.withOutput output) function.id =
        code.scopeOf store function.id := rfl
    simp only [scope]
    split
    · rfl
    · show (if code.maxCallDepth ≤ store.depth then _ else _) = _
      split
      · rfl
      · have found : ∀ scope, (store.withOutput output).frames.frameFor
            (store.withOutput output).current scope =
            store.frames.frameFor store.current scope := fun _ => rfl
        rw [found]
        cases store.frames.frameFor store.current _ with
        | none => rfl
        | some parent =>
          have bound := bindParams_withOutput (store.push parent (code.scopeOf store function.id))
            output function.params args
          exact congrArg (fun later : Store => (⟨.enter function.body, .call :: pending,
            { later with depth := later.depth + 1 }⟩ : Config)) bound

/-- A call does not look at the output, or prints one text. -/
theorem dispatch_output (callee : Ident) (line : Nat) (args : List Value) :
    (∀ output, code.dispatch callee line args pending (store.withOutput output) =
      (code.dispatch callee line args pending store).withOutput output) ∨
    ∃ text, ∀ output, code.dispatch callee line args pending (store.withOutput output) =
      perform line (emit text) args pending (store.withOutput output) := by
  unfold dispatch
  split
  · exact .inl fun _ => rfl
  · exact .inl fun output => invoke_withOutput store output _ args line
  · split
    · rename_i builtin _
      rcases builtin.call_output args with silent | ⟨text, prints⟩
      · exact .inl fun output => perform_withOutput store output silent line args
      · refine .inr ⟨text store.world.heap, fun output => ?_⟩
        rw [prints]
        rfl
    · exact .inl fun _ => rfl
  · exact .inl fun _ => rfl

/-- **One step** does not look at the output, or hands it one text. -/
theorem step_output (code : Code) (config : Config) :
    (∀ output, code.step (config.withOutput output) = (code.step config).withOutput output) ∨
    ∃ text line given pending, ∀ output, code.step (config.withOutput output) =
      .next (perform line (emit text) given pending (config.store.withOutput output)) := by
  cases calls : config.call? with
  | some call =>
    have calls' : ∀ output, (config.withOutput output).call? = some call := by
      intro output
      unfold Config.call? at calls
      split at calls <;> cases calls <;> rfl
    rcases code.dispatch_output config.store call.callee call.line call.args with
      quiet | ⟨text, prints⟩
    · left
      intro output
      rw [step_of_call? (calls' output), step_of_call? calls]
      exact congrArg Progress.next (quiet output)
    · refine .inr ⟨text, call.line, call.args, call.below, fun output => ?_⟩
      rw [step_of_call? (calls' output)]
      exact congrArg Progress.next (prints output)
  | none =>
    left
    intro output
    obtain ⟨control, pending, store⟩ := config
    by_cases busy : control.isOver = true → pending ≠ []
    · obtain ⟨top, below, rfl, about⟩ := Control.exists_split busy
      have twins : code.Twins store (store.withOutput output) :=
        ⟨rfl, rfl, rfl, fun _ => rfl, fun _ => rfl, fun _ _ => rfl⟩
      obtain ⟨next, next', here, there, tandem⟩ :=
        step_tandem twins (Leave.free_covers code _) calls about
      obtain rfl := tandem.withOutput output rfl
      rw [here]
      exact there
    · obtain ⟨ended, rfl⟩ : control.isOver = true ∧ pending = [] := by simpa using busy
      cases control with
      | resume | unwind => rfl
      | _ => cases ended

end Code

end Steps

/-! ### Growth -/

/-- An output that adds to another one, under the same limit. -/
structure Output.Extends (output later : Output) : Prop where
  limit : later.limit = output.limit
  bytes : ∃ more, later.bytes = output.bytes ++ more

namespace Output.Extends

variable {output middle later : Output}

theorem refl (output : Output) : output.Extends output := ⟨rfl, .empty, ByteArray.append_empty.symm⟩

theorem trans (first : output.Extends middle) (second : middle.Extends later) :
    output.Extends later := by
  obtain ⟨more, adds⟩ := first.bytes
  obtain ⟨rest, follows⟩ := second.bytes
  exact ⟨second.limit.trans first.limit, more ++ rest,
    by rw [follows, adds, ByteArray.append_assoc]⟩

theorem write (output : Output) (text : String) : output.Extends (output.write text).2 :=
  ⟨rfl, _, rfl⟩

end Output.Extends

theorem perform_emit (line : Nat) (text : String) (given : List Value) (pending : List Pending)
    (store : Store) : perform line (emit text) given pending store =
      settle line (if (store.world.output.write text).1 then .ok .none else .error (.file .outputLimit))
        pending ((store.withOutput (store.world.output.write text).2).drop given) := by
  obtain ⟨frames, depth, returning, world, gone⟩ := store
  have printed : emit text world = (if (world.output.write text).1 then (pure .none : Action Value)
      else throw (.file .outputLimit)) (world.withOutput (world.output.write text).2) := rfl
  rw [perform_eq_settle]
  simp only [Store.act, printed]
  cases (world.output.write text).1 <;> rfl

/-- The store that a step leads to. -/
def Progress.store : Progress → Store
  | .next config => config.store
  | .finished _ store | .failed _ store => store

namespace Code

variable {code : Code}

/-- **One step only adds to the output.** -/
theorem step_grows (code : Code) (config : Config) :
    config.store.world.output.Extends (code.step config).store.world.output := by
  rcases code.step_output config with quiet | ⟨text, line, given, pending, prints⟩
  · have same : code.step config = (code.step config).withOutput config.store.world.output :=
      quiet config.store.world.output
    rw [same]
    cases code.step config <;> exact .refl _
  · have step : code.step config = .next (perform line (emit text) given pending config.store) :=
      prints config.store.world.output
    rw [step, perform_emit]
    split <;> exact .write _ text

theorem output_tidied (config : Config) :
    config.tidied.store.world.output = config.store.world.output := by
  have same : config.tidied = config.tidied.withOutput config.store.world.output :=
    config.tidied_withOutput config.store.world.output
  exact (congrArg (fun later : Config => later.store.world.output) same).trans rfl

/-- **A whole run only adds to the output.** -/
theorem run_grows (steps : Nat) (config : Config) :
    config.store.world.output.Extends (code.run steps config).2.world.output := by
  induction steps generalizing config with
  | zero => exact .refl _
  | succ steps ih =>
    have first := code.step_grows config
    cases step : code.step config with
    | next next =>
      rw [step] at first
      rw [run_next step]
      refine first.trans ?_
      have rest := ih next.tidied
      rw [output_tidied] at rest
      exact rest
    | finished | failed =>
      rw [step] at first
      rw [run, step]
      exact first

/-- **A failure ends a run** in one step for each work that waits and one more, and prints nothing. -/
theorem run_unwind {steps : Nat} {config : Config} {fault : Fault}
    (fails : config.control = .unwind fault) (enough : config.pending.length < steps) :
    ∃ later, code.run steps config = (.fault fault, later) ∧
      later.world.output = config.store.world.output := by
  induction steps generalizing config with
  | zero => exact absurd enough (Nat.not_lt_zero _)
  | succ steps ih =>
    obtain ⟨control, pending, store⟩ := config
    obtain rfl : control = .unwind fault := fails
    cases pending with
    | nil => exact ⟨store, rfl, rfl⟩
    | cons work pending =>
      obtain ⟨later, ends, same⟩ := ih (Config.tidied_control (abort fault work pending store)) (by
        rw [Config.tidied_pending]
        exact Nat.lt_of_succ_lt_succ enough)
      have output : (abort fault work pending store).store.world.output = store.world.output := by
        cases work <;> rfl
      exact ⟨later, ends, (same.trans (output_tidied _)).trans output⟩

end Code

/-! ### The end of a run -/

namespace Script

theorem closing_output (result : Outcome × Store) :
    (closing result).world.output = result.2.world.output := by
  obtain ⟨outcome, store⟩ := result
  cases outcome <;> exact store.world.release_output _ _

theorem closing_fault {result : Outcome × Store} {fault : Fault} (fails : result.1 = .fault fault) :
    (closing result).outcome = .fault fault := by
  obtain ⟨outcome, store⟩ := result
  obtain rfl : outcome = .fault fault := fails
  rfl

end Script

end ScopedScript

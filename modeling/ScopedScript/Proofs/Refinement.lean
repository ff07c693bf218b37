/-
**The machine does what structured evaluation says.**

The machine goes step by step and keeps what is left to do in a list of waiting work; structured evaluation
goes by recursion over the text. Whatever work waits, both come to the same:

* `Code.Agrees`: the machine comes to what an evaluation comes to, and goes on for as many steps as there
  are levels where the evaluation has no outcome;
* `Code.Agrees.retaining`: what is done while work waits, and then what that work does;
* `Code.Faithful.next`: evaluators that look one level deeper agree for one more step, so those of every
  level agree (`Code.faithful`);
* `Script.ends_of_evaluate`, `Script.evaluate_of_ends`: **a run ends as structured evaluation does.**
-/

import ScopedScript.Proofs.Run
import ScopedScript.Proofs.Structured

namespace ScopedScript

variable {α : Type} {line : Nat}

open Evaluation

/-! ### References given up -/

theorem Heap.reachable_none (heap : Heap) (values : List Value) :
    heap.reachable (.none :: values) = heap.reachable values := by
  have skip : heap.mark ((Value.none :: values).length + heap.weight + 1)
      (Array.replicate heap.size false) (.none :: values) =
      heap.mark (values.length + heap.weight + 1) (Array.replicate heap.size false) values := by
    rw [List.length_cons, Nat.add_right_comm, Nat.add_right_comm, Nat.add_right_comm values.length]
    rfl
  unfold Heap.reachable
  rw [skip]

/-- A value that is no reference keeps nothing from ending. -/
theorem World.release_none (world : World) (kept gone : List Value) :
    world.release (.none :: kept) gone = world.release kept gone := by
  have same : world.references (.none :: (kept ++ gone)) = world.references (kept ++ gone) := by
    unfold World.references
    rw [List.cons_append, Heap.reachable_none]
    rfl
  unfold World.release
  rw [List.cons_append, same]

namespace Store

variable (store : Store) (outside : List Value)

@[simp] theorem settled_gone : (store.settled outside).gone = [] := by
  unfold settled
  split
  · rename_i none
    exact List.isEmpty_iff.mp none
  · rfl

@[simp] theorem settled_returning : (store.settled outside).returning = store.returning := by
  unfold settled
  split <;> rfl

@[simp] theorem settled_depth : (store.settled outside).depth = store.depth := by
  unfold settled
  split <;> rfl

theorem settled_none : store.settled (.none :: outside) = store.settled outside := by
  simp only [settled, List.cons_append, World.release_none]

theorem settled_flagged (returning : Option Value) :
    { store with returning }.settled outside = { store.settled outside with returning } := by
  unfold settled
  split <;> rfl

@[simp] theorem drop_nil : store.drop [] = store := by
  obtain ⟨frames, depth, returning, world, gone⟩ := store
  simp [drop]

@[simp] theorem drop_none : store.drop [.none] = store := by
  obtain ⟨frames, depth, returning, world, gone⟩ := store
  simp [drop, Value.isReference]

/-- A store in which no reference was given up and nothing is returned. -/
structure Idle (store : Store) : Prop where
  plain : store.returning = none
  tidy : store.gone = []

theorem settled_idle (plain : store.returning = none) : (store.settled outside).Idle :=
  ⟨(store.settled_returning outside).trans plain, store.settled_gone outside⟩

end Store

namespace Config

variable {control : Control} {pending : List Pending} {store : Store}

theorem tidied_idle (tidy : store.gone = []) :
    (⟨control, pending, store⟩ : Config).tidied = ⟨control, pending, store⟩ := by
  unfold tidied
  rw [if_pos (by simp [tidy])]

theorem tidied_eq_settled :
    (⟨control, pending, store⟩ : Config).tidied = ⟨control, pending, store.settled
      (held control ++ store.returning.toList ++ pending.flatMap Pending.values)⟩ := by
  obtain ⟨frames, depth, returning, world, gone⟩ := store
  unfold tidied Store.settled
  by_cases none : gone.isEmpty
  · simp only [none, if_true]
  · by_cases loose : world.keepsBytes && gone.any fun value => !frames.any (· == value)
    · simp only [none, loose, Bool.false_eq_true, if_false, if_true, hasLooseEnd, values]
    · simp only [none, loose, Bool.false_eq_true, if_false, hasLooseEnd]

theorem tidied_plain (plain : store.returning = none) :
    (⟨control, pending, store⟩ : Config).tidied =
      ⟨control, pending, store.settled (held control ++ pending.flatMap Pending.values)⟩ := by
  rw [tidied_eq_settled, plain, Option.toList_none, List.append_nil]

/-- While a value is returned, it is in use like what waits. -/
theorem tidied_returning (value : Value) :
    (⟨.resume .none, pending, { store with returning := some value }⟩ : Config).tidied =
      ⟨.resume .none, pending, { store.settled (value :: pending.flatMap Pending.values) with
        returning := some value }⟩ := by
  rw [tidied_eq_settled, Store.settled_flagged,
    ← Store.settled_none store (value :: pending.flatMap Pending.values)]
  rfl

end Config

/-! ### Agreement -/

/-- What the machine hands over for a result, and the store it does so with. -/
class Answer (α : Type) where
  handed : α → Store → Value × Store
  handed_gone : ∀ result store, (handed result store).2.gone = store.gone

instance : Answer Value := ⟨fun value store => (value, store), fun _ _ => rfl⟩

instance : Answer Bool := ⟨fun holds store => (.bool holds, store), fun _ _ => rfl⟩

instance : Answer Completion where
  handed
    | .normal value, store => (value, store)
    | .returned value, store => (.none, { store with returning := some value })
  handed_gone
    | .normal _, _ | .returned _, _ => rfl

/-- From a configuration the machine comes to what an evaluation comes to, with the same work waiting.
If the evaluation has no outcome, the machine goes on for a number of steps. -/
def Code.Agrees {α : Type} [Answer α] (code : Code) (level : Nat) (pending : List Pending)
    (config : Config) : Option (Except Fault α × Store) → Prop
  | some (.ok result, store) =>
    store.Idle ∧ ∃ steps, code.after steps config.tidied =
      some ⟨.resume (Answer.handed result store).1, pending, (Answer.handed result store).2⟩
  | some (.error fault, store) =>
    store.Idle ∧ ∃ steps, code.after steps config.tidied = some ⟨.unwind fault, pending, store⟩
  | none => ∃ later, code.after level config.tidied = some later

/-- Whatever work waits, the machine comes to what an evaluation comes to, if nothing is returned. -/
def Code.Renders {α : Type} [Answer α] (code : Code) (level : Nat)
    (machine : List Pending → Store → Config) (evaluation : Evaluation α) : Prop :=
  ∀ ⦃pending store⦄, store.returning = none → code.Agrees level pending (machine pending store)
    (evaluation (pending.flatMap Pending.values) store)

theorem Evaluation.bind_apply {β : Type} (first : Evaluation α) (second : α → Evaluation β)
    (held : List Value) (store : Store) : (first >>= second) held store =
      match first held store with
      | some (.ok result, store) => second result held store
      | some (.error fault, store) => some (.error fault, store)
      | none => none := rfl

theorem Evaluation.retaining_apply (values : List Value) (leave : Store → Store)
    (inner : Evaluation α) (held : List Value) (store : Store) :
    retaining values leave inner held store =
      match inner (values ++ held) (store.settled (values ++ held)) with
      | some (.error fault, store) => some (.error fault, (leave (store.drop values)).settled held)
      | outcome => outcome := rfl

theorem Evaluation.readStore_bind (more : Store → Evaluation α) (held : List Value) (store : Store) :
    (readStore >>= more) held store = more store held store := rfl

theorem Evaluation.change_bind (update : Store → Store) (more : Unit → Evaluation α)
    (held : List Value) (store : Store) :
    (change update >>= more) held store = more () held (update store) := rfl

theorem Evaluation.giveUp_bind (values : List Value) (more : Unit → Evaluation α)
    (held : List Value) (store : Store) :
    (giveUp values >>= more) held store = more () held (store.drop values) := rfl

theorem Evaluation.act_bind {β : Type} (action : Action α) (more : Except Cause α → Evaluation β)
    (held : List Value) (store : Store) :
    (act action >>= more) held store = more (store.act action).1 held (store.act action).2 := rfl

namespace Code.Agrees

variable {α β : Type} [Answer α] [Answer β] {code : Code} {level later : Nat} {pending : List Pending}
  {config next : Config} {control : Control} {store : Store} {outcome : Option (Except Fault α × Store)}
variable {value : Value}

/-- What is agreed on after some steps is agreed on before them. -/
theorem prepend {steps : Nat} (reached : code.after steps config.tidied = some next.tidied)
    (agrees : code.Agrees later pending next outcome) (few : level ≤ steps + later) :
    code.Agrees level pending config outcome := by
  have onward : ∀ {more target}, code.after more next.tidied = some target →
      code.after (steps + more) config.tidied = some target := by
    intro more target found
    rw [after_add, reached, Option.bind_some, found]
  rcases outcome with _ | ⟨fault | result, store⟩
  · obtain ⟨target, found⟩ := agrees
    have whole := onward found
    rw [← Nat.add_sub_cancel' few, after_add] at whole
    obtain ⟨middle, early, -⟩ := Option.bind_eq_some_iff.mp whole
    exact ⟨middle, early⟩
  · obtain ⟨idle, more, found⟩ := agrees
    exact ⟨idle, _, onward found⟩
  · obtain ⟨idle, more, found⟩ := agrees
    exact ⟨idle, _, onward found⟩

theorem congr (same : config = next) (agrees : code.Agrees level pending next outcome) :
    code.Agrees level pending config outcome := by
  rw [same]
  exact agrees

/-- One more step. -/
theorem step_after {steps : Nat} {middle : Config}
    (reached : code.after steps config.tidied = some middle) (step : code.step middle = .next next)
    (agrees : code.Agrees later pending next outcome) (few : level ≤ later + 1) :
    code.Agrees level pending config outcome := by
  have reached : code.after (steps + 1) config.tidied = some next.tidied := by
    rw [after_succ, reached, Option.bind_some, next?, step]
  exact prepend reached agrees (by omega)

theorem step {below : List Pending} (tidy : store.gone = [])
    (step : code.step ⟨control, pending, store⟩ = .next next)
    (agrees : code.Agrees level below next outcome) :
    code.Agrees (level + 1) below ⟨control, pending, store⟩ outcome := by
  have here : code.after 0 (Config.mk control pending store).tidied = some ⟨control, pending, store⟩ :=
    congrArg some (Config.tidied_idle tidy)
  exact step_after here step agrees (Nat.le_refl _)

theorem mono (few : level ≤ later) (agrees : code.Agrees later pending config outcome) :
    code.Agrees level pending config outcome := by
  have here : code.after 0 config.tidied = some config.tidied := rfl
  exact prepend here agrees (by omega)

theorem behind {waiting : List Pending} (tidy : store.gone = []) (busy : control.isOver = false)
    (next : code.next? ⟨control, waiting, store⟩ = some config.tidied)
    (agrees : code.Agrees level pending ⟨control, waiting, store⟩ outcome) :
    code.Agrees (level - 1) pending config outcome := by
  unfold Code.Agrees at agrees
  rw [Config.tidied_idle tidy] at agrees
  have shorter : ∀ {steps target}, code.after steps ⟨control, waiting, store⟩ = some target →
      target.control.isOver = true → ∃ fewer, code.after fewer config.tidied = some target := by
    intro steps target reached finished
    cases steps with
    | zero =>
      cases reached
      cases finished.symm.trans busy
    | succ steps =>
      rw [after, next, Option.bind_some] at reached
      exact ⟨steps, reached⟩
  rcases outcome with _ | ⟨fault | result, store⟩
  · obtain ⟨target, reached⟩ := agrees
    cases level with
    | zero => exact ⟨config.tidied, rfl⟩
    | succ level =>
      rw [after, next, Option.bind_some] at reached
      exact ⟨target, reached⟩
  · obtain ⟨idle, steps, reached⟩ := agrees
    exact ⟨idle, shorter reached rfl⟩
  · obtain ⟨idle, steps, reached⟩ := agrees
    exact ⟨idle, shorter reached rfl⟩

/-! ### Ends of an evaluation -/

theorem answer : code.Renders level (give value) (Evaluation.answer value) :=
  fun _ _ plain => ⟨Store.settled_idle _ _ plain, 0, congrArg some (Config.tidied_plain plain)⟩

theorem stopped {fault : Fault} (plain : store.returning = none) :
    code.Agrees level pending ⟨.unwind fault, pending, store⟩
      (some (.error fault, store.settled (pending.flatMap Pending.values)) :
        Option (Except Fault α × Store)) :=
  ⟨Store.settled_idle _ _ plain, 0, congrArg some (Config.tidied_plain plain)⟩

theorem refuse {cause : Cause} {values : List Value} :
    code.Renders level (fun pending store => fail line cause pending (store.drop values))
      (Evaluation.refuse line cause values : Evaluation α) := fun _ _ plain => stopped plain

/-- A failure that gives up nothing. -/
theorem refuse_bare {cause : Cause} :
    code.Renders level (fail line cause) (Evaluation.refuse line cause [] : Evaluation α) := by
  intro pending store plain
  exact congr (congrArg _ store.drop_nil.symm) (refuse plain)

theorem conclude {result : Except Cause Value} :
    code.Renders level (settle line result) (Evaluation.conclude line result) := by
  intro pending store plain
  cases result with
  | ok value => exact answer plain
  | error cause => exact refuse_bare plain

theorem leaveWith :
    code.Renders level (fun pending store => give .none pending { store with returning := some value })
      (Evaluation.leaveWith value) :=
  fun _ _ plain => ⟨Store.settled_idle _ _ plain, 0, congrArg some (Config.tidied_returning value)⟩

/-- A return that leaves nothing more behind. -/
theorem passed (idle : store.Idle) :
    code.Agrees level pending (give .none pending { store with returning := some value })
      (some (.ok (Completion.returned value), store)) :=
  ⟨idle, 0, congrArg some (Config.tidied_idle idle.tidy)⟩

theorem operate {action : Action Value} {given : List Value} :
    code.Renders level (perform line action given) (Evaluation.operate line action given) := by
  intro pending store plain
  have acted : (store.act action).2.returning = none := (store.act_returning action).trans plain
  have same : Evaluation.operate line action given (pending.flatMap Pending.values) store =
      Evaluation.conclude line (store.act action).1 (pending.flatMap Pending.values)
        ((store.act action).2.drop given) := rfl
  rw [same]
  exact congr perform_eq_settle (conclude acted)

/-! ### Parts of an evaluation -/

theorem andThen {evaluation : Evaluation α} {more : α → Evaluation β} {held : List Value}
    (agrees : code.Agrees level pending config (evaluation held store))
    (goesOn : ∀ result store, store.Idle → code.Agrees level pending
      ⟨.resume (Answer.handed result store).1, pending, (Answer.handed result store).2⟩
      (more result held store)) :
    code.Agrees level pending config ((evaluation >>= more) held store) := by
  rw [Evaluation.bind_apply]
  generalize evaluation held store = outcome at agrees ⊢
  rcases outcome with _ | ⟨fault | result, last⟩
  · exact agrees
  · exact agrees
  · obtain ⟨idle, steps, reached⟩ := agrees
    have tidy : (Answer.handed result last).2.gone = [] :=
      (Answer.handed_gone result last).trans idle.tidy
    rw [← Config.tidied_idle tidy] at reached
    exact prepend reached (goesOn result last idle) (Nat.le_add_left _ _)

/-- An evaluation for which work waits, and then what that work does with its result. -/
theorem retaining {work : Pending} {leave : Store → Store} {inner : Evaluation α}
    {more : α → Evaluation β} (plain : store.returning = none)
    (silent : Config.held control = [])
    (left : ∀ fault store, Code.abort fault work pending store =
      ⟨.unwind fault, pending, leave (store.drop work.values)⟩)
    (kept : ∀ store, (leave store).returning = store.returning)
    (runs : ∀ store, store.Idle → code.Agrees level (work :: pending) ⟨control, work :: pending, store⟩
      (inner ((work :: pending).flatMap Pending.values) store))
    (few : level ≤ later + 1)
    (goesOn : ∀ result store, store.Idle → code.Agrees later pending
      (code.resume (Answer.handed result store).1 work pending (Answer.handed result store).2)
      (more result (pending.flatMap Pending.values) store)) :
    code.Agrees level pending ⟨control, work :: pending, store⟩
      ((Evaluation.retaining work.values leave inner >>= more) (pending.flatMap Pending.values) store) := by
  have start : (⟨control, work :: pending, store⟩ : Config).tidied =
      ⟨control, work :: pending, store.settled ((work :: pending).flatMap Pending.values)⟩ := by
    rw [Config.tidied_plain plain, silent, List.nil_append]
  have idle : (store.settled ((work :: pending).flatMap Pending.values)).Idle :=
    Store.settled_idle _ _ plain
  have agrees := runs _ idle
  rw [Evaluation.bind_apply, Evaluation.retaining_apply, ← List.flatMap_cons]
  unfold Code.Agrees at agrees
  rw [Config.tidied_idle idle.tidy, ← start] at agrees
  generalize inner ((work :: pending).flatMap Pending.values)
    (store.settled ((work :: pending).flatMap Pending.values)) = outcome at agrees ⊢
  rcases outcome with _ | ⟨fault | result, last⟩
  · exact agrees
  · obtain ⟨ended, steps, reached⟩ := agrees
    have unwound : code.Agrees later pending (abort fault work pending last)
        (some (.error fault, (leave (last.drop work.values)).settled
          (pending.flatMap Pending.values)) : Option (Except Fault β × Store)) := by
      rw [left]
      exact stopped ((kept _).trans ended.plain)
    exact step_after reached rfl unwound few
  · obtain ⟨ended, steps, reached⟩ := agrees
    exact step_after reached rfl (goesOn result last ended) few

theorem normal {evaluation : Evaluation Value} {held : List Value}
    (agrees : code.Agrees level pending config (evaluation held store)) :
    code.Agrees level pending config
      ((do return .normal (← evaluation) : Evaluation Completion) held store) := by
  refine agrees.andThen fun value store idle => ?_
  exact ⟨idle, 0, congrArg some (Config.tidied_idle idle.tidy)⟩

end Code.Agrees

/-- Evaluators that agree with the machine as far as they go. -/
structure Code.Faithful (code : Code) (level : Nat) (given : Evaluators) : Prop where
  expr : ∀ expr pending store, store.Idle → code.Agrees level pending ⟨.eval expr, pending, store⟩
    (given.expr expr (pending.flatMap Pending.values) store)
  stmt : ∀ stmt pending store, store.Idle → code.Agrees level pending ⟨.exec stmt, pending, store⟩
    (given.stmt stmt (pending.flatMap Pending.values) store)
  block : ∀ block pending store, store.Idle → code.Agrees level pending ⟨.enter block, pending, store⟩
    (given.block block (pending.flatMap Pending.values) store)

namespace Code.Faithful

variable {code : Code} {level : Nat} {self : Evaluators} (faithful : code.Faithful level self)
  {pending : List Pending} {store : Store}
variable {before : Array Value} {rest : List Value}

include faithful

/-! ### Expressions -/

/-- A part of an expression or a statement, and then the work that waits for it. -/
theorem part [Answer α] {expr : Expr} {work : Pending} {more : Value → Evaluation α}
    (plain : store.returning = none) (bare : work.ownsFrame = false)
    (goesOn : ∀ value store, store.Idle → code.Agrees level pending (code.resume value work pending
      store) (more value (pending.flatMap Pending.values) store)) :
    code.Agrees level pending (evaluate expr work pending store)
      ((self.part work.values expr >>= more) (pending.flatMap Pending.values) store) := by
  have left : ∀ fault store, abort fault work pending store =
      ⟨.unwind fault, pending, store.drop work.values⟩ := by
    intro fault store
    cases work <;> first | rfl | cases bare
  exact Agrees.retaining plain rfl left (fun _ => rfl) (faithful.expr expr _) (Nat.le_succ _) goesOn

theorem items {exprs : List Expr} :
    code.Renders level (evalItems before exprs) (self.items before exprs) := by
  intro pending store plain
  induction exprs generalizing before store with
  | nil =>
    rw [evalItems, Evaluators.items]
    exact Agrees.operate plain
  | cons expr rest ih =>
    refine faithful.part plain rfl fun value store idle => ?_
    exact ih idle.plain

theorem entries {before : Std.TreeMap Key Value} {exprs : List (Expr × Expr)} :
    code.Renders level (evalEntries before exprs) (self.entries before exprs) := by
  intro pending store plain
  induction exprs generalizing before store with
  | nil =>
    rw [evalEntries, Evaluators.entries]
    exact Agrees.operate plain
  | cons entry rest ih =>
    obtain ⟨keyExpr, expr⟩ := entry
    refine faithful.part plain rfl fun value store idle => ?_
    simp only [resume]
    cases value.asKey with
    | error cause => exact Agrees.refuse idle.plain
    | ok key =>
      refine faithful.part idle.plain rfl fun value store idle => ?_
      exact ih idle.plain

/-- The filter of a comprehension, which is checked while the frame of the item is in use. -/
theorem passes [Answer α] {condition : Expr} {collector : Collector} {more : Bool → Evaluation α}
    (plain : store.returning = none)
    (goesOn : ∀ holds store, store.Idle → code.Agrees level pending (code.resume (.bool holds)
      (.filter condition.line collector rest before) pending store) (more holds (pending.flatMap
      Pending.values) store)) :
    code.Agrees level pending
      (evaluate condition (.filter condition.line collector rest before) pending store)
      ((self.passes (rest ++ before.toList) (some condition) >>= more)
        (pending.flatMap Pending.values) store) := by
  refine Agrees.retaining plain rfl (fun _ _ => rfl) (fun _ => rfl) (fun store idle => ?_)
    (Nat.le_succ _) goesOn
  refine (faithful.expr condition _ store idle).andThen fun value store idle => ?_
  have here : code.after 0 (Config.mk (.resume value)
      (.filter condition.line collector rest before :: pending) store).tidied = _ :=
    congrArg some (Config.tidied_idle idle.tidy)
  cases value with
  | bool holds => exact ⟨idle, 0, here⟩
  | _ => exact Agrees.step_after here rfl (Agrees.refuse idle.plain) (Nat.le_succ _)

theorem collect {collector : Collector} :
    code.Renders level (ScopedScript.collect collector rest before)
      (self.collect collector rest before) := by
  intro pending store plain
  induction rest generalizing before store with
  | nil =>
    rw [ScopedScript.collect, Evaluators.collect]
    exact Agrees.operate plain
  | cons item rest ih =>
    -- the element is computed in the frame of the item
    have element : ∀ {store : Store}, store.returning = none → code.Agrees level pending
        (evaluate collector.element (.element collector rest before) pending store)
        ((do
          let value ← framed (rest ++ before.toList) (self.expr collector.element)
          self.collect collector rest (before.push value)) (pending.flatMap Pending.values) store) := by
      intro store plain
      exact Agrees.retaining plain rfl (fun _ _ => rfl) (fun _ => rfl) (faithful.expr _ _)
        (Nat.le_succ _) fun value store idle => ih idle.plain
    rw [ScopedScript.collect, Evaluators.collect]
    cases collector.filter with
    | none => exact element plain
    | some condition =>
      refine faithful.passes plain fun holds store idle => ?_
      cases holds with
      | true => exact element idle.plain
      | false => exact ih idle.plain

/-- The body of a called function: what it returns is taken off where the call ends. -/
theorem body {block : Block} (plain : store.returning = none) :
    code.Agrees level pending ⟨.enter block, .call :: pending, store⟩
      (self.body block (pending.flatMap Pending.values) store) := by
  refine Agrees.retaining plain rfl (fun _ _ => rfl) (fun _ => rfl) (faithful.block block _)
    (Nat.le_succ _) fun completion store idle => ?_
  cases completion with
  | normal value =>
    have same : code.resume value .call pending store =
        give .none pending ((Evaluators.hangUp store).drop [value]) := by
      obtain ⟨frames, depth, returning, world, gone⟩ := store
      cases idle.plain
      rfl
    exact Agrees.congr same (Agrees.answer idle.plain)
  | returned value =>
    have same : code.resume .none .call pending { store with returning := some value } =
        give value pending (Evaluators.hangUp store) := by
      obtain ⟨frames, depth, returning, world, gone⟩ := store
      cases idle.plain
      simp [resume, Evaluators.hangUp, Store.pop, Store.drop, Value.isReference, Store.current]
    exact Agrees.congr same (Agrees.answer idle.plain)

theorem invoke {node : NodeId} {args : List Value} :
    code.Renders level (code.invoke node args line) (self.invoke code node args line) := by
  intro pending store plain
  rw [Code.invoke, Evaluators.invoke, Evaluation.readStore_bind]
  cases code.functions[node]? with
  | none => exact Agrees.refuse plain
  | some function =>
    simp only
    by_cases miscounted : args.length ≠ function.params.length
    · rw [if_pos miscounted, if_pos miscounted]
      exact Agrees.refuse plain
    rw [if_neg miscounted, if_neg miscounted]
    by_cases deep : code.maxCallDepth ≤ store.depth
    · rw [if_pos deep, if_pos deep]
      exact Agrees.refuse plain
    rw [if_neg deep, if_neg deep]
    cases store.frames.frameFor store.current
        ((code.analysis.tree.parent? (code.scopeOf store function.id)).getD ScopeTree.root) with
    | none => exact Agrees.refuse plain
    | some parent =>
      have bound : (bindParams function.params args
          (store.push parent (code.scopeOf store function.id))).returning = none := by
        rw [bindParams_eq]
        exact plain
      exact faithful.body bound

theorem dispatch {callee : Ident} {args : List Value} :
    code.Renders level (code.dispatch callee line args) (self.dispatch code callee line args) := by
  intro pending store plain
  unfold Code.dispatch Evaluators.dispatch
  cases code.resolved? callee.id with
  | none => exact Agrees.refuse plain
  | some found =>
    obtain ⟨resolution, kind⟩ := found
    cases kind with
    | function node arity => exact faithful.invoke plain
    | builtin entry =>
      cases entry with
      | function signature =>
        cases Builtin.ofName? callee.name with
        | none => exact Agrees.refuse plain
        | some builtin => exact Agrees.operate plain
      | constant ty => exact Agrees.refuse plain
    | _ => exact Agrees.refuse plain

theorem args {callee : Ident} {exprs : List Expr} :
    code.Renders level (code.evalArgs callee line before exprs)
      (self.args code callee line before exprs) := by
  intro pending store plain
  induction exprs generalizing before store with
  | nil =>
    rw [evalArgs, Evaluators.args]
    exact faithful.dispatch plain
  | cons expr rest ih =>
    refine faithful.part plain rfl fun value store idle => ?_
    exact ih idle.plain

theorem second {op : BinaryOp} {right : Expr} (plain : store.returning = none) :
    code.Agrees level pending (evaluate right (.second op right.line) pending store)
      (self.second op right (pending.flatMap Pending.values) store) := by
  refine faithful.part plain rfl fun value store idle => ?_
  cases value with
  | bool holds => exact Agrees.answer idle.plain
  | _ => exact Agrees.refuse idle.plain

theorem eval (expr : Expr) : code.Renders level (code.eval expr) (self.evalExpr code expr) := by
  intro pending store plain
  cases expr with
  | int | bool | text | none => exact Agrees.answer plain
  | name tag name => exact Agrees.conclude plain
  | binary tag op left right =>
    rw [Code.eval, Evaluators.evalExpr]
    by_cases logical : op.kind = .logical
    · rw [if_pos logical]
      refine faithful.part plain rfl fun value store idle => ?_
      simp only [if_pos logical]
      cases value with
      | bool holds =>
        by_cases decided : holds = (op == .or)
        · simp only [resume, if_pos decided]
          exact Agrees.answer idle.plain
        · simp only [resume, if_neg decided]
          exact faithful.second idle.plain
      | _ => exact Agrees.refuse idle.plain
    · rw [if_neg logical]
      refine faithful.part plain rfl fun first store idle => ?_
      simp only [if_neg logical]
      refine faithful.part idle.plain rfl fun second store idle => ?_
      exact Agrees.conclude idle.plain
  | unary tag op operand =>
    refine faithful.part plain rfl fun value store idle => ?_
    exact Agrees.conclude idle.plain
  | index tag base index =>
    refine faithful.part plain rfl fun base store idle => ?_
    refine faithful.part idle.plain rfl fun index store idle => ?_
    exact Agrees.conclude idle.plain
  | array tag exprs => exact faithful.items plain
  | sized tag size =>
    refine faithful.part plain rfl fun value store idle => ?_
    cases value with
    | int count =>
      by_cases negative : count < 0
      · simp only [resume, if_pos negative]
        exact Agrees.refuse_bare idle.plain
      · simp only [resume, if_neg negative]
        exact Agrees.operate idle.plain
    | _ => exact Agrees.refuse idle.plain
  | map tag exprs => exact faithful.entries plain
  | comprehension tag element binder source filter =>
    refine faithful.part plain rfl fun value store idle => ?_
    cases value with
    | array place => exact faithful.collect idle.plain
    | _ => exact Agrees.refuse idle.plain
  | call tag callee exprs => exact faithful.args plain

/-! ### Statements -/

theorem discarded {block : Block} (plain : store.returning = none) :
    code.Agrees level pending ⟨.enter block, .discard :: pending, store⟩
      (self.discarded block (pending.flatMap Pending.values) store) := by
  refine Agrees.retaining plain rfl (fun _ _ => rfl) (fun _ => rfl) (faithful.block block _)
    (Nat.le_succ _) fun completion store idle => ?_
  cases completion with
  | normal value =>
    simp only [Evaluation.giveUp_bind]
    exact Agrees.normal (Agrees.answer idle.plain)
  | returned value =>
    have same : code.resume .none .discard pending { store with returning := some value } =
        give .none pending { store with returning := some value } := by
      rw [resume, Store.drop_none]
    exact Agrees.congr same (Agrees.passed idle)

theorem clauses {branches : List Branch} :
    code.Renders level (chooseBranch branches) (self.clauses branches) := by
  intro pending store plain
  induction branches generalizing store with
  | nil =>
    rw [chooseBranch, Evaluators.clauses]
    exact Agrees.normal (Agrees.answer plain)
  | cons branch rest ih =>
    obtain ⟨position, condition, body⟩ := branch
    cases condition with
    | none =>
      rw [chooseBranch, Evaluators.clauses]
      exact faithful.discarded plain
    | some condition =>
      rw [chooseBranch, Evaluators.clauses]
      refine faithful.part plain rfl fun value store idle => ?_
      cases value with
      | bool holds =>
        cases holds with
        | true => exact faithful.discarded idle.plain
        | false => exact ih idle.plain
      | _ => exact Agrees.refuse idle.plain

theorem iterate {binder : Ident} {body : Block} :
    code.Renders level (ScopedScript.iterate binder body rest) (self.iterate binder body rest) := by
  intro pending store plain
  induction rest generalizing store with
  | nil =>
    rw [ScopedScript.iterate, Evaluators.iterate, Evaluation.change_bind]
    exact Agrees.normal (Agrees.answer plain)
  | cons item rest ih =>
    rw [ScopedScript.iterate, Evaluators.iterate, Evaluation.change_bind]
    refine Agrees.retaining plain rfl (fun _ _ => rfl) (fun _ => rfl) (faithful.block body _)
      (Nat.le_succ _) fun completion store idle => ?_
    cases completion with
    | normal value =>
      have same : code.resume value (.eachBody binder body rest) pending store =
          ScopedScript.iterate binder body rest pending (store.drop [value]) := by
        rw [resume, idle.plain]
      exact Agrees.congr same (ih idle.plain)
    | returned value => exact Agrees.leaveWith idle.plain

theorem stmts {last : Value} {rest : List Stmt} :
    code.Renders level (proceed last rest) (self.stmts last rest) := by
  intro pending store plain
  induction rest generalizing last store with
  | nil =>
    rw [Evaluators.stmts, Evaluation.change_bind]
    exact Agrees.normal (Agrees.answer plain)
  | cons stmt rest ih =>
    have same : proceed last (stmt :: rest) pending store =
        ⟨.exec stmt, .block last rest :: pending, store⟩ := by
      unfold proceed
      rw [plain]
    rw [same, Evaluators.stmts]
    refine Agrees.retaining plain rfl (fun _ _ => rfl) (fun _ => rfl) (faithful.stmt stmt _)
      (Nat.le_succ _) fun completion store idle => ?_
    cases completion with
    | normal value => exact ih idle.plain
    | returned value =>
      have same : code.resume .none (.block last rest) pending { store with returning := some value } =
          give .none pending { (store.drop [last]).pop with returning := some value } := by
        cases rest <;> rfl
      exact Agrees.congr same (Agrees.leaveWith idle.plain)

/-- A `while`. The machine goes back to the condition without starting the statement again, so it is
a step ahead where the evaluation repeats. -/
theorem loop {position : Position} {condition : Expr} {body : Block} (plain : store.returning = none) :
    code.Agrees level pending (evaluate condition (.loopTest condition body) pending store)
      (self.execStmt code (.loop position condition body) (pending.flatMap Pending.values) store) := by
  rw [Evaluators.execStmt]
  refine Agrees.retaining plain rfl (fun _ _ => rfl) (fun _ => rfl) (faithful.expr condition _)
    (Nat.sub_le_iff_le_add.mp (Nat.le_refl (level - 1))) fun value store idle => ?_
  cases value with
  | bool holds =>
    cases holds with
    | false => exact Agrees.normal (Agrees.answer idle.plain)
    | true =>
      refine Agrees.retaining idle.plain rfl (fun _ _ => rfl) (fun _ => rfl)
        (fun store idle => (faithful.block body _ store idle).mono (Nat.sub_le _ _))
        (Nat.sub_le_iff_le_add.mp (Nat.le_refl (level - 1 - 1))) fun completion store idle => ?_
      cases completion with
      | returned value =>
        have same : code.resume .none (.loopBody condition body) pending
            { store with returning := some value } =
            give .none pending { store with returning := some value } := by
          show give .none pending (Store.drop { store with returning := some value } [.none]) = _
          rw [Store.drop_none]
        exact Agrees.congr same (Agrees.passed idle)
      | normal value =>
        have same : code.resume value (.loopBody condition body) pending store =
            evaluate condition (.loopTest condition body) pending (store.drop [value]) := by
          rw [resume, idle.plain]
        have begun : ((store.drop [value]).settled (pending.flatMap Pending.values)).Idle :=
          Store.settled_idle _ _ idle.plain
        have again := faithful.stmt (.loop position condition body) pending _ begun
        refine Agrees.congr same ((again.behind begun.tidy rfl ?_).mono (Nat.sub_le _ _))
        have start : (evaluate condition (.loopTest condition body) pending
            (store.drop [value])).tidied = ⟨.eval condition, .loopTest condition body :: pending,
              (store.drop [value]).settled (pending.flatMap Pending.values)⟩ :=
          Config.tidied_plain idle.plain
        rw [start]
        exact congrArg some (Config.tidied_idle begun.tidy)
  | _ => exact Agrees.refuse idle.plain

omit faithful in
theorem assign {name : Ident} {value : Value} :
    code.Renders level (code.assign name line value) (Evaluators.assign code name line value) := by
  intro pending store plain
  rw [Code.assign, Evaluators.assign, Evaluation.readStore_bind]
  cases (code.analysis.resolutions[name.id]?).bind fun resolution =>
      store.frames.frameFor store.current resolution.scope with
  | none => exact Agrees.refuse plain
  | some frame =>
    simp only [Evaluation.change_bind]
    exact Agrees.normal (Agrees.answer plain)

omit faithful in
theorem assignElement {base index value : Value} :
    code.Renders level (storeElement line base index value)
      (Evaluators.assignElement line base index value) := by
  intro pending store plain
  have acted := (store.act_returning (replaceElement base index value)).trans plain
  rw [storeElement, Evaluators.assignElement, Evaluation.act_bind]
  revert acted
  rcases store.act (replaceElement base index value) with ⟨⟨cause⟩ | ⟨old⟩, store⟩ <;> intro acted
  · exact Agrees.refuse acted
  · simp only [Evaluation.giveUp_bind]
    exact Agrees.normal (Agrees.answer acted)

theorem exec (stmt : Stmt) (idle : store.Idle) :
    code.Agrees level pending (Code.exec stmt pending store)
      (self.execStmt code stmt (pending.flatMap Pending.values) store) := by
  have plain := idle.plain
  cases stmt with
  | expr expr => exact Agrees.normal (faithful.expr expr pending store idle)
  | assign tag target value final =>
    cases target with
    | name name =>
      refine faithful.part plain rfl fun value store idle => ?_
      exact assign idle.plain
    | element tag base index =>
      refine faithful.part plain rfl fun value store idle => ?_
      refine faithful.part idle.plain rfl fun base store idle => ?_
      refine faithful.part idle.plain rfl fun index store idle => ?_
      exact assignElement idle.plain
  | cond position condition body branches =>
    have agrees : code.Agrees level pending
        (chooseBranch (.mk position (some condition) body :: branches) pending store)
        (self.clauses (.mk position (some condition) body :: branches)
          (pending.flatMap Pending.values) store) := faithful.clauses plain
    rwa [chooseBranch] at agrees
  | loop position condition body => exact faithful.loop plain
  | each tag binder source body =>
    refine faithful.part plain rfl fun value store idle => ?_
    cases value with
    | array place => exact faithful.iterate idle.plain
    | _ => exact Agrees.refuse idle.plain
  | define tag name params body => exact Agrees.normal (Agrees.answer plain)
  | ret position value =>
    cases value with
    | none => exact Agrees.leaveWith plain
    | some expr =>
      refine faithful.part plain rfl fun value store idle => ?_
      exact Agrees.leaveWith idle.plain

theorem enter (block : Block) :
    code.Renders level (code.enter block) (self.execBlock code block) := by
  intro pending store plain
  rw [Code.enter, Evaluators.execBlock, Evaluation.change_bind]
  exact faithful.stmts plain

/-- **One level deeper, the evaluators agree with the machine for one more step.** -/
theorem next : code.Faithful (level + 1) (self.next code) where
  expr expr _ _ idle := Agrees.step idle.tidy rfl (faithful.eval expr idle.plain)
  stmt stmt _ _ idle := Agrees.step idle.tidy rfl (faithful.exec stmt idle)
  block block _ _ idle := Agrees.step idle.tidy rfl (faithful.enter block idle.plain)

end Code.Faithful

/-- **The evaluators of every level agree with the machine.** -/
theorem Code.faithful (code : Code) (level : Nat) : code.Faithful level (code.evaluators level) := by
  induction level with
  | zero => exact ⟨fun _ _ _ _ => ⟨_, rfl⟩, fun _ _ _ _ => ⟨_, rfl⟩, fun _ _ _ _ => ⟨_, rfl⟩⟩
  | succ level ih => exact ih.next

/-! ### Whole runs -/

deriving instance DecidableEq for Outcome

namespace Code

variable {code : Code} {config last : Config} {steps : Nat}

theorem run_of_after (reached : code.after steps config = some last) (more : Nat) :
    code.run (steps + more) config = code.run more last := by
  induction steps generalizing config with
  | zero =>
    cases reached
    rw [Nat.zero_add]
  | succ steps ih =>
    obtain ⟨middle, found, reached⟩ := Option.bind_eq_some_iff.mp reached
    obtain ⟨next, step, rfl⟩ := step_of_next? found
    rw [Nat.succ_add, run, step]
    exact ih reached

/-- A run that has ended stays as it is. -/
theorem run_add (ended : (code.run steps config).1 ≠ .unfinished) (more : Nat) :
    code.run (steps + more) config = code.run steps config := by
  induction steps generalizing config with
  | zero => exact absurd rfl ended
  | succ steps ih =>
    rw [Nat.succ_add, run, run]
    rw [run] at ended
    cases step : code.step config with
    | next next =>
      rw [step] at ended
      exact ih ended
    | finished | failed => rfl

end Code

namespace Script

variable {script : Script} {host : Host}

/-- The end of a run, at which the first frame is given up. -/
def closing : Outcome × Store → Ending
  | (.value value, store) =>
    let result := store.returning.getD value
    ⟨.value result, store.world.release [result] store.remains⟩
  | (outcome, store) => ⟨outcome, store.world.release [] store.remains⟩

/-- How a run stands after a number of steps. -/
def endingAfter (script : Script) (steps : Nat) (host : Host) : Ending :=
  closing (script.code.run steps (script.start host))

theorem run_eq_endingAfter : script.runOn host = script.endingAfter stepBudget host := rfl

theorem closing_unfinished {result : Outcome × Store}
    (ended : (closing result).outcome ≠ .unfinished) : result.1 ≠ .unfinished := by
  obtain ⟨outcome, store⟩ := result
  cases outcome with
  | unfinished => exact absurd rfl ended
  | value | fault => exact nofun

/-- The first frame holds values and nothing is given up. -/
theorem firstStore_idle (host : Host) : (firstStore host).Idle := ⟨rfl, rfl⟩

/-- Structured evaluation of the program agrees with the machine from the start of a run. -/
theorem agrees_start (script : Script) (level : Nat) (host : Host) :
    script.code.Agrees level [] (script.start host)
      ((script.code.evaluators level).block script.program.body [] (firstStore host)) :=
  (script.code.faithful level).block script.program.body [] _ (firstStore_idle host)

theorem start_tidied : (script.start host).tidied = script.start host :=
  Config.tidied_idle (firstStore_idle host).tidy

/-- **What structured evaluation comes to is how the run ends.** -/
theorem ends_of_evaluate {level : Nat} {ending : Ending}
    (evaluated : script.evaluate level host = some ending) :
    ∃ steps, ∀ more, script.endingAfter (steps + more) host = ending := by
  have agrees := script.agrees_start level host
  unfold Code.Agrees at agrees
  rw [start_tidied] at agrees
  -- one step after the last configuration the run has ended
  have ends : ∀ {steps last result}, script.code.after steps (script.start host) =
      some last → (∀ more, script.code.run (more + 1) last = result) → closing result = ending →
      ∃ steps, ∀ more, script.endingAfter (steps + more) host = ending := by
    intro steps last result reached finished same
    refine ⟨steps + 1, fun more => ?_⟩
    rw [endingAfter, Nat.add_assoc, Code.run_of_after reached, Nat.add_comm, finished, same]
  unfold Script.evaluate at evaluated
  generalize (script.code.evaluators level).block script.program.body []
    (firstStore host) = outcome at agrees evaluated
  rcases outcome with _ | ⟨fault | ⟨value | value⟩, store⟩
  · cases evaluated
  · obtain ⟨-, steps, reached⟩ := agrees
    have finished : ∀ more, script.code.run (more + 1) ⟨.unwind fault, [], store⟩ =
        (.fault fault, store) := fun _ => rfl
    exact ends reached finished (Option.some.inj evaluated)
  · obtain ⟨idle, steps, reached⟩ := agrees
    have finished : ∀ more, script.code.run (more + 1) ⟨.resume value, [], store⟩ =
        (.value value, store) := fun _ => rfl
    refine ends reached finished ?_
    rw [closing, idle.plain]
    exact Option.some.inj evaluated
  · obtain ⟨-, steps, reached⟩ := agrees
    have finished : ∀ more, script.code.run (more + 1)
        ⟨.resume .none, [], { store with returning := some value }⟩ =
        (.value .none, { store with returning := some value }) := fun _ => rfl
    exact ends reached finished (Option.some.inj evaluated)

/-- **How a run ends is what structured evaluation comes to.** -/
theorem evaluate_of_ends {steps : Nat}
    (ended : (script.endingAfter steps host).outcome ≠ .unfinished) :
    script.evaluate steps host =
      some (script.endingAfter steps host) := by
  have finished := closing_unfinished ended
  cases evaluated : script.evaluate steps host with
  | none =>
    -- without an outcome the machine would still go on
    have exhausted : (script.code.evaluators steps).block script.program.body []
        (firstStore host) = none := by
      unfold Script.evaluate at evaluated
      split at evaluated
      · cases evaluated
      · cases evaluated
      · cases evaluated
      · assumption
    have agrees := script.agrees_start steps host
    rw [exhausted] at agrees
    obtain ⟨later, reached⟩ := agrees
    rw [start_tidied] at reached
    exact absurd (congrArg Prod.fst (Code.run_of_after reached 0)) finished
  | some ending =>
    obtain ⟨count, ends⟩ := ends_of_evaluate evaluated
    have later := ends steps
    rw [endingAfter, Nat.add_comm, Code.run_add finished] at later
    rw [← later, endingAfter]

end Script

end ScopedScript

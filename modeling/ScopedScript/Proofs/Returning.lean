/-
**Returns.**

The machine keeps the value of a `return` in the store until the call has ended. This does what a return
should do: from the `return` on, the machine only ends the work around it, up to the innermost call, and
the call has the value:

* `Waiting.awaits`, `Waiting.returnFree`: work waits for statements in statements, and outside calls for
  nothing that holds a `return`;
* `Code.step_unreturned`: **one step** begins to return a value only if it is one of a `return`;
* `Config.Orderly`: a value is returned only where a statement is over inside a call, in every
  configuration of a run (`Script.orderly_of_reaches`);
* `Code.Unwinds`: what follows a `return`, by `Config.Orderly.unwinds`;
* `Script.structured_return`: **runs end as structured evaluation says, and no return is seen outside
  its own call.**
-/

import ScopedScript.Proofs.Refinement
import ScopedScript.Proofs.Storage

namespace ScopedScript

/-! ### Where statements are awaited -/

/-- Whether work waits for a statement or a block. -/
def Pending.awaitsStmt : Pending → Bool
  | .call | .discard | .loopBody .. | .eachBody .. | .block .. => true
  | _ => false

/-- Whether a call is in progress. -/
def inCall (pending : List Pending) : Bool := pending.any Pending.isCall

/-- A statement is awaited, in a statement or a block that is awaited itself, up to a call. -/
def AtStmt : List Pending → Prop
  | [] => True
  | work :: below => work.awaitsStmt = true ∧ (work.isCall = false → AtStmt below)

/-- No `return` is left in a node, functions apart. -/
def Node.ReturnFree : Node → Prop
  | .expr _ => True
  | .stmt inner => inner.misplaced false = []
  | .block inner => inner.misplaced false = []

theorem stmtsMisplaced_append (done rest : List Stmt) :
    stmtsMisplaced false (done ++ rest) = stmtsMisplaced false done ++ stmtsMisplaced false rest := by
  induction done with
  | nil => rfl
  | cons stmt done ih => simp only [List.cons_append, stmtsMisplaced, ih, List.append_assoc]

theorem branchesMisplaced_append (done rest : List Branch) : branchesMisplaced false (done ++ rest) =
    branchesMisplaced false done ++ branchesMisplaced false rest := by
  induction done with
  | nil => rfl
  | cons branch done ih =>
    obtain ⟨position, condition, body⟩ := branch
    simp only [List.cons_append, branchesMisplaced, ih, List.append_assoc]

theorem Hole.returnFree {work : Pending} {node part : Node} {offset : List ScopeStep}
    (hole : Hole work node offset part) (free : node.ReturnFree) : part.ReturnFree := by
  cases hole with
  | body => exact (List.append_eq_nil_iff.mp (List.append_eq_nil_iff.mp free).1).2
  | branch =>
    have behind := (List.append_eq_nil_iff.mp free).2
    rw [branchesMisplaced_append] at behind
    exact (List.append_eq_nil_iff.mp (List.append_eq_nil_iff.mp behind).2).1
  | loopBody | eachBody => exact free
  | block =>
    rw [Node.ReturnFree, Block.misplaced, stmtsMisplaced_append] at free
    exact (List.append_eq_nil_iff.mp (List.append_eq_nil_iff.mp free).2).1
  | _ => trivial

namespace Waiting

variable {program : Program} {policy : Redeclaration} {code : Code} {pending : List Pending}
  {steps : List ScopeStep} {node : Node} {callers : List Activation}

variable (waiting : Waiting program policy code (.whole program) pending steps node callers)

include waiting

/-- A statement or a block is awaited where one should be. -/
theorem awaits (other : ∀ expr, node ≠ .expr expr) : AtStmt pending := by
  induction waiting with
  | bottom => trivial
  | work hole _ ih =>
    cases hole with
    | body | branch | loopBody | eachBody | block => exact ⟨rfl, fun _ => ih nofun⟩
    | _ => exact absurd rfl (other _)
  | value => exact absurd rfl (other _)
  | call => exact ⟨rfl, nofun⟩

/-- Outside calls, nothing that is awaited holds a `return`. -/
theorem returnFree (placed : program.body.misplaced false = []) (outside : inCall pending = false) :
    node.ReturnFree := by
  induction waiting with
  | bottom => exact placed
  | work hole _ ih => exact hole.returnFree (ih (Bool.or_eq_false_iff.mp outside).2)
  | value => trivial
  | call => cases outside

end Waiting

/-- A value is returned only where a statement is over inside a call. -/
def Config.Orderly (config : Config) : Prop :=
  config.store.returning = none ∨
    config.control = .resume .none ∧ AtStmt config.pending ∧ inCall config.pending = true

theorem Config.Orderly.ends {config : Config} {value : Value} (orderly : config.Orderly)
    (returned : config.store.returning = some value) :
    config.control = .resume .none ∧ AtStmt config.pending ∧ inCall config.pending = true := by
  rcases orderly with plain | ends
  · cases plain.symm.trans returned
  · exact ends

/-! ### Steps that return -/

theorem perform_returning {pending : List Pending} {store : Store} (plain : store.returning = none)
    (line : Nat) (action : Action Value) (given : List Value) :
    (perform line action given pending store).store.returning = none := by
  rw [perform_eq_settle]
  cases (store.act action).1 <;> exact (store.act_returning action).trans plain

theorem Code.Tandem.unreturned {code : Code} {leave : Leave} {below below' : List Pending}
    {owned calls : Nat} {one two : Store} {next next' : Config}
    (tandem : code.Tandem leave below below' owned calls one two next next')
    (never : ∀ value, ¬ leave.returns value) (plain : one.returning = none) :
    next.store.returning = none := by
  induction tandem with
  | go | part => exact plain
  | act line => exact perform_returning plain line _ _
  | @store one two line base index value =>
    have kept := (one.act_returning (replaceElement base index value)).trans plain
    unfold storeElement
    split <;> rename_i acted <;> rw [acted] at kept <;> exact kept
  | @returning _ _ _ _ _ _ value due _ ih =>
    cases value with
    | none => exact ih rfl
    | some result => exact absurd (due result rfl) (never result)
  | drop _ _ ih | push _ _ _ ih | pop _ ih | bind _ _ _ _ ih | bindHere _ _ _ ih | returned _ ih =>
    exact ih plain

/-! ### After a return -/

namespace Code

variable {store : Store} {value : Value} {pending : List Pending}

/-- While a value is returned, work that waits for a statement only ends, and the innermost call has the
value. -/
theorem resume_returning (code : Code) (place : AtStmt pending) (called : inCall pending = true)
    (returned : store.returning = some value) :
    (∃ work below later, pending = work :: below ∧ work.isCall = false ∧ AtStmt below ∧
      inCall below = true ∧ code.resume .none work below store = give .none below later ∧
      later.returning = some value ∧ later.depth = store.depth) ∨
    ∃ below later, pending = .call :: below ∧
      code.resume .none .call below store = give value below later ∧
      later.returning = none ∧ later.depth = store.depth - 1 := by
  obtain ⟨frames, depth, returning, world, gone⟩ := store
  cases returned
  cases pending with
  | nil => cases called
  | cons work below =>
    obtain ⟨waits, behind⟩ := place
    cases work with
    | call => exact .inr ⟨below, _, rfl, rfl, rfl, rfl⟩
    | discard | loopBody | eachBody =>
      exact .inl ⟨_, below, _, rfl, rfl, behind rfl, called, rfl, rfl, rfl⟩
    | block last rest =>
      cases rest <;> exact .inl ⟨_, below, _, rfl, rfl, behind rfl, called, rfl, rfl, rfl⟩
    | _ => cases waits

/-- **One step** begins to return a value only if it is one of a `return`. -/
theorem step_unreturned {code : Code} {config next : Config} (step : code.step config = .next next)
    (plain : config.store.returning = none) (other : config.returns? = none) :
    next.store.returning = none := by
  obtain ⟨control, top, below, store, rfl, about⟩ := split_of_step step
  have covers : Leave.Covers { Leave.free with returns := fun _ => False } code
      ⟨control, top ++ below, store⟩ := by
    refine { Leave.free_covers code _ with returned := ?_ }
    intro value returns
    cases other.symm.trans returns
  rcases step_cases covers about step with ⟨call, -, -, -, rfl⟩ | tandem
  · refine dispatch_rule call.callee (fun _ => plain) (fun _ _ _ _ => ?_) fun _ => ?_
    · rw [bindParams_eq]
      exact plain
    · exact perform_returning plain _ _ _
  · exact tandem.unreturned (fun _ => id) plain

end Code

namespace Config

theorem tidied_flag (config : Config) : config.tidied.store.returning = config.store.returning := by
  rw [tidied_eq_settled, Store.settled_returning]

theorem tidied_depth (config : Config) : config.tidied.store.depth = config.store.depth := by
  rw [tidied_eq_settled, Store.settled_depth]

/-- **Every step keeps the order.** -/
theorem Orderly.next {program : Program} {policy : Redeclaration} {code : Code} {contract : Contract}
    {act : Activation} {callers : List Activation} {config next : Config}
    (clean : program.body.misplaced false = [])
    (placed : Placed program policy code contract (.whole program) config.control config.pending act
      callers) (orderly : config.Orderly) (found : code.next? config = some next) :
    next.Orderly := by
  obtain ⟨middle, step, rfl⟩ := Code.step_of_next? found
  rw [Orderly, tidied_flag, tidied_control, tidied_pending]
  obtain ⟨control, pending, store⟩ := config
  cases returned : store.returning with
  | some value =>
    obtain ⟨rfl, place, called⟩ := orderly.ends returned
    rcases code.resume_returning place called returned with
      ⟨work, below, later, rfl, -, place, called, goes, -⟩ | ⟨below, later, rfl, goes, finished, -⟩
    · cases step.symm.trans (congrArg Progress.next goes)
      exact .inr ⟨rfl, place, called⟩
    · cases step.symm.trans (congrArg Progress.next goes)
      exact .inl finished
  | none =>
    cases returns : returns? ⟨control, pending, store⟩ with
    | none => exact .inl (Code.step_unreturned step returned returns)
    | some value =>
      have ends : ∀ {position value below steps}, Waiting program policy code (.whole program) below
          steps (.stmt (.ret position value)) callers → AtStmt below ∧ inCall below = true := by
        intro position value below steps waiting
        refine ⟨waiting.awaits nofun, ?_⟩
        -- outside calls the program has no `return`
        by_contra outside
        cases waiting.returnFree clean (Bool.not_eq_true _ ▸ outside)
      unfold returns? at returns
      split at returns <;> cases returns
      · rename_i same
        cases same
        cases step
        cases placed with
        | exec waiting => exact .inr ⟨rfl, ends waiting⟩
      · rename_i same
        cases same
        cases step
        cases placed with
        | resume waiting =>
          obtain ⟨_, _, _, _, -, -, hole, waiting⟩ := waiting.hole nofun nofun
          cases hole with
          | ret => exact .inr ⟨rfl, ends waiting⟩

end Config

/-- What follows while a value is returned: the work inside the innermost call ends, one piece of it after
the other, and then the call goes on with the value. -/
structure Code.Unwinds (code : Code) (config : Config) (value : Value)
    (inner outer : List Pending) : Prop where
  split : config.pending = inner ++ .call :: outer
  apart : ∀ work ∈ inner, work.isCall = false
  ends : ∀ count ≤ inner.length, ∃ store, store.returning = some value ∧
    code.after count config = some ⟨.resume .none, inner.drop count ++ .call :: outer, store⟩
  call : ∃ store, store.returning = none ∧ store.depth = config.store.depth - 1 ∧
    code.after (inner.length + 1) config = some ⟨.resume value, outer, store⟩

/-- Work that hands over a value at once. -/
theorem Code.next?_gives {code : Code} {value result : Value} {work : Pending} {pending : List Pending}
    {store later : Store} (goes : code.resume value work pending store = give result pending later) :
    ∃ tidied : Store, tidied.returning = later.returning ∧ tidied.depth = later.depth ∧
      code.next? ⟨.resume value, work :: pending, store⟩ = some ⟨.resume result, pending, tidied⟩ := by
  refine ⟨(give result pending later).tidied.store, Config.tidied_flag _, Config.tidied_depth _, ?_⟩
  have step : code.step ⟨.resume value, work :: pending, store⟩ = .next (give result pending later) :=
    congrArg Progress.next goes
  rw [next?, step]
  exact congrArg some (by rw [give, Config.tidied_eq_settled])

/-- **From a `return` on, all work up to the innermost call ends.** -/
theorem Config.Orderly.unwinds {code : Code} {config : Config} {value : Value}
    (orderly : config.Orderly) (returned : config.store.returning = some value) :
    ∃ inner outer, code.Unwinds config value inner outer := by
  obtain ⟨control, pending, store⟩ := config
  obtain ⟨rfl, place, called⟩ := orderly.ends returned
  clear orderly
  induction pending generalizing store with
  | nil => cases called
  | cons work pending ih =>
    rcases code.resume_returning place called returned with
      ⟨_, _, later, ⟨⟩, inside, place, called, goes, keeps, depth⟩ |
        ⟨_, later, ⟨⟩, goes, finished, depth⟩
    · obtain ⟨tidied, keeps', depth', next⟩ := Code.next?_gives goes
      obtain ⟨inner, outer, split, apart, ends, last, finished, deep, reached⟩ :=
        ih tidied (keeps'.trans keeps) place called
      obtain rfl : pending = inner ++ .call :: outer := split
      refine ⟨work :: inner, outer, rfl, ?_, ?_, last, finished, ?_, ?_⟩
      · exact List.forall_mem_cons.mpr ⟨inside, apart⟩
      · intro count few
        cases count with
        | zero => exact ⟨store, returned, rfl⟩
        | succ count =>
          obtain ⟨store, keeps, reached⟩ := ends count (Nat.le_of_succ_le_succ few)
          refine ⟨store, keeps, ?_⟩
          rw [Code.after, next, Option.bind_some, reached]
          rfl
      · rw [deep, depth', depth]
      · rw [List.length_cons, Code.after, next, Option.bind_some, reached]
    · obtain ⟨tidied, finished', depth', next⟩ := Code.next?_gives goes
      refine ⟨[], pending, rfl, List.forall_mem_nil _, ?_, tidied, finished'.trans finished,
        depth'.trans depth, ?_⟩
      · intro count few
        obtain rfl : count = 0 := Nat.le_zero.mp few
        exact ⟨store, returned, rfl⟩
      · exact Code.after_one.trans next

/-! ### Scripts -/

/-- Outside functions an accepted program has no `return`. -/
theorem Program.placed_of_analyze {program : Program} {options : Options} {analysis : Analysis}
    (analyzed : program.analyze options = .ok analysis) : program.body.misplaced false = [] := by
  unfold Program.analyze at analyzed
  simp only at analyzed
  split at analyzed
  · rename_i clean
    exact (List.append_eq_nil_iff.mp (List.isEmpty_iff.mp clean)).2
  · cases analyzed

theorem Code.next?_returns {code : Code} {config : Config} {value : Value}
    (returns : config.returns? = some value) :
    ∃ next, code.next? config = some next ∧ next.store.returning = some value := by
  unfold Config.returns? at returns
  split at returns
  · cases returns
    exact ⟨_, rfl, Config.tidied_flag _⟩
  · cases returns
    exact ⟨_, rfl, Config.tidied_flag _⟩
  · cases returns

namespace Script

variable {source : String} {options : Options} {script : Script} {host : Host}

theorem orderly_of_reaches (compiled : Script.compile source options = .ok script) {config : Config}
    (reached : script.Reaches host config) : config.Orderly := by
  obtain ⟨-, analyzed, -⟩ := of_compile compiled
  obtain ⟨steps, reached⟩ := reached
  refine Code.after_induction (.inl rfl) (fun count _ middle _ earlier found orderly => ?_) reached
  obtain ⟨act, callers, standing⟩ := standing compiled ⟨count, earlier⟩
  exact orderly.next (Program.placed_of_analyze analyzed) standing.placed found

/-- **Returns are structured.** For every text that compiles and every host: if structured evaluation
comes to an end down to some level, the run ends in the same way, with the same value or failure and the
same world, and if the run ends, structured evaluation does. In every configuration of the run: a `return`
sets the value that is returned; while one is set, the machine does nothing but end the work up to the
innermost call, which then has that value; no expression is evaluated while one is set; and none is set at
the end. -/
theorem structured_return (compiled : Script.compile source options = .ok script)
    (host : Host) :
    (∀ level ending, script.evaluate level host = some ending →
      ∃ steps, ∀ more, script.endingAfter (steps + more) host = ending) ∧
    (∀ steps, (script.endingAfter steps host).outcome ≠ .unfinished →
      ∃ level, script.evaluate level host =
        some (script.endingAfter steps host)) ∧
    script.runOn host = script.endingAfter stepBudget host ∧
    ∀ config, script.Reaches host config →
      (∀ value, config.returns? = some value →
        ∃ next, script.code.next? config = some next ∧ next.store.returning = some value) ∧
      (∀ value, config.store.returning = some value →
        ∃ inner outer, script.code.Unwinds config value inner outer) ∧
      (∀ expr, config.control = .eval expr → config.store.returning = none) ∧
      (script.code.next? config = none → config.store.returning = none) := by
  refine ⟨fun level ending => ends_of_evaluate, fun steps ended => ⟨steps, evaluate_of_ends ended⟩,
    run_eq_endingAfter, fun config reached => ?_⟩
  have orderly := orderly_of_reaches compiled reached
  refine ⟨fun value => Code.next?_returns, fun value => orderly.unwinds, fun expr same => ?_,
    fun finished => ?_⟩
  · refine orderly.resolve_right fun returning => ?_
    cases same.symm.trans returning.1
  · cases returned : config.store.returning with
    | none => rfl
    | some value =>
      -- the call around is still to end
      obtain ⟨inner, outer, -, -, -, last, -, -, goes⟩ := orderly.unwinds returned
      rw [Code.after, finished] at goes
      cases goes

/-- A function that returns from a branch inside two loops. -/
def seeking : String :=
  "\n".intercalate ["def find(rows, x):", "  for row in rows:", "    i = 0", "    while i < len(row):",
    "      if row[i] == x:", "        return i", "      end", "      i = i + 1", "    end", "  end", "end",
    "find([[5, 6]], 6)", ""]

/-- A return ends two loops, a branch and the blocks in them at once, and gives the value of the run. -/
theorem structured_return_seeking : ∃ script, Script.compile seeking {} = .ok script ∧
    (∃ config, script.Reaches .bare config ∧ config.pending.length = 9 ∧
      config.store.returning = some (.int 1) ∧
      ∃ inner outer, script.code.Unwinds config (.int 1) inner outer) ∧
    ∃ ending, script.evaluate 13 .bare = some ending ∧ ending.outcome = .value (.int 1) ∧
      ∃ steps, ∀ more, script.endingAfter (steps + more) .bare = ending := by
  refine exists_compiled (fun script =>
    ((script.code.after 79 (script.start .bare)).any fun config =>
      config.pending.length = 9 ∧ config.store.returning = some (.int 1)) &&
    (script.evaluate 13 .bare).any fun ending => ending.outcome = .value (.int 1))
    (by decide +kernel) fun script compiled test => ?_
  obtain ⟨evaluated, -, -, returns⟩ := structured_return compiled .bare
  obtain ⟨during, atEnd⟩ := Bool.and_eq_true_iff.mp test
  obtain ⟨config, reached, returned⟩ := (Option.any_eq_true _ _).mp during
  obtain ⟨depth, returned⟩ := of_decide_eq_true returned
  obtain ⟨ending, found, given⟩ := (Option.any_eq_true _ _).mp atEnd
  have reached : script.Reaches .bare config := ⟨79, reached⟩
  refine ⟨⟨config, reached, depth, returned, (returns config reached).2.1 _ returned⟩,
    ending, found, of_decide_eq_true given, evaluated 13 ending found⟩

end Script

end ScopedScript

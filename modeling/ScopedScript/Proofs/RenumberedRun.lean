/-
**Runs of a program with other numbers.**

A run looks at the number of a node to find its scope, what a name refers to, or a function. With other
numbers, all of that is found under the new number, and nothing that a run makes has a number in it:

* `Config.renumber`: the same configuration of a program with other numbers, over the same store;
* `Code.Renumbered.step`, `Code.Renumbered.run`: **one step and a whole run**;
* `Script.renumbering_immaterial`: a program with other numbers has the same problems, or the same
  analysis and the same runs.
-/

import Mathlib.Data.Finset.Dedup
import Mathlib.Data.Finset.Range
import ScopedScript.Proofs.Refinement
import ScopedScript.Proofs.RenumberedAnalysis

set_option linter.unusedSectionVars false

namespace ScopedScript

/-! ### Configurations -/

section Configurations

variable (f : NodeId → NodeId)

/-- The same collector with other numbers. -/
def Collector.renumber (collector : Collector) : Collector :=
  ⟨collector.element.renumber f, collector.binder.renumber f, optionRenumber f collector.filter⟩

/-- The same pending work with other numbers. -/
def Pending.renumber : Pending → Pending
  | .left op line expr => .left op line (expr.renumber f)
  | .right op line value => .right op line value
  | .first op line expr => .first op line (expr.renumber f)
  | .second op line => .second op line
  | .unary op line => .unary op line
  | .base line expr => .base line (expr.renumber f)
  | .index line value => .index line value
  | .items before rest => .items before (exprsRenumber f rest)
  | .size line => .size line
  | .key line before value rest => .key line before (value.renumber f) (entriesRenumber f rest)
  | .entry place before rest => .entry place before (entriesRenumber f rest)
  | .source tag collector => .source (tag.renumber f) (collector.renumber f)
  | .filter line collector rest before => .filter line (collector.renumber f) rest before
  | .element collector rest before => .element (collector.renumber f) rest before
  | .args callee line before rest => .args (callee.renumber f) line before (exprsRenumber f rest)
  | .call => .call
  | .assign name line => .assign (name.renumber f) line
  | .storeValue line container place => .storeValue line (container.renumber f) (place.renumber f)
  | .storeBase line value place => .storeBase line value (place.renumber f)
  | .storeIndex line value container => .storeIndex line value container
  | .branch line body branches => .branch line (body.renumber f) (branchesRenumber f branches)
  | .discard => .discard
  | .loopTest condition body => .loopTest (condition.renumber f) (body.renumber f)
  | .loopBody condition body => .loopBody (condition.renumber f) (body.renumber f)
  | .eachSource tag binder body =>
    .eachSource (tag.renumber f) (binder.renumber f) (body.renumber f)
  | .eachBody binder body rest => .eachBody (binder.renumber f) (body.renumber f) rest
  | .ret => .ret
  | .block last rest => .block last (stmtsRenumber f rest)

/-- The same control with other numbers. -/
def Control.renumber : Control → Control
  | .eval expr => .eval (expr.renumber f)
  | .exec stmt => .exec (stmt.renumber f)
  | .enter block => .enter (block.renumber f)
  | .resume value => .resume value
  | .unwind fault => .unwind fault

/-- The same configuration with other numbers; what was made has none. -/
def Config.renumber (config : Config) : Config :=
  ⟨config.control.renumber f, config.pending.map (Pending.renumber f), config.store⟩

/-- The same progress with other numbers. -/
def Progress.renumber : Progress → Progress
  | .next config => .next (config.renumber f)
  | .finished value store => .finished value store
  | .failed fault store => .failed fault store

variable {f}

theorem Pending.values_renumber (work : Pending) : (work.renumber f).values = work.values := by
  cases work <;> rfl

theorem Config.values_renumber (config : Config) : (config.renumber f).values = config.values := by
  have held : Config.held (config.control.renumber f) = Config.held config.control := by
    cases config.control <;> rfl
  simp only [Config.values, Config.renumber, held, List.flatMap_map, Pending.values_renumber]

theorem Config.tidied_renumber (config : Config) :
    (config.renumber f).tidied = config.tidied.renumber f := by
  have values := config.values_renumber (f := f)
  obtain ⟨control, pending, frames, depth, returning, world, gone⟩ := config
  simp only [Config.tidied, values]
  show (if gone.isEmpty = true then _ else _) = Config.renumber f (if gone.isEmpty = true then _ else _)
  split <;> rfl

end Configurations

/-! ### Steps -/

section Steps

variable {f : NodeId → NodeId} {pending : List Pending} {store : Store}

theorem perform_renumber (line : Nat) (action : Action Value) (given : List Value) :
    perform line action given (pending.map (Pending.renumber f)) store =
      (perform line action given pending store).renumber f := by
  unfold perform
  split <;> rfl

theorem settle_renumber (line : Nat) (result : Except Cause Value) :
    settle line result (pending.map (Pending.renumber f)) store =
      (settle line result pending store).renumber f := by
  cases result <;> rfl

theorem storeElement_renumber (line : Nat) (base index value : Value) :
    storeElement line base index value (pending.map (Pending.renumber f)) store =
      (storeElement line base index value pending store).renumber f := by
  unfold storeElement
  split <;> rfl

theorem evalItems_renumber (before : Array Value) (rest : List Expr) :
    evalItems before (exprsRenumber f rest) (pending.map (Pending.renumber f)) store =
      (evalItems before rest pending store).renumber f := by
  cases rest with
  | nil => exact perform_renumber 0 (allocate before) []
  | cons => rfl

theorem evalEntries_renumber (before : Std.TreeMap Key Value) (rest : List (Expr × Expr)) :
    evalEntries before (entriesRenumber f rest) (pending.map (Pending.renumber f)) store =
      (evalEntries before rest pending store).renumber f := by
  cases rest with
  | nil => exact perform_renumber 0 (allocateMap before) []
  | cons entry rest =>
    simp only [evalEntries, entriesRenumber, Expr.line_renumber]
    rfl

theorem collect_renumber (collector : Collector) (rest : List Value) (before : Array Value) :
    collect (collector.renumber f) rest before (pending.map (Pending.renumber f)) store =
      (collect collector rest before pending store).renumber f := by
  obtain ⟨element, binder, filter⟩ := collector
  cases rest with
  | nil =>
    simp only [collect]
    exact perform_renumber 0 (allocate before) []
  | cons =>
    cases filter with
    | none => rfl
    | some condition =>
      simp only [collect, Collector.renumber, optionRenumber, Expr.line_renumber]
      rfl

theorem iterate_renumber (binder : Ident) (body : Block) (rest : List Value) :
    iterate (binder.renumber f) (body.renumber f) rest (pending.map (Pending.renumber f)) store =
      (iterate binder body rest pending store).renumber f := by
  cases rest <;> rfl

theorem chooseBranch_renumber (branches : List Branch) :
    chooseBranch (branchesRenumber f branches) (pending.map (Pending.renumber f)) store =
      (chooseBranch branches pending store).renumber f := by
  cases branches with
  | nil => rfl
  | cons branch rest =>
    obtain ⟨position, condition, body⟩ := branch
    cases condition with
    | none => rfl
    | some condition =>
      simp only [chooseBranch, branchesRenumber, optionRenumber, Expr.line_renumber]
      rfl

theorem proceed_renumber (last : Value) (rest : List Stmt) :
    proceed last (stmtsRenumber f rest) (pending.map (Pending.renumber f)) store =
      (proceed last rest pending store).renumber f := by
  cases rest with
  | nil => rfl
  | cons =>
    simp only [proceed, stmtsRenumber]
    cases store.returning <;> rfl

theorem bindParams_renumber (params : List Ident) (args : List Value) :
    bindParams (params.map (Ident.renumber f)) args store = bindParams params args store := by
  simp only [bindParams, List.zip_map_left, List.foldl_map]
  rfl

/-- What a run needs to know of the same program with other numbers. -/
structure Code.Renumbered (f : NodeId → NodeId) (code other : Code) : Prop where
  injective : f.Injective
  tree : code.analysis.tree.Renumbered f other.analysis.tree
  resolutions : Moved f code.analysis.resolutions other.analysis.resolutions
  functions : ∀ id, other.functions[f id]? = code.functions[id]?.map (Function.renumber f)
  maxCallDepth : other.maxCallDepth = code.maxCallDepth

namespace Code.Renumbered

variable {code other : Code} (same : code.Renumbered f other)

include same

theorem scopeOf (store : Store) (node : NodeId) :
    other.scopeOf store (f node) = code.scopeOf store node := by
  rw [Code.scopeOf, ScopeTree.scopeOf?, same.tree.owners.get same.injective]
  rfl

theorem resolved? (node : NodeId) :
    other.resolved? (f node) = (code.resolved? node).map (Prod.map id (DeclKind.renumber f)) := by
  simp only [Code.resolved?, same.resolutions.get same.injective, same.tree.decl?]
  cases code.analysis.resolutions[node]? with
  | none => rfl
  | some resolution =>
    simp only [Option.bind_eq_bind, Option.bind_some]
    cases code.analysis.tree.decls[resolution.decl]? <;> rfl

theorem lookup (store : Store) (node : NodeId) (name : String) :
    other.lookup store (f node) name = code.lookup store node name := by
  rw [Code.lookup, Code.lookup, same.resolved?]
  cases code.resolved? node with
  | none => rfl
  | some found =>
    obtain ⟨resolution, kind⟩ := found
    cases kind with
    | builtin kind => cases kind <;> rfl
    | _ => rfl

theorem assign (name : Ident) (line : Nat) (value : Value) :
    other.assign (name.renumber f) line value (pending.map (Pending.renumber f)) store =
      (code.assign name line value pending store).renumber f := by
  have found : other.analysis.resolutions[(name.renumber f).id]? =
      code.analysis.resolutions[name.id]? :=
    same.resolutions.get same.injective name.id
  rw [Code.assign, Code.assign, found]
  split <;> rfl

theorem invoke (node : NodeId) (args : List Value) (line : Nat) :
    other.invoke (f node) args line (pending.map (Pending.renumber f)) store =
      (code.invoke node args line pending store).renumber f := by
  rw [Code.invoke, Code.invoke, same.functions]
  cases code.functions[node]? with
  | none => rfl
  | some function =>
    simp only [Option.map_some, Function.renumber, List.length_map, same.maxCallDepth, same.scopeOf,
      same.tree.parent?, bindParams_renumber]
    split
    · rfl
    · split
      · rfl
      · split <;> rfl

theorem dispatch (callee : Ident) (line : Nat) (args : List Value) :
    other.dispatch (callee.renumber f) line args (pending.map (Pending.renumber f)) store =
      (code.dispatch callee line args pending store).renumber f := by
  have found : other.resolved? (callee.renumber f).id =
      (code.resolved? callee.id).map (Prod.map id (DeclKind.renumber f)) :=
    same.resolved? callee.id
  rw [Code.dispatch, Code.dispatch, found]
  cases code.resolved? callee.id with
  | none => rfl
  | some place =>
    obtain ⟨resolution, kind⟩ := place
    cases kind with
    | function node arity => exact same.invoke node args line
    | builtin kind =>
      cases kind with
      | constant => rfl
      | function signature =>
        simp only [Option.map_some, Prod.map_apply, DeclKind.renumber, Ident.renumber]
        cases Builtin.ofName? callee.name with
        | none => rfl
        | some builtin => exact perform_renumber line (builtin.call args) args
    | _ => rfl

theorem evalArgs (callee : Ident) (line : Nat) (before : Array Value) (rest : List Expr) :
    other.evalArgs (callee.renumber f) line before (exprsRenumber f rest)
        (pending.map (Pending.renumber f)) store =
      (code.evalArgs callee line before rest pending store).renumber f := by
  cases rest with
  | nil => exact same.dispatch callee line before.toList
  | cons => rfl

theorem eval (expr : Expr) :
    other.eval (expr.renumber f) (pending.map (Pending.renumber f)) store =
      (code.eval expr pending store).renumber f := by
  cases expr with
  | name tag name =>
    have found : other.lookup store (tag.renumber f).id name = code.lookup store tag.id name :=
      same.lookup store tag.id name
    simp only [Code.eval, Expr.renumber, found]
    exact settle_renumber _ _
  | binary tag op left right =>
    simp only [Code.eval, Expr.renumber, Expr.line_renumber]
    split <;> rfl
  | array tag items => exact evalItems_renumber #[] items
  | map tag entries => exact evalEntries_renumber ∅ entries
  | call tag callee args => exact same.evalArgs callee tag.position.line #[] args
  | _ => rfl

omit same in
theorem exec (stmt : Stmt) :
    Code.exec (stmt.renumber f) (pending.map (Pending.renumber f)) store =
      (Code.exec stmt pending store).renumber f := by
  cases stmt with
  | assign tag target value final => cases target <;> rfl
  | cond position condition body branches =>
    simp only [Code.exec, Stmt.renumber, Expr.line_renumber]
    rfl
  | ret position value => cases value <;> rfl
  | _ => rfl

theorem enter (block : Block) :
    other.enter (block.renumber f) (pending.map (Pending.renumber f)) store =
      (code.enter block pending store).renumber f := by
  simp only [Code.enter, Block.id_renumber, Block.stmts_renumber, same.scopeOf]
  exact proceed_renumber .none block.stmts

theorem resume (value : Value) (work : Pending) :
    other.resume value (work.renumber f) (pending.map (Pending.renumber f)) store =
      (code.resume value work pending store).renumber f := by
  cases work with
  | right | unary | index => exact settle_renumber ..
  | first op line right =>
    cases value with
    | bool holds =>
      simp only [Code.resume, Pending.renumber, Expr.line_renumber]
      split <;> rfl
    | _ => rfl
  | second => cases value <;> rfl
  | items before rest => exact evalItems_renumber (before.push value) rest
  | size line =>
    cases value with
    | int count =>
      simp only [Code.resume, Pending.renumber]
      split
      · rfl
      · exact perform_renumber ..
    | _ => rfl
  | key line before expr rest =>
    simp only [Code.resume, Pending.renumber]
    cases value.asKey <;> rfl
  | entry key before rest => exact evalEntries_renumber (before.insert key value) rest
  | source tag collector =>
    cases value with
    | array place =>
      have scope : other.scopeOf store (tag.renumber f).id = code.scopeOf store tag.id :=
        same.scopeOf store tag.id
      simp only [Code.resume, Pending.renumber, scope]
      exact collect_renumber collector _ #[]
    | _ => rfl
  | filter line collector rest before =>
    cases value with
    | bool holds =>
      cases holds with
      | true => rfl
      | false => exact collect_renumber collector rest before
    | _ => rfl
  | element collector rest before => exact collect_renumber collector rest (before.push value)
  | args callee line before rest => exact same.evalArgs callee line (before.push value) rest
  | assign name line => exact same.assign name line value
  | storeIndex line held base => exact storeElement_renumber line base value held
  | branch line body branches =>
    cases value with
    | bool holds =>
      cases holds with
      | true => rfl
      | false => exact chooseBranch_renumber branches
    | _ => rfl
  | loopTest condition body =>
    cases value with
    | bool holds => cases holds <;> rfl
    | _ =>
      simp only [Code.resume, Pending.renumber, Expr.line_renumber]
      rfl
  | loopBody condition body =>
    simp only [Code.resume, Pending.renumber]
    cases store.returning <;> rfl
  | eachSource tag binder body =>
    cases value with
    | array place =>
      have scope : other.scopeOf store (tag.renumber f).id = code.scopeOf store tag.id :=
        same.scopeOf store tag.id
      simp only [Code.resume, Pending.renumber, scope]
      exact iterate_renumber binder body _
    | _ => rfl
  | eachBody binder body rest =>
    simp only [Code.resume, Pending.renumber]
    cases store.returning with
    | some => rfl
    | none => exact iterate_renumber binder body rest
  | block last rest => exact proceed_renumber value rest
  | _ => rfl

omit same in
theorem abort (fault : Fault) (work : Pending) :
    Code.abort fault (work.renumber f) (pending.map (Pending.renumber f)) store =
      (Code.abort fault work pending store).renumber f := by
  cases work <;> rfl

/-- **One step.** -/
theorem step (config : Config) :
    other.step (config.renumber f) = (code.step config).renumber f := by
  obtain ⟨control, pending, store⟩ := config
  cases control with
  | eval expr => exact congrArg Progress.next (same.eval expr)
  | exec stmt => exact congrArg Progress.next (exec stmt)
  | enter block => exact congrArg Progress.next (same.enter block)
  | resume value =>
    cases pending with
    | nil => rfl
    | cons work pending => exact congrArg Progress.next (same.resume value work)
  | unwind fault =>
    cases pending with
    | nil => rfl
    | cons work pending => exact congrArg Progress.next (abort fault work)

/-- **A whole run.** -/
theorem run (steps : Nat) (config : Config) :
    other.run steps (config.renumber f) = code.run steps config := by
  induction steps generalizing config with
  | zero => rfl
  | succ steps ih =>
    rw [Code.run, Code.run, same.step]
    cases code.step config with
    | next config =>
      simp only [Progress.renumber, Config.tidied_renumber]
      exact ih config.tidied
    | finished | failed => rfl

end Code.Renumbered

end Steps

/-! ### Scripts -/

/-- The functions of a program with other numbers, each under its new number. -/
theorem Program.functionTable_renumber {f : NodeId → NodeId} (injective : f.Injective)
    (program : Program) (id : NodeId) :
    (program.renumber f).functionTable[f id]? =
      program.functionTable[id]?.map (Function.renumber f) := by
  have functions : (program.renumber f).body.functions =
      program.body.functions.map (Function.renumber f) :=
    (Node.block program.body).functions_renumber f
  rw [functionTable, functionTable, functions, List.foldl_map]
  refine List.foldl_rel (r := fun table moved : Std.TreeMap NodeId Function =>
    moved[f id]? = table[id]?.map (Function.renumber f)) ?_ fun function _ table moved same => ?_
  · simp only [Std.TreeMap.getElem?_emptyc, Option.map_none]
  have apart : f function.id = f id ↔ function.id = id := injective.eq_iff
  simp only [Std.TreeMap.getElem?_insert, Nat.compare_eq_eq, Function.renumber, apart]
  split
  · rfl
  · exact same

/-- **The same runs**, for all arguments, folders, limits on the output and numbers of steps. -/
theorem Script.endingAfter_renumber {f : NodeId → NodeId} {other : Analysis} (script : Script)
    (injective : f.Injective) (same : script.analysis.Renumbered f other) (steps : Nat)
    (host : Host) :
    (Script.mk (script.program.renumber f) other script.options).endingAfter steps host =
      script.endingAfter steps host := by
  have code : script.code.Renumbered f (Script.mk (script.program.renumber f) other script.options).code :=
    ⟨injective, same.tree, same.resolutions, script.program.functionTable_renumber injective, rfl⟩
  exact congrArg closing (code.run steps (script.start host))

/-! ### Numbers outside the program -/

/-- The node of a declaration. -/
def DeclKind.node? : DeclKind → Option NodeId
  | .assigned _ node _ | .function node _ | .loopVariable node | .comprehensionVariable node => some node
  | .parameter _ | .builtin _ => none

/-- All numbers that an analysis mentions. -/
def Analysis.numbers (analysis : Analysis) : List NodeId :=
  analysis.tree.scopes.toList.map Scope.owner ++
    analysis.tree.decls.toList.filterMap (fun decl => decl.kind.node?) ++
    (analysis.tree.owners.keys ++ analysis.resolutions.keys ++ analysis.types.keys)

section Agreement

variable {f g : NodeId → NodeId}

theorem Moved.agree {α : Type} {table moved : Std.TreeMap NodeId α} (move : Moved g table moved)
    (agree : ∀ id, g id ∈ moved.keys → g id = f id) : Moved f table moved := by
  have reached : ∀ {old entry}, table[old]? = some entry → moved[g old]? = some entry :=
    fun found => (move _ _).mpr ⟨_, rfl, found⟩
  have same : ∀ {old entry}, table[old]? = some entry → g old = f old := fun found =>
    agree _ (Std.TreeMap.mem_keys.mpr (Std.TreeMap.mem_iff_isSome_getElem?.mpr
      (Option.isSome_of_mem (reached found))))
  intro id entry
  rw [move]
  refine exists_congr fun old => and_congr_left fun found => ?_
  rw [same found]

theorem DeclKind.renumber_agree {kind : DeclKind}
    (agree : ∀ id, (kind.renumber g).node? = some (g id) → g id = f id) :
    kind.renumber g = kind.renumber f := by
  cases kind with
  | parameter | builtin => rfl
  | assigned final node rebound =>
    exact congrArg (DeclKind.assigned final · rebound) (agree node rfl)
  | function node arity => exact congrArg (DeclKind.function · arity) (agree node rfl)
  | loopVariable node => exact congrArg DeclKind.loopVariable (agree node rfl)
  | comprehensionVariable node => exact congrArg DeclKind.comprehensionVariable (agree node rfl)

/-- Only the values of `g` that the other analysis mentions matter. -/
theorem Analysis.Renumbered.agree {analysis other : Analysis} (same : analysis.Renumbered g other)
    (agree : ∀ id, g id ∈ other.numbers → g id = f id) : analysis.Renumbered f other := by
  simp only [numbers, List.mem_append] at agree
  refine ⟨⟨?_, ?_, ?_⟩, ?_, ?_, same.declTypes⟩
  · rw [same.tree.scopes]
    refine Array.map_congr_left fun scope member => ?_
    have mentioned : g scope.owner ∈ other.tree.scopes.toList.map Scope.owner := by
      rw [same.tree.scopes, Array.toList_map, List.map_map]
      exact List.mem_map.mpr ⟨scope, Array.mem_toList_iff.mpr member, rfl⟩
    exact congrArg (fun owner => { scope with owner := owner }) (agree _ (.inl (.inl mentioned)))
  · rw [same.tree.decls]
    refine Array.map_congr_left fun decl member => ?_
    have mentioned : ∀ id, (decl.kind.renumber g).node? = some (g id) →
        g id ∈ other.tree.decls.toList.filterMap fun decl => decl.kind.node? := by
      intro id node
      rw [same.tree.decls, Array.toList_map, List.filterMap_map]
      exact List.mem_filterMap.mpr ⟨decl, Array.mem_toList_iff.mpr member, node⟩
    exact congrArg (fun kind => { decl with kind := kind })
      (DeclKind.renumber_agree fun id node => agree id (.inl (.inr (mentioned id node))))
  · exact same.tree.owners.agree fun id member => agree id (.inr (.inl (.inl member)))
  · exact same.resolutions.agree fun id member => agree id (.inr (.inl (.inr member)))
  · exact same.types.agree fun id member => agree id (.inr (.inr member))

theorem exists_above (ids : List NodeId) : ∃ bound : NodeId, ∀ id ∈ ids, id < bound := by
  obtain ⟨bound, within⟩ := ids.toFinset.exists_nat_subset_range
  exact ⟨bound, fun id member => Finset.mem_range.mp (within (List.mem_toFinset.mpr member))⟩

end Agreement

theorem Program.analyze_spread {program : Program} {f : NodeId → NodeId} {bound : NodeId}
    (apart : ∀ a ∈ program.ids, ∀ b ∈ program.ids, f a = f b → a = b)
    (below : ∀ id ∈ program.ids, f id < bound) (options : Options) :
    (∀ diagnostics, program.analyze options = .error diagnostics →
      (program.renumber f).analyze options = .error diagnostics) ∧
    ∀ analysis, program.analyze options = .ok analysis →
      ∃ other, (program.renumber f).analyze options = .ok other ∧
        analysis.Renumbered (program.spread f bound) other := by
  have analyzed := program.analyze_renumber (spread_injective apart below) options
  rwa [renumber_spread] at analyzed

/-- **Only which numbers are equal matters.** Let the nodes of a program have other numbers, where two of
them are the same exactly if they were. If the program has problems, it still has these problems in this
order. Otherwise it still has none, the analysis is the same under the new numbers, and so are all runs.
The program is any tree whatever, and nodes may share numbers in it. -/
theorem Script.renumbering_immaterial (program : Program) (options : Options) (f : NodeId → NodeId)
    (apart : ∀ a ∈ program.ids, ∀ b ∈ program.ids, f a = f b → a = b) :
    (∀ diagnostics, Script.ofProgram program options = .error diagnostics →
      Script.ofProgram (program.renumber f) options = .error diagnostics) ∧
    ∀ script, Script.ofProgram program options = .ok script →
      ∃ renumbered, Script.ofProgram (program.renumber f) options = .ok renumbered ∧
        script.analysis.Renumbered f renumbered.analysis ∧
        ∀ host steps, renumbered.endingAfter steps host =
          script.endingAfter steps host := by
  have above : ∀ more : List NodeId, ∃ bound : NodeId,
      (∀ id ∈ program.ids, f id < bound) ∧ ∀ id ∈ more, id < bound := by
    intro more
    obtain ⟨bound, above⟩ := exists_above (program.ids.map f ++ more)
    rw [List.forall_mem_append, List.forall_mem_map] at above
    exact ⟨bound, above⟩
  obtain ⟨low, below, -⟩ := above []
  obtain ⟨errors, analyses⟩ := Program.analyze_spread apart below options
  constructor
  · intro diagnostics failed
    cases analyzed : program.analyze options with
    | ok analysis => rw [Script.ofProgram, analyzed] at failed; cases failed
    | error found =>
      rw [Script.ofProgram, analyzed] at failed
      cases failed
      rw [Script.ofProgram, errors _ analyzed]
      rfl
  · intro script compiled
    obtain ⟨analysis, analyzed, compiled⟩ := ok_of_bind compiled
    cases compiled
    obtain ⟨other, found, -⟩ := analyses analysis analyzed
    -- A number outside the program would be found beyond all that the other analysis mentions.
    obtain ⟨bound, below, beyond⟩ := above other.numbers
    obtain ⟨again, found', same⟩ := (Program.analyze_spread apart below options).2 analysis analyzed
    cases found.symm.trans found'
    refine ⟨⟨program.renumber f, other, options⟩, ?_, same.agree fun id mentioned => ?_, ?_⟩
    · rw [Script.ofProgram, found]
      rfl
    · by_cases member : id ∈ program.ids
      · exact Program.spread_of_mem member
      · rw [Program.spread, if_neg member] at mentioned
        exact absurd (beyond _ mentioned) (Nat.not_lt.mpr (Nat.le_add_left bound id))
    · intro host steps
      rw [← program.renumber_spread bound]
      exact Script.endingAfter_renumber ⟨program, analysis, options⟩
        (Program.spread_injective apart below) same steps host

/-- A text with functions, a loop and a comprehension. -/
def Script.assorted : String :=
  "\n".intercalate ["def twice(n):", "  return n + n", "end", "total = 0",
    "for item in [twice(k) for k in [1, 2, 3] if k > 1]:", "  total = total + item", "end",
    "println(total)", ""]

/-- A tree with two names that nothing declares, both with the number of the program. -/
def Script.unknowns : Program :=
  ⟨7, .mk ⟨3, ⟨1, 1⟩⟩ [.expr (.name ⟨7, ⟨1, 1⟩⟩ "x"), .expr (.name ⟨7, ⟨2, 1⟩⟩ "y")]⟩

/-- Numbers in the opposite order, and a number that three nodes share. -/
theorem Script.renumbering_immaterial_reversed :
    (∃ script renumbered, Script.compile assorted {} = .ok script ∧
      Script.ofProgram (script.program.renumber fun id => 99 - id) {} = .ok renumbered ∧
      (script.endingAfter 400 .bare).world.output.bytes = "10\n".toUTF8 ∧
      renumbered.endingAfter 400 .bare = script.endingAfter 400 .bare) ∧
    (Script.ofProgram unknowns {} = .error [⟨.unresolved "x", ⟨1, 1⟩⟩, ⟨.unresolved "y", ⟨2, 1⟩⟩] ∧
      Script.ofProgram (unknowns.renumber fun id => 99 - id) {} =
        .error [⟨.unresolved "x", ⟨1, 1⟩⟩, ⟨.unresolved "y", ⟨2, 1⟩⟩]) := by
  constructor
  · obtain ⟨script, compiled, apart, output⟩ : ∃ script,
        Script.compile assorted {} = .ok script ∧
          (∀ a ∈ script.program.ids, ∀ b ∈ script.program.ids, 99 - a = 99 - b → a = b) ∧
          (script.endingAfter 400 .bare).world.output.bytes = "10\n".toUTF8 :=
      exists_compiled (fun script =>
        (∀ a ∈ script.program.ids, ∀ b ∈ script.program.ids, 99 - a = 99 - b → a = b) ∧
          (script.endingAfter 400 .bare).world.output.bytes = "10\n".toUTF8)
        (by decide +kernel) fun _ _ passes => of_decide_eq_true passes
    have made : Script.ofProgram script.program {} = .ok script := by
      obtain ⟨_, _, compiled⟩ := ok_of_bind compiled
      obtain ⟨program, _, compiled⟩ := ok_of_bind compiled
      obtain ⟨analysis, analyzed, done⟩ := ok_of_bind compiled
      cases done
      exact compiled
    obtain ⟨renumbered, made', -, runs⟩ :=
      (renumbering_immaterial script.program {} (fun id => 99 - id) apart).2 script made
    exact ⟨script, renumbered, compiled, made', output, runs .bare 400⟩
  · have failed : Script.ofProgram unknowns {} =
        .error [⟨.unresolved "x", ⟨1, 1⟩⟩, ⟨.unresolved "y", ⟨2, 1⟩⟩] := by rfl
    exact ⟨failed, (renumbering_immaterial unknowns {} (fun id => 99 - id) (by decide)).1 _ failed⟩

end ScopedScript

/-
**Runs without `while` end.**

Only a `while` can go on forever. A `for` and a comprehension go through the items that the array had when
they began, whatever is done to the array meanwhile; calls are nested no deeper than is allowed; and all
else follows the text of the program:

* `Block.loopFree`: no `while` is in a block, nor in anything inside it (`Node.Within.loopFree`);
* `Evaluation.Ends`: an evaluation has an outcome at a depth of calls; each way to evaluate a text ends if
  the parts of the text do (`Evaluators.ends_evalExpr`, `Evaluators.ends_execStmt`,
  `Evaluators.ends_execBlock`);
* `Code.reach`: the measure, calls that are still allowed before the size of the text; evaluation ends
  within it (`Code.evaluators_end`);
* `Script.loopFree_ends`: **runs of scripts without `while` end**, and so do the texts and comparisons of
  values that they ask for.
-/

import ScopedScript.Proofs.Bisimilarity
import ScopedScript.Proofs.Refinement

namespace ScopedScript

/-! ### Programs without loops -/

mutual

/-- Whether no `while` is in a statement. -/
def Stmt.loopFree : Stmt → Bool
  | .loop _ _ _ => false
  | .cond _ _ body branches => body.loopFree && branchesLoopFree branches
  | .each _ _ _ body | .define _ _ _ body => body.loopFree
  | .expr _ | .assign _ _ _ _ | .ret _ _ => true

def Block.loopFree : Block → Bool
  | .mk _ stmts => stmtsLoopFree stmts

def stmtsLoopFree : List Stmt → Bool
  | [] => true
  | first :: rest => first.loopFree && stmtsLoopFree rest

def branchesLoopFree : List Branch → Bool
  | [] => true
  | .mk _ _ body :: rest => body.loopFree && branchesLoopFree rest

end

/-- Whether no `while` is in a node. -/
def Node.loopFree : Node → Bool
  | .expr _ => true
  | .stmt s => s.loopFree
  | .block b => b.loopFree

theorem loopFree_of_mem_stmts {stmts : List Stmt} {stmt : Stmt} (free : stmtsLoopFree stmts = true)
    (member : stmt ∈ stmts) : stmt.loopFree = true := by
  induction stmts with
  | nil => cases member
  | cons => grind [stmtsLoopFree]

theorem loopFree_of_mem_branches {branches : List Branch} {position : Position}
    {condition : Option Expr} {body : Block} (free : branchesLoopFree branches = true)
    (member : Branch.mk position condition body ∈ branches) : body.loopFree = true := by
  induction branches with
  | nil => cases member
  | cons branch =>
    cases branch
    grind [branchesLoopFree]

/-- What is inside a node without `while` is without it. -/
theorem Node.Within.loopFree {outer inner : Node} {place : List ScopeStep} (within : outer.Within place inner)
    (free : outer.loopFree = true) : inner.loopFree = true := by
  induction within with
  | self => exact free
  | @part node part _ _ _ listed _ ih =>
    refine ih ?_
    have listed := Stretch.part_mem listed
    cases node with
    | expr e =>
      cases e <;> simp [stretches, Stretch.exprs, Stretch.entries] at listed <;> grind [Node.loopFree]
    | stmt s =>
      cases s with
      | assign _ target => cases target <;> simp [stretches, Stretch.exprs] at listed <;> grind [Node.loopFree]
      | _ =>
        simp [stretches, Stretch.exprs, Stretch.branches] at listed
        grind [Node.loopFree, Stmt.loopFree, loopFree_of_mem_branches]
    | block b =>
      cases b
      simp [stretches, Stretch.stmts] at listed
      grind [Node.loopFree, Block.loopFree, loopFree_of_mem_stmts]

/-! ### Evaluations that end -/

namespace Evaluation

variable {α β : Type} {depth : Nat}

/-- At a depth of calls, an evaluation has an outcome, after which the depth is the same. -/
def Ends (depth : Nat) (evaluation : Evaluation α) : Prop :=
  ∀ held store, store.depth = depth →
    ∃ result later, evaluation held store = some (result, later) ∧ later.depth = depth

theorem ends_pure (result : α) : (pure result : Evaluation α).Ends depth :=
  fun _ store same => ⟨_, store, rfl, same⟩

theorem Ends.bind {first : Evaluation α} {second : α → Evaluation β} (ends : first.Ends depth)
    (goesOn : ∀ result, (second result).Ends depth) : (first >>= second).Ends depth := by
  intro held store same
  obtain ⟨result, later, outcome, kept⟩ := ends held store same
  rw [bind_apply, outcome]
  cases result with
  | error fault => exact ⟨_, later, rfl, kept⟩
  | ok result => exact goesOn result held later kept

theorem ends_read {more : Store → Evaluation α}
    (ends : ∀ store : Store, store.depth = depth → (more store).Ends depth) :
    (readStore >>= more).Ends depth :=
  fun held store same => ends store same held store same

theorem ends_change {update : Store → Store} (keeps : ∀ store, (update store).depth = store.depth) :
    (change update).Ends depth :=
  fun _ store same => ⟨_, _, rfl, (keeps store).trans same⟩

theorem ends_giveUp (values : List Value) : (giveUp values).Ends depth := ends_change fun _ => rfl

theorem ends_tidy (values : List Value) : (tidy values).Ends depth :=
  fun _ _ same => ⟨_, _, rfl, (Store.settled_depth ..).trans same⟩

theorem ends_answer (value : Value) : (answer value).Ends depth :=
  (ends_tidy _).bind fun _ => ends_pure _

theorem ends_leaveWith (value : Value) : (leaveWith value).Ends depth :=
  (ends_tidy _).bind fun _ => ends_pure _

theorem ends_refuse (line : Nat) (cause : Cause) (values : List Value) :
    (refuse line cause values : Evaluation α).Ends depth :=
  (ends_giveUp _).bind fun _ => (ends_tidy _).bind fun _ => fun _ store same => ⟨_, store, rfl, same⟩

theorem ends_conclude (line : Nat) (result : Except Cause Value) :
    (conclude line result).Ends depth := by
  cases result with
  | ok value => exact ends_answer value
  | error cause => exact ends_refuse line cause []

theorem ends_act (action : Action α) : (act action).Ends depth :=
  fun _ store same => ⟨_, _, rfl, (store.act_depth action).trans same⟩

theorem ends_operate (line : Nat) (action : Action Value) (given : List Value) :
    (operate line action given).Ends depth :=
  (ends_act _).bind fun _ => (ends_giveUp _).bind fun _ => ends_conclude _ _

theorem Ends.retaining {inner : Evaluation α} {leave : Store → Store} (ends : inner.Ends depth)
    (keeps : ∀ store, (leave store).depth = store.depth) (values : List Value) :
    (retaining values leave inner).Ends depth := by
  intro held store same
  obtain ⟨result, later, outcome, kept⟩ := ends (values ++ held) (store.settled (values ++ held))
    ((store.settled_depth _).trans same)
  rw [retaining_apply, outcome]
  cases result with
  | ok result => exact ⟨_, later, rfl, kept⟩
  | error fault => exact ⟨_, _, rfl, (Store.settled_depth ..).trans ((keeps _).trans kept)⟩

theorem ends_framed {inner : Evaluation α} (ends : inner.Ends depth) (values : List Value) :
    (framed values inner).Ends depth := by
  have keeps : ∀ store : Store, store.pop.depth = store.depth := fun _ => rfl
  exact ends.retaining keeps values

end Evaluation

/-! ### Parts that end -/

namespace Evaluators

open Evaluation

variable {code : Code} {self : Evaluators} {depth : Nat}

theorem ends_part {expr : Expr} (ends : (self.expr expr).Ends depth) (values : List Value) :
    (self.part values expr).Ends depth := ends.retaining (fun _ => rfl) values

theorem ends_items {exprs : List Expr} (ends : ∀ expr ∈ exprs, (self.expr expr).Ends depth)
    (before : Array Value) : (self.items before exprs).Ends depth := by
  induction exprs generalizing before with
  | nil => exact ends_operate _ _ _
  | cons expr rest ih =>
    obtain ⟨first, ends⟩ := List.forall_mem_cons.mp ends
    exact (ends_part first _).bind fun value => ih ends _

theorem ends_entries {exprs : List (Expr × Expr)}
    (ends : ∀ entry ∈ exprs, (self.expr entry.1).Ends depth ∧ (self.expr entry.2).Ends depth)
    (before : Std.TreeMap Key Value) : (self.entries before exprs).Ends depth := by
  induction exprs generalizing before with
  | nil => exact ends_operate _ _ _
  | cons entry rest ih =>
    obtain ⟨⟨key, value⟩, ends⟩ := List.forall_mem_cons.mp ends
    refine (ends_part key _).bind fun given => ?_
    cases given.asKey with
    | error cause => exact ends_refuse _ _ _
    | ok found =>
      refine (ends_part value _).bind fun value => ?_
      exact (ends_giveUp _).bind fun _ => ih ends _

theorem ends_passes {filter : Option Expr} (ends : ∀ expr ∈ filter, (self.expr expr).Ends depth)
    (values : List Value) : (self.passes values filter).Ends depth := by
  cases filter with
  | none => exact ends_pure _
  | some condition =>
    rw [passes]
    refine ends_framed ?_ values
    refine (ends condition rfl).bind fun value => ?_
    cases value with
    | bool holds => exact ends_pure _
    | _ => exact ends_refuse _ _ _

/-- The items of a comprehension are taken before the first is looked at, so there is an end to them. -/
theorem ends_collect {collector : Collector} (element : (self.expr collector.element).Ends depth)
    (filter : ∀ expr ∈ collector.filter, (self.expr expr).Ends depth) (rest : List Value)
    (before : Array Value) : (self.collect collector rest before).Ends depth := by
  induction rest generalizing before with
  | nil =>
    rw [collect]
    exact Ends.bind (ends_change fun _ => rfl) fun _ => ends_operate _ _ _
  | cons item rest ih =>
    rw [collect]
    refine Ends.bind (ends_change fun _ => rfl) fun _ => ?_
    refine (ends_passes filter _).bind fun holds => ?_
    cases holds with
    | true => exact (ends_framed element _).bind fun value => ih _
    | false => exact ih _

/-- The body of a call is one level of calls deeper. -/
theorem ends_body {block : Block} (ends : (self.block block).Ends (depth + 1)) (held : List Value)
    (store : Store) (deeper : store.depth = depth + 1) : ∃ result later,
      self.body block held store = some (result, later) ∧ later.depth = depth := by
  obtain ⟨result, later, outcome, kept⟩ := ends ([] ++ held) (store.settled ([] ++ held))
    ((store.settled_depth _).trans deeper)
  rw [body, bind_apply, retaining_apply, outcome]
  have left : ∀ store : Store, store.depth = depth + 1 → (hangUp store).depth = depth := by
    intro store deeper
    exact congrArg (· - 1) deeper
  cases result with
  | error fault =>
    exact ⟨_, _, rfl, (Store.settled_depth ..).trans (left _ kept)⟩
  | ok completion =>
    cases completion with
    | returned value => exact ends_answer value held _ (left later kept)
    | normal value => exact ends_answer .none held _ (left later kept)

/-- The bodies of all functions end where one more call is allowed. -/
def CallsEnd (code : Code) (self : Evaluators) (depth : Nat) : Prop :=
  ∀ (node : NodeId) (function : Function), code.functions[node]? = some function →
    depth < code.maxCallDepth → (self.block function.body).Ends (depth + 1)

theorem ends_invoke (calls : self.CallsEnd code depth) (node : NodeId) (args : List Value)
    (line : Nat) : (self.invoke code node args line).Ends depth := by
  refine ends_read fun store same => ?_
  cases found : code.functions[node]? with
  | none => exact ends_refuse _ _ _
  | some function =>
    simp only
    split
    · exact ends_refuse _ _ _
    split
    · exact ends_refuse _ _ _
    rename_i shallow
    split
    · exact ends_refuse _ _ _
    · rename_i parent _
      intro held store' same'
      refine ends_body (calls node function found (by omega)) held _ ?_
      show (bindParams function.params args
        (store'.push parent (code.scopeOf store function.id))).depth + 1 = depth + 1
      rw [bindParams_eq]
      exact congrArg (· + 1) same'

theorem ends_dispatch {callee : Ident}
    (calls : self.CallsEnd code depth) (line : Nat) (args : List Value) :
    (self.dispatch code callee line args).Ends depth := by
  unfold dispatch
  split
  · exact ends_refuse _ _ _
  · exact ends_invoke calls _ _ _
  · split
    · exact ends_operate _ _ _
    · exact ends_refuse _ _ _
  · exact ends_refuse _ _ _

theorem ends_args {callee : Ident} {exprs : List Expr}
    (ends : ∀ expr ∈ exprs, (self.expr expr).Ends depth)
    (calls : self.CallsEnd code depth) (line : Nat) (before : Array Value) :
    (self.args code callee line before exprs).Ends depth := by
  induction exprs generalizing before with
  | nil => exact ends_dispatch calls line before.toList
  | cons expr rest ih =>
    obtain ⟨first, ends⟩ := List.forall_mem_cons.mp ends
    exact (ends_part first _).bind fun value => ih ends _

theorem ends_second {right : Expr} (ends : (self.expr right).Ends depth) (op : BinaryOp) :
    (self.second op right).Ends depth := by
  refine (ends_part ends _).bind fun value => ?_
  cases value with
  | bool holds => exact ends_answer _
  | _ => exact ends_refuse _ _ _

/-- **An expression whose parts end ends**, if the bodies of called functions do. -/
theorem ends_evalExpr (expr : Expr)
    (parts : ∀ part, sizeOf part < sizeOf expr → (self.expr part).Ends depth)
    (calls : self.CallsEnd code depth) : (self.evalExpr code expr).Ends depth := by
  cases expr with
  | int | bool | text | none => exact ends_answer _
  | name => exact ends_read fun store _ => ends_conclude _ _
  | binary tag op left right =>
    rw [Expr.binary.sizeOf_spec] at parts
    refine (ends_part (parts left (by omega)) _).bind fun first => ?_
    split
    · split
      · split
        · exact ends_answer _
        · exact ends_second (parts right (by omega)) op
      · exact ends_refuse _ _ _
    · refine (ends_part (parts right (by omega)) _).bind fun second => ?_
      exact ends_read fun store _ => (ends_giveUp _).bind fun _ => ends_conclude _ _
  | unary tag op operand =>
    rw [Expr.unary.sizeOf_spec] at parts
    refine (ends_part (parts operand (by omega)) _).bind fun value => ?_
    exact (ends_giveUp _).bind fun _ => ends_conclude _ _
  | index tag base index =>
    rw [Expr.index.sizeOf_spec] at parts
    refine (ends_part (parts base (by omega)) _).bind fun base => ?_
    refine (ends_part (parts index (by omega)) _).bind fun index => ?_
    exact ends_read fun store _ => (ends_giveUp _).bind fun _ => ends_conclude _ _
  | array tag exprs =>
    rw [Expr.array.sizeOf_spec] at parts
    refine ends_items (fun expr member => parts expr ?_) _
    have smaller := List.sizeOf_lt_of_mem member
    omega
  | sized tag size =>
    rw [Expr.sized.sizeOf_spec] at parts
    refine (ends_part (parts size (by omega)) _).bind fun value => ?_
    split
    · split
      · exact ends_refuse _ _ _
      · exact ends_operate _ _ _
    · exact ends_refuse _ _ _
  | map tag exprs =>
    rw [Expr.map.sizeOf_spec] at parts
    refine ends_entries (fun entry member => ?_) _
    obtain ⟨key, value⟩ := entry
    have smaller := List.sizeOf_lt_of_mem member
    rw [Prod.mk.sizeOf_spec] at smaller
    exact ⟨parts key (by omega), parts value (by omega)⟩
  | comprehension tag element binder source filter =>
    rw [Expr.comprehension.sizeOf_spec] at parts
    refine (ends_part (parts source (by omega)) _).bind fun value => ?_
    split
    · refine ends_read fun store _ => ?_
      refine Ends.bind (ends_change fun _ => rfl) fun _ => ?_
      refine ends_collect (parts element (by omega)) (fun condition found => parts condition ?_) _ _
      obtain rfl : filter = some condition := found
      rw [Option.some.sizeOf_spec]
      omega
    · exact ends_refuse _ _ _
  | call tag callee exprs =>
    rw [Expr.call.sizeOf_spec] at parts
    refine ends_args (fun expr member => parts expr ?_) calls _ _
    have smaller := List.sizeOf_lt_of_mem member
    omega

theorem ends_assign (name : Ident) (line : Nat) (value : Value) :
    (assign code name line value).Ends depth := by
  refine ends_read fun store _ => ?_
  split
  · refine Ends.bind (ends_change fun _ => rfl) fun _ => ?_
    exact (ends_answer _).bind fun _ => ends_pure _
  · exact ends_refuse _ _ _

theorem ends_assignElement (line : Nat) (base index value : Value) :
    (assignElement line base index value).Ends depth := by
  refine (ends_act _).bind fun result => ?_
  cases result with
  | ok old => exact (ends_giveUp _).bind fun _ => (ends_answer _).bind fun _ => ends_pure _
  | error cause => exact ends_refuse _ _ _

theorem ends_discarded {block : Block} (ends : (self.block block).Ends depth) :
    (self.discarded block).Ends depth := by
  refine (ends.retaining (fun _ => rfl) _).bind fun completion => ?_
  cases completion with
  | returned value => exact ends_pure _
  | normal value => exact (ends_giveUp _).bind fun _ => (ends_answer _).bind fun _ => ends_pure _

theorem ends_clauses {branches : List Branch}
    (ends : ∀ position condition body, Branch.mk position condition body ∈ branches →
      (∀ expr ∈ condition, (self.expr expr).Ends depth) ∧ (self.block body).Ends depth) :
    (self.clauses branches).Ends depth := by
  induction branches with
  | nil => exact (ends_answer _).bind fun _ => ends_pure _
  | cons branch rest ih =>
    obtain ⟨position, condition, body⟩ := branch
    obtain ⟨test, inside⟩ := ends position condition body List.mem_cons_self
    cases condition with
    | none => exact ends_discarded inside
    | some condition =>
      refine (ends_part (test condition rfl) _).bind fun value => ?_
      split
      · exact ends_discarded inside
      · exact ih fun position condition body member =>
          ends position condition body (List.mem_cons_of_mem _ member)
      · exact ends_refuse _ _ _

/-- A `for` goes through the items that the array had at its beginning. -/
theorem ends_iterate {body : Block} (ends : (self.block body).Ends depth) (binder : Ident)
    (rest : List Value) : (self.iterate binder body rest).Ends depth := by
  induction rest with
  | nil =>
    rw [iterate]
    exact Ends.bind (ends_change fun _ => rfl) fun _ => (ends_answer _).bind fun _ => ends_pure _
  | cons item rest ih =>
    rw [iterate]
    refine Ends.bind (ends_change fun _ => rfl) fun _ => ?_
    refine (ends_framed ends _).bind fun completion => ?_
    cases completion with
    | returned value =>
      refine (ends_giveUp _).bind fun _ => ?_
      exact Ends.bind (ends_change fun _ => rfl) fun _ => ends_leaveWith _
    | normal value => exact (ends_giveUp _).bind fun _ => ih

/-- **A statement without `while` whose parts end ends.** -/
theorem ends_execStmt (stmt : Stmt) (free : stmt.loopFree = true)
    (parts : ∀ part, sizeOf part < sizeOf stmt → (self.expr part).Ends depth)
    (blocks : ∀ block : Block, block.loopFree = true → sizeOf block < sizeOf stmt →
      (self.block block).Ends depth) : (self.execStmt code stmt).Ends depth := by
  cases stmt with
  | expr expr =>
    rw [Stmt.expr.sizeOf_spec] at parts
    exact (parts expr (by omega)).bind fun _ => ends_pure _
  | assign tag target expr final =>
    rw [Stmt.assign.sizeOf_spec] at parts
    cases target with
    | name name =>
      exact (ends_part (parts expr (by omega)) _).bind fun _ => ends_assign _ _ _
    | element tag base index =>
      rw [Target.element.sizeOf_spec] at parts
      refine (ends_part (parts expr (by omega)) _).bind fun value => ?_
      refine (ends_part (parts base (by omega)) _).bind fun base => ?_
      exact (ends_part (parts index (by omega)) _).bind fun index => ends_assignElement _ _ _ _
  | cond position condition body branches =>
    rw [Stmt.cond.sizeOf_spec] at parts blocks
    obtain ⟨clean, others⟩ := Bool.and_eq_true_iff.mp free
    refine ends_clauses fun position' condition' body' member => ?_
    rcases List.mem_cons.mp member with same | member
    · cases same
      refine ⟨fun expr found => ?_, blocks body clean (by omega)⟩
      cases found
      exact parts condition (by omega)
    · have smaller := List.sizeOf_lt_of_mem member
      rw [Branch.mk.sizeOf_spec] at smaller
      refine ⟨fun expr found => parts expr ?_, blocks body' ?_ (by omega)⟩
      · cases found
        rw [Option.some.sizeOf_spec] at smaller
        omega
      · exact loopFree_of_mem_branches others member
  | loop => cases free
  | each tag binder source body =>
    rw [Stmt.each.sizeOf_spec] at parts blocks
    refine (ends_part (parts source (by omega)) _).bind fun value => ?_
    split
    · refine ends_read fun store _ => ?_
      refine Ends.bind (ends_change fun _ => rfl) fun _ => ?_
      exact ends_iterate (blocks body free (by omega)) _ _
    · exact ends_refuse _ _ _
  | define => exact (ends_answer _).bind fun _ => ends_pure _
  | ret position value =>
    cases value with
    | none => exact ends_leaveWith _
    | some expr =>
      rw [Stmt.ret.sizeOf_spec, Option.some.sizeOf_spec] at parts
      exact (ends_part (parts expr (by omega)) _).bind fun _ => ends_leaveWith _

theorem ends_stmts {stmts : List Stmt} (ends : ∀ stmt ∈ stmts, (self.stmt stmt).Ends depth) (last : Value) :
    (self.stmts last stmts).Ends depth := by
  induction stmts generalizing last with
  | nil =>
    rw [Evaluators.stmts]
    exact Ends.bind (ends_change fun _ => rfl) fun _ => (ends_answer _).bind fun _ => ends_pure _
  | cons stmt rest ih =>
    rw [Evaluators.stmts]
    obtain ⟨first, ends⟩ := List.forall_mem_cons.mp ends
    refine (ends_framed first _).bind fun completion => ?_
    cases completion with
    | returned value => exact Ends.bind (ends_change fun _ => rfl) fun _ => ends_leaveWith _
    | normal value => exact (ends_giveUp _).bind fun _ => ih ends value

theorem ends_execBlock (block : Block) (free : block.loopFree = true)
    (ends : ∀ stmt : Stmt, stmt.loopFree = true → sizeOf stmt < sizeOf block →
      (self.stmt stmt).Ends depth) : (self.execBlock code block).Ends depth := by
  obtain ⟨tag, stmts⟩ := block
  rw [Block.mk.sizeOf_spec] at ends
  refine Ends.bind (ends_change fun _ => rfl) fun _ => ?_
  refine ends_stmts (fun stmt member => ends stmt (loopFree_of_mem_stmts free member) ?_) _
  have smaller := List.sizeOf_lt_of_mem member
  omega

end Evaluators

/-! ### How deep evaluation goes -/

/-- A bound on how deep the evaluation of a text goes: its own size, and that of the largest body for
each call that is still allowed. -/
def Code.reach (code : Code) (largest size depth : Nat) : Nat :=
  size + (code.maxCallDepth - depth) * largest

/-- Evaluators that end on all texts that do not go deeper than a level. -/
structure Code.EndsWithin (code : Code) (largest level : Nat) (given : Evaluators) : Prop where
  expr : ∀ depth expr, code.reach largest (sizeOf expr) depth < level → (given.expr expr).Ends depth
  stmt : ∀ depth stmt, stmt.loopFree = true → code.reach largest (sizeOf stmt) depth < level →
    (given.stmt stmt).Ends depth
  block : ∀ depth block, block.loopFree = true → code.reach largest (sizeOf block) depth < level →
    (given.block block).Ends depth

/-- **A text ends if evaluation may go as deep as its size and the allowed calls ask for.** The induction
is on the level: parts are smaller, and the body of a call, of whatever size, uses up one of the calls
that are allowed. -/
theorem Code.evaluators_end {code : Code} {largest : Nat}
    (bodies : ∀ (node : NodeId) (function : Function), code.functions[node]? = some function →
      sizeOf function.body < largest ∧ function.body.loopFree = true) (level : Nat) :
    code.EndsWithin largest level (code.evaluators level) := by
  induction level with
  | zero => exact ⟨fun _ _ deep => absurd deep (Nat.not_lt_zero _),
      fun _ _ _ deep => absurd deep (Nat.not_lt_zero _),
      fun _ _ _ deep => absurd deep (Nat.not_lt_zero _)⟩
  | succ level ih =>
    have smaller : ∀ {size size' depth : Nat}, size < size' →
        code.reach largest size' depth < level + 1 → code.reach largest size depth < level := by
      intro size size' depth smaller deep
      unfold Code.reach at *
      omega
    refine ⟨fun depth expr deep => ?_, fun depth stmt free deep => ?_, fun depth block free deep => ?_⟩
    · refine Evaluators.ends_evalExpr expr (fun part less => ih.expr depth part (smaller less deep)) ?_
      intro node function found shallow
      obtain ⟨fits, free⟩ := bodies node function found
      refine ih.block (depth + 1) function.body free ?_
      have fewer : (code.maxCallDepth - depth) * largest =
          (code.maxCallDepth - (depth + 1)) * largest + largest := by
        rw [← Nat.succ_mul]
        congr 1
        omega
      unfold Code.reach at *
      omega
    · exact Evaluators.ends_execStmt stmt free
        (fun part less => ih.expr depth part (smaller less deep))
        (fun block free less => ih.block depth block free (smaller less deep))
    · exact Evaluators.ends_execBlock block free
        (fun stmt free less => ih.stmt depth stmt free (smaller less deep))

/-! ### Scripts -/

namespace Script

variable {source : String} {options : Options} {script : Script}

/-- A script without `while` is evaluated down to some level. -/
theorem evaluate_of_loopFree (free : script.program.body.loopFree = true) (host : Host) :
    ∃ level ending, script.evaluate level host = some ending ∧
      ((∃ value, ending.outcome = .value value) ∨ ∃ fault, ending.outcome = .fault fault) := by
  have bodies : ∀ (node : NodeId) (function : Function),
      script.code.functions[node]? = some function →
        sizeOf function.body < sizeOf script.program.body.functions ∧
          function.body.loopFree = true := by
    intro node function found
    obtain ⟨-, member⟩ := Program.mem_functions found
    have listed := List.sizeOf_lt_of_mem member
    have inside : sizeOf function.body < sizeOf function := by
      rw [Function.mk.sizeOf_spec]
      omega
    obtain ⟨_, _, within, -⟩ := (Node.block script.program.body).defines member
    exact ⟨inside.trans listed, within.loopFree free⟩
  let level := script.code.reach (sizeOf script.program.body.functions) (sizeOf script.program.body) 0 + 1
  have ends := (Code.evaluators_end bodies level).block 0 script.program.body free
    (Nat.lt_succ_self _)
  obtain ⟨result, later, outcome, -⟩ := ends [] (firstStore host) rfl
  refine ⟨level, ?_⟩
  unfold Script.evaluate
  rw [outcome]
  cases result with
  | error fault => exact ⟨_, rfl, .inr ⟨_, rfl⟩⟩
  | ok completion => cases completion <;> exact ⟨_, rfl, .inl ⟨_, rfl⟩⟩

/-- **Runs of scripts without `while` end.** With any allowed depth of calls, any arguments and any files
there is a number of steps after which the run has ended with a value or a failure. On any heap, texts and
comparisons of values are the same however deep they may follow values into containers, so their bounds
cut off nothing, containers inside themselves included. -/
theorem loopFree_ends (free : script.program.body.loopFree = true) (host : Host) :
    (∃ steps ending, (∀ more, script.endingAfter (steps + more) host = ending) ∧
      ((∃ value, ending.outcome = .value value) ∨ ∃ fault, ending.outcome = .fault fault) ∧
      (steps ≤ stepBudget → script.runOn host = ending)) ∧
    ∀ (heap : Heap) (value other : Value) (more : Nat),
      value.pieces heap (heap.size + 1 + more) [] false = value.written heap ∧
      value.sameWithin heap (heap.size * heap.size + 1 + more) [] other = value.same heap other := by
  refine ⟨?_, fun heap value other more => ⟨Value.written_eq_pieces heap value more,
    Value.same_eq_sameWithin heap value other more⟩⟩
  obtain ⟨level, ending, evaluated, finished⟩ := evaluate_of_loopFree free host
  obtain ⟨steps, ends⟩ := ends_of_evaluate evaluated
  refine ⟨steps, ending, ends, finished, fun few => ?_⟩
  rw [run_eq_endingAfter, ← Nat.add_sub_cancel' few]
  exact ends _

/-- A function that always calls itself, a `for` over an array that changes and contains itself, and that
array shown and compared. -/
def tangled : String :=
  "\n".intercalate ["def down(n):", "  return down(n + 1)", "end", "a = [1, 2]", "a[0] = a",
    "for x in a:", "  a[1] = x", "end", "println(a)", "println(a == [a, a])", "down(0)", ""]

/-- The run ends where no more calls are allowed. -/
theorem loopFree_ends_tangled : ∃ script, Script.compile tangled { maxCallDepth := 3 } = .ok script ∧
    script.program.body.loopFree = true ∧
    ∃ steps ending, (∀ more, script.endingAfter (steps + more) .bare = ending) ∧
      ending.outcome = .fault ⟨2, .callDepth 3⟩ := by
  refine exists_compiled (fun script => script.program.body.loopFree &&
    (script.evaluate 30 .bare).any fun ending => ending.outcome = .fault ⟨2, .callDepth 3⟩)
    (by decide +kernel) fun script compiled test => ?_
  obtain ⟨free, atEnd⟩ := Bool.and_eq_true_iff.mp test
  obtain ⟨⟨steps, ending, ends, -, -⟩, -⟩ := loopFree_ends free .bare
  obtain ⟨ending', evaluated, fails⟩ := (Option.any_eq_true _ _).mp atEnd
  obtain ⟨steps', ends'⟩ := ends_of_evaluate evaluated
  obtain rfl : ending = ending' := by
    rw [← ends steps', Nat.add_comm, ends' steps]
  exact ⟨free, steps, ending, ends, of_decide_eq_true fails⟩

end Script

end ScopedScript

/-
**Structured evaluation.**

A second account of what a program does, by recursion over its text. A statement or a block ends
normally with a value, or it returns one. What returns ends the blocks, branches and loops around it up to
the innermost call, whose value it is; a call whose body ends normally gives `None`. No mark is left
anywhere for this:

* `Completion`: how a statement or a block ends unless it fails;
* `Evaluation`: a computation on a store, among values that are held elsewhere;
* `Evaluators`: an evaluator for each kind of text, `Evaluators.next` those that look one level deeper;
* `Code.evaluators`: the evaluators down to a level, `Script.evaluate` the whole program.
-/

import ScopedScript.Script

namespace ScopedScript

/-- How a statement or a block ends. -/
inductive Completion where
  | normal (value : Value)
  | returned (value : Value)

/-- A store whose references given up are dealt with, while values `outside` the frames are in use. -/
def Store.settled (outside : List Value) (store : Store) : Store :=
  if store.gone.isEmpty then store
  else
    let loose := store.world.keepsBytes &&
      store.gone.any fun value => !store.frames.any (· == value)
    let kept := outside ++ store.frames.values
    { store with
      world := if loose then store.world.release kept store.gone else store.world
      gone := [] }

/-- A computation that changes a store and fails or gives a result, where `held` are the values that are
in use elsewhere. It has no outcome if it goes deeper than its level allows. -/
def Evaluation (α : Type) : Type :=
  (held : List Value) → Store → Option (Except Fault α × Store)

namespace Evaluation

variable {α : Type}

instance : Monad Evaluation where
  pure result := fun _ store => some (.ok result, store)
  bind first second := fun held store =>
    match first held store with
    | some (.ok result, store) => second result held store
    | some (.error fault, store) => some (.error fault, store)
    | none => none

/-- No outcome. -/
def exhausted : Evaluation α := fun _ _ => none

/-- The store. -/
def readStore : Evaluation Store := fun _ store => some (.ok store, store)

/-- Changes the store. -/
def change (update : Store → Store) : Evaluation Unit := fun _ store => some (.ok (), update store)

/-- Gives up values. -/
def giveUp (values : List Value) : Evaluation Unit := change fun store => store.drop values

/-- Deals with the references given up so far, while `values` are in use as well. -/
def tidy (values : List Value) : Evaluation Unit := fun held store =>
  some (.ok (), store.settled (values ++ held))

/-- Gives a value. -/
def answer (value : Value) : Evaluation Value := do
  tidy [value]
  return value

/-- Returns a value from the call around. -/
def leaveWith (value : Value) : Evaluation Completion := do
  tidy [value]
  return .returned value

/-- Gives up values and fails at a line. -/
def refuse (line : Nat) (cause : Cause) (values : List Value) : Evaluation α := do
  giveUp values
  tidy []
  fun _ store => some (.error ⟨line, cause⟩, store)

/-- Gives a value or fails at a line. -/
def conclude (line : Nat) : Except Cause Value → Evaluation Value
  | .ok value => answer value
  | .error cause => refuse line cause []

/-- Runs an action on the world. -/
def act (action : Action α) : Evaluation (Except Cause α) := fun _ store =>
  match store.act action with
  | (result, store) => some (.ok result, store)

/-- Gives what an action on the world gives, or fails at a line. The values that the action was given
are given up after it. -/
def operate (line : Nat) (action : Action Value) (given : List Value) : Evaluation Value := do
  let result ← act action
  giveUp given
  conclude line result

/-- A computation that holds values while it runs. If it fails they are given up, and `leave` undoes what
was set up for it. -/
def retaining (values : List Value) (leave : Store → Store) (inner : Evaluation α) : Evaluation α :=
  fun held store =>
    match (tidy [] >>= fun _ => inner) (values ++ held) store with
    | some (.error fault, store) => some (.error fault, (leave (store.drop values)).settled held)
    | outcome => outcome

/-- A computation in a frame of its own that holds values. -/
def framed (values : List Value) (inner : Evaluation α) : Evaluation α :=
  retaining values Store.pop inner

end Evaluation

open Evaluation

/-- An evaluator for each kind of text. -/
structure Evaluators where
  expr : Expr → Evaluation Value
  stmt : Stmt → Evaluation Completion
  block : Block → Evaluation Completion

namespace Evaluators

variable (code : Code) (self : Evaluators)

/-! ### Expressions -/

/-- A part of an expression or a statement, while the values of the parts before it are held. -/
def part (values : List Value) (expr : Expr) : Evaluation Value := retaining values id (self.expr expr)

/-- The items of an array literal. -/
def items (before : Array Value) : List Expr → Evaluation Value
  | [] => operate 0 (allocate before) []
  | expr :: rest => do
    let value ← self.part before.toList expr
    items (before.push value) rest

/-- The entries of a map literal. -/
def entries (before : Std.TreeMap Key Value) : List (Expr × Expr) → Evaluation Value
  | [] => operate 0 (allocateMap before) []
  | (keyExpr, expr) :: rest => do
    let value ← self.part before.values keyExpr
    match value.asKey with
    | .error cause => refuse keyExpr.line cause (value :: before.values)
    | .ok key => do
      let value ← self.part before.values expr
      giveUp before[key]?.toList
      entries (before.insert key value) rest

/-- Whether an item passes the filter of a comprehension. -/
def passes (values : List Value) : Option Expr → Evaluation Bool
  | none => return true
  | some condition => framed values do
    match ← self.expr condition with
    | .bool holds => return holds
    | other => refuse condition.line (.type (.condition other.kind)) [other]

/-- The items of a comprehension. -/
def collect (collector : Collector) : List Value → Array Value → Evaluation Value
  | [], before => do
    change Store.pop
    operate 0 (allocate before) []
  | item :: rest, before => do
    change fun store => store.bindHere collector.binder.name item
    if ← self.passes (rest ++ before.toList) collector.filter then do
      let value ← framed (rest ++ before.toList) (self.expr collector.element)
      collect collector rest (before.push value)
    else collect collector rest before

/-- The end of a call. -/
def hangUp (store : Store) : Store := { store.pop with depth := store.depth - 1 }

/-- The body of a called function, with the parameters bound. The value of the call is what the body
returns; the value of a body that ends normally is given up. -/
def body (block : Block) : Evaluation Value := do
  match ← retaining [] hangUp (self.block block) with
  | .returned value => do
    change hangUp
    answer value
  | .normal value => do
    change fun store => (hangUp store).drop [value]
    answer .none

/-- A call of a function of the program. -/
def invoke (node : NodeId) (args : List Value) (line : Nat) : Evaluation Value := do
  let store ← readStore
  match code.functions[node]? with
  | none => refuse line (.type .undefined) args
  | some function =>
    if args.length ≠ function.params.length then
      refuse line (.type (.argumentCount function.name.name function.params.length args.length)) args
    else if code.maxCallDepth ≤ store.depth then refuse line (.callDepth code.maxCallDepth) args
    else
      let scope := code.scopeOf store function.id
      let declaring := (code.analysis.tree.parent? scope).getD ScopeTree.root
      match store.frames.frameFor store.current declaring with
      | none => refuse line (.unbound function.name.name) args
      | some parent => do
        change fun store =>
          let store := bindParams function.params args (store.push parent scope)
          { store with depth := store.depth + 1 }
        self.body function.body

/-- A call of what a name stands for. -/
def dispatch (callee : Ident) (line : Nat) (args : List Value) : Evaluation Value :=
  match code.resolved? callee.id with
  | none => refuse line (.unbound callee.name) args
  | some (_, .function node _) => self.invoke code node args line
  | some (_, .builtin (.function _)) =>
    match Builtin.ofName? callee.name with
    | some builtin => operate line (builtin.call args) args
    | none => refuse line (.type (.notProvided callee.name)) args
  | some _ => refuse line (.type (.notFunction callee.name)) args

/-- The arguments of a call, and the call. -/
def args (callee : Ident) (line : Nat) (before : Array Value) : List Expr → Evaluation Value
  | [] => self.dispatch code callee line before.toList
  | expr :: rest => do
    let value ← self.part before.toList expr
    args callee line (before.push value) rest

/-- The second operand of `and` or `or`, if the first did not decide. -/
def second (op : BinaryOp) (right : Expr) : Evaluation Value := do
  match ← self.part [] right with
  | .bool holds => answer (.bool holds)
  | other => refuse right.line (.type (.logical op other.kind)) [other]

/-- An expression. -/
def evalExpr : Expr → Evaluation Value
  | .int _ value => answer (.int value)
  | .bool _ value => answer (.bool value)
  | .text _ value => answer (.text value)
  | .none _ => answer .none
  | .name tag name => do
    let store ← readStore
    conclude tag.position.line (code.lookup store tag.id name)
  | .binary tag op left right => do
    let first ← self.part [] left
    if op.kind = .logical then
      match first with
      | .bool holds => if holds = (op == .or) then answer (.bool holds) else self.second op right
      | other => refuse left.line (.type (.logical op other.kind)) [other]
    else do
      let second ← self.part [first] right
      let store ← readStore
      giveUp [second, first]
      conclude tag.position.line (op.apply store.world.heap first second)
  | .unary tag op operand => do
    let value ← self.part [] operand
    giveUp [value]
    conclude tag.position.line (op.apply value)
  | .index tag baseExpr indexExpr => do
    let base ← self.part [] baseExpr
    let index ← self.part [base] indexExpr
    let store ← readStore
    giveUp [index, base]
    conclude tag.position.line (base.load store.world.heap index)
  | .array _ exprs => self.items #[] exprs
  | .sized tag size => do
    match ← self.part [] size with
    | .int count =>
      if count < 0 then refuse tag.position.line (.type (.negativeSize count)) []
      else operate tag.position.line (allocateSized count fun _ => .none) []
    | other => refuse tag.position.line (.type (.size other.kind)) [other]
  | .map _ exprs => self.entries ∅ exprs
  | .comprehension tag element binder source filter => do
    match ← self.part [] source with
    | .array place => do
      let store ← readStore
      change fun store =>
        (store.drop [.array place]).push store.current (code.scopeOf store tag.id)
      self.collect ⟨element, binder, filter⟩ (store.world.heap.items place).toList #[]
    | other => refuse tag.position.line (.type (.comprehensionSource other.kind)) [other]
  | .call tag callee exprs => self.args code callee tag.position.line #[] exprs

/-! ### Statements -/

/-- An assignment to a name. -/
def assign (name : Ident) (line : Nat) (value : Value) : Evaluation Completion := do
  let store ← readStore
  match (code.analysis.resolutions[name.id]?).bind fun resolution =>
      store.frames.frameFor store.current resolution.scope with
  | some frame => do
    change fun store => store.bind frame name.name value
    return .normal (← answer value)
  | none => refuse line (.unbound name.name) [value]

/-- An assignment to an element of a container. -/
def assignElement (line : Nat) (base index value : Value) : Evaluation Completion := do
  match ← act (replaceElement base index value) with
  | .ok old => do
    giveUp (old.toList ++ [index, base])
    return .normal (← answer .none)
  | .error cause => refuse line cause [value, index, base]

/-- A block whose value is not used. -/
def discarded (block : Block) : Evaluation Completion := do
  match ← retaining [] id (self.block block) with
  | .returned value => return .returned value
  | .normal value => do
    giveUp [value]
    return .normal (← answer .none)

/-- The clauses of an `if`. -/
def clauses : List Branch → Evaluation Completion
  | [] => return .normal (← answer .none)
  | .mk _ none body :: _ => self.discarded body
  | .mk _ (some condition) body :: rest => do
    match ← self.part [] condition with
    | .bool true => self.discarded body
    | .bool false => clauses rest
    | other => refuse condition.line (.type (.condition other.kind)) [other]

/-- The body of a `while` whose condition held, and what `again` does after it. -/
def repeated (body : Block) (again : Evaluation Completion) : Evaluation Completion := do
  match ← retaining [] id (self.block body) with
  | .returned value => return .returned value
  | .normal value => do
    giveUp [value]
    tidy []
    again

/-- The items of a `for`. -/
def iterate (binder : Ident) (body : Block) : List Value → Evaluation Completion
  | [] => do
    change Store.pop
    return .normal (← answer .none)
  | item :: rest => do
    change fun store => store.bindHere binder.name item
    match ← framed rest (self.block body) with
    | .returned value => do
      giveUp rest
      change Store.pop
      leaveWith value
    | .normal value => do
      giveUp [value]
      iterate binder body rest

/-- A statement. -/
def execStmt : Stmt → Evaluation Completion
  | .expr expr => return .normal (← self.expr expr)
  | .assign tag (.name name) expr _ => do
    let value ← self.part [] expr
    assign code name tag.position.line value
  | .assign _ (.element tag baseExpr indexExpr) expr _ => do
    let value ← self.part [] expr
    let base ← self.part [value] baseExpr
    let index ← self.part [base, value] indexExpr
    assignElement tag.position.line base index value
  | .cond position condition body branches =>
    self.clauses (.mk position (some condition) body :: branches)
  | .loop position condition body => do
    match ← self.part [] condition with
    | .bool true => self.repeated body (self.stmt (.loop position condition body))
    | .bool false => return .normal (← answer .none)
    | other => refuse condition.line (.type (.condition other.kind)) [other]
  | .each tag binder source body => do
    match ← self.part [] source with
    | .array place => do
      let store ← readStore
      change fun store =>
        (store.drop [.array place]).push store.current (code.scopeOf store tag.id)
      self.iterate binder body (store.world.heap.items place).toList
    | other => refuse tag.position.line (.type (.eachSource other.kind)) [other]
  | .define .. => return .normal (← answer .none)
  | .ret _ (some expr) => do
    let value ← self.part [] expr
    leaveWith value
  | .ret _ none => leaveWith .none

/-- The statements of a block, of which `last` is the value so far. -/
def stmts (last : Value) : List Stmt → Evaluation Completion
  | [] => do
    change Store.pop
    return .normal (← answer last)
  | stmt :: rest => do
    match ← framed [last] (self.stmt stmt) with
    | .returned value => do
      change fun store => (store.drop [last]).pop
      leaveWith value
    | .normal value => do
      giveUp [last]
      stmts value rest

/-- A block, in a frame of its own. -/
def execBlock (block : Block) : Evaluation Completion := do
  change fun store => store.push store.current (code.scopeOf store block.id)
  self.stmts .none block.stmts

/-- The evaluators that hand the parts of a text to given ones. -/
def next : Evaluators where
  expr := self.evalExpr code
  stmt := self.execStmt code
  block := self.execBlock code

end Evaluators

/-- The evaluators of texts that go no deeper than a level. -/
def Code.evaluators (code : Code) : Nat → Evaluators
  | 0 => ⟨fun _ => exhausted, fun _ => exhausted, fun _ => exhausted⟩
  | level + 1 => (code.evaluators level).next code

/-- How a run ends by structured evaluation down to a level. -/
def Script.evaluate (script : Script) (level : Nat) (host : Host) : Option Ending :=
  match (script.code.evaluators level).block script.program.body [] (Script.firstStore host) with
  | some (.ok (.normal value), store) | some (.ok (.returned value), store) =>
    some ⟨.value value, store.world.release [value] store.remains⟩
  | some (.error fault, store) => some ⟨.fault fault, store.world.release [] store.remains⟩
  | none => none

end ScopedScript

/-
**One step of the machine.**

A step looks at the control and, when that hands over a value, at the work that waits for it. Every
step is a plain case analysis, so nothing here calls itself. A step also says which references it gives
up and in which order: operands from right to left, arguments and items from left to right, work before
the frame it runs in:

* `Code`: what a run needs to know of the analysed program;
* `Code.eval`, `Code.exec`, `Code.enter`, `Code.resume`: the steps by control;
* `Code.step`: one step, `Progress` what it can come to.
-/

import ScopedScript.Machine.Config

namespace ScopedScript

/-- What a run needs to know of an analysed program. -/
structure Code where
  analysis : Analysis
  /-- The functions of the program by the node that defines them. -/
  functions : Std.TreeMap NodeId Function
  maxCallDepth : Nat

/-- What a step comes to. -/
inductive Progress where
  | next (config : Config)
  | finished (value : Value) (store : Store)
  | failed (fault : Fault) (store : Store)

def give (value : Value) (pending : List Pending) (store : Store) : Config :=
  ⟨.resume value, pending, store⟩

def fail (line : Nat) (cause : Cause) (pending : List Pending) (store : Store) : Config :=
  ⟨.unwind ⟨line, cause⟩, pending, store⟩

def evaluate (expr : Expr) (work : Pending) (pending : List Pending) (store : Store) : Config :=
  ⟨.eval expr, work :: pending, store⟩

/-- Goes on with what an action on the world gives, or fails at a line. The values that the action
was given are given up after it. -/
def perform (line : Nat) (action : Action Value) (given : List Value) (pending : List Pending)
    (store : Store) : Config :=
  match store.act action with
  | (.ok value, store) => give value pending (store.drop given)
  | (.error cause, store) => fail line cause pending (store.drop given)

/-- Goes on with a value that can fail at a line. -/
def settle (line : Nat) (result : Except Cause Value) (pending : List Pending) (store : Store) :
    Config :=
  match result with
  | .ok value => give value pending store
  | .error cause => fail line cause pending store

def allocateMap (entries : Std.TreeMap Key Value) : Action Value :=
  modifyGet fun world =>
    let (value, heap) := world.heap.newMap entries
    (value, { world with heap })

/-- Stores an element of a container; gives what was there. -/
def replaceElement (base index value : Value) : Action (Option Value) := fun world =>
  match base.slot world.heap index with
  | .ok slot =>
    let old := world.heap.at? slot
    .ok old { world with heap := world.heap.put slot value }
  | .error cause => .error cause world

/-- Stores an element of a container. What was there is given up, or the value if it cannot be
stored. -/
def storeElement (line : Nat) (base index value : Value) (pending : List Pending) (store : Store) :
    Config :=
  match store.act (replaceElement base index value) with
  | (.ok old, store) => give .none pending (store.drop (old.toList ++ [index, base]))
  | (.error cause, store) => fail line cause pending (store.drop [value, index, base])

def evalItems (before : Array Value) (rest : List Expr) (pending : List Pending) (store : Store) :
    Config :=
  match rest with
  | [] => perform 0 (allocate before) [] pending store
  | expr :: rest => evaluate expr (.items before rest) pending store

def evalEntries (before : Std.TreeMap Key Value) (rest : List (Expr × Expr))
    (pending : List Pending) (store : Store) : Config :=
  match rest with
  | [] => perform 0 (allocateMap before) [] pending store
  | (key, value) :: rest => evaluate key (.key key.line before value rest) pending store

/-- Goes on with the items that a comprehension has left. -/
def collect (collector : Collector) (rest : List Value) (before : Array Value)
    (pending : List Pending) (store : Store) : Config :=
  match rest with
  | [] => perform 0 (allocate before) [] pending store.pop
  | item :: rest =>
    let store := store.bindHere collector.binder.name item
    match collector.filter with
    | some condition => evaluate condition (.filter condition.line collector rest before) pending store
    | none => evaluate collector.element (.element collector rest before) pending store

/-- Goes on with the items that a `for` has left. -/
def iterate (binder : Ident) (body : Block) (rest : List Value) (pending : List Pending)
    (store : Store) : Config :=
  match rest with
  | [] => give .none pending store.pop
  | item :: rest =>
    ⟨.enter body, .eachBody binder body rest :: pending, store.bindHere binder.name item⟩

/-- Goes on with the branches of an `if` after those whose condition did not hold. -/
def chooseBranch (branches : List Branch) (pending : List Pending) (store : Store) : Config :=
  match branches with
  | [] => give .none pending store
  | .mk _ none body :: _ => ⟨.enter body, .discard :: pending, store⟩
  | .mk _ (some condition) body :: rest =>
    evaluate condition (.branch condition.line body rest) pending store

/-- Goes on with the statements that a block has left; a `return` ends it. -/
def proceed (last : Value) (rest : List Stmt) (pending : List Pending) (store : Store) : Config :=
  match rest, store.returning with
  | stmt :: rest, none => ⟨.exec stmt, .block last rest :: pending, store⟩
  | _, _ => give last pending store.pop

/-- Binds parameters to arguments in the frame in use. -/
def bindParams (params : List Ident) (args : List Value) (store : Store) : Store :=
  (params.zip args).foldl (fun store pair => store.bindHere pair.1.name pair.2) store

namespace Code

/-- The scope of a node; a node without one belongs to the scope of the frame in use. -/
def scopeOf (code : Code) (store : Store) (node : NodeId) : ScopeId :=
  (code.analysis.tree.scopeOf? node).getD (store.frames.scope store.current)

/-- What an identifier is resolved to, with the kind of its declaration. -/
def resolved? (code : Code) (node : NodeId) : Option (Resolution × DeclKind) := do
  let resolution ← code.analysis.resolutions[node]?
  let decl ← code.analysis.tree.decls[resolution.decl]?
  return (resolution, decl.kind)

def lookup (code : Code) (store : Store) (node : NodeId) (name : String) : Except Cause Value :=
  match code.resolved? node with
  | some (resolution, .function ..) => .ok (.function name resolution.decl)
  | some (_, .builtin (.function _)) => .ok (.builtin name)
  | some (resolution, _) =>
    match (store.frames.frameFor store.current resolution.scope).bind (store.frames.get? · name) with
    | some value => .ok value
    | none => .error (.unbound name)
  | none => .error (.unbound name)

/-- Binds a name to a value in the frame of its scope. -/
def assign (code : Code) (name : Ident) (line : Nat) (value : Value) (pending : List Pending)
    (store : Store) : Config :=
  match (code.analysis.resolutions[name.id]?).bind fun resolution =>
      store.frames.frameFor store.current resolution.scope with
  | some frame => give value pending (store.bind frame name.name value)
  | none => fail line (.unbound name.name) pending (store.drop [value])

def invoke (code : Code) (node : NodeId) (args : List Value) (line : Nat) (pending : List Pending)
    (store : Store) : Config :=
  match code.functions[node]? with
  | none => fail line (.type .undefined) pending (store.drop args)
  | some function =>
    if args.length ≠ function.params.length then
      fail line (.type (.argumentCount function.name.name function.params.length args.length))
        pending (store.drop args)
    else if code.maxCallDepth ≤ store.depth then
      fail line (.callDepth code.maxCallDepth) pending (store.drop args)
    else
      let scope := code.scopeOf store function.id
      let declaring := (code.analysis.tree.parent? scope).getD ScopeTree.root
      match store.frames.frameFor store.current declaring with
      | none => fail line (.unbound function.name.name) pending (store.drop args)
      | some parent =>
        let store := bindParams function.params args (store.push parent scope)
        ⟨.enter function.body, .call :: pending, { store with depth := store.depth + 1 }⟩

def dispatch (code : Code) (callee : Ident) (line : Nat) (args : List Value)
    (pending : List Pending) (store : Store) : Config :=
  match code.resolved? callee.id with
  | none => fail line (.unbound callee.name) pending (store.drop args)
  | some (_, .function node _) => code.invoke node args line pending store
  | some (_, .builtin (.function _)) =>
    match Builtin.ofName? callee.name with
    | some builtin => perform line (builtin.call args) args pending store
    | none => fail line (.type (.notProvided callee.name)) pending (store.drop args)
  | some _ => fail line (.type (.notFunction callee.name)) pending (store.drop args)

def evalArgs (code : Code) (callee : Ident) (line : Nat) (before : Array Value) (rest : List Expr)
    (pending : List Pending) (store : Store) : Config :=
  match rest with
  | [] => code.dispatch callee line before.toList pending store
  | expr :: rest => evaluate expr (.args callee line before rest) pending store

def eval (code : Code) (expr : Expr) (pending : List Pending) (store : Store) : Config :=
  match expr with
  | .int _ value => give (.int value) pending store
  | .bool _ value => give (.bool value) pending store
  | .text _ value => give (.text value) pending store
  | .none _ => give .none pending store
  | .name tag name => settle tag.position.line (code.lookup store tag.id name) pending store
  | .binary tag op left right =>
    if op.kind = .logical then evaluate left (.first op left.line right) pending store
    else evaluate left (.left op tag.position.line right) pending store
  | .unary tag op operand => evaluate operand (.unary op tag.position.line) pending store
  | .index tag base index => evaluate base (.base tag.position.line index) pending store
  | .array _ items => evalItems #[] items pending store
  | .sized tag size => evaluate size (.size tag.position.line) pending store
  | .map _ entries => evalEntries ∅ entries pending store
  | .comprehension tag element binder source filter =>
    evaluate source (.source tag ⟨element, binder, filter⟩) pending store
  | .call tag callee args => code.evalArgs callee tag.position.line #[] args pending store

def exec (stmt : Stmt) (pending : List Pending) (store : Store) : Config :=
  match stmt with
  | .expr expr => ⟨.eval expr, pending, store⟩
  | .assign tag (.name name) value _ => evaluate value (.assign name tag.position.line) pending store
  | .assign _ (.element tag base index) value _ =>
    evaluate value (.storeValue tag.position.line base index) pending store
  | .cond _ condition body branches =>
    evaluate condition (.branch condition.line body branches) pending store
  | .loop _ condition body => evaluate condition (.loopTest condition body) pending store
  | .each tag binder source body => evaluate source (.eachSource tag binder body) pending store
  | .define .. => give .none pending store
  | .ret _ (some value) => evaluate value .ret pending store
  | .ret _ none => give .none pending { store with returning := some .none }

def enter (code : Code) (block : Block) (pending : List Pending) (store : Store) : Config :=
  proceed .none block.stmts pending (store.push store.current (code.scopeOf store block.id))

def resume (code : Code) (value : Value) (work : Pending) (pending : List Pending) (store : Store) :
    Config :=
  match work with
  | .left op line right => evaluate right (.right op line value) pending store
  | .right op line left =>
    settle line (op.apply store.world.heap left value) pending (store.drop [value, left])
  | .first op line right =>
    match value with
    | .bool holds =>
      if holds = (op == .or) then give (.bool holds) pending store
      else evaluate right (.second op right.line) pending store
    | _ => fail line (.type (.logical op value.kind)) pending (store.drop [value])
  | .second op line =>
    match value with
    | .bool holds => give (.bool holds) pending store
    | _ => fail line (.type (.logical op value.kind)) pending (store.drop [value])
  | .unary op line => settle line (op.apply value) pending (store.drop [value])
  | .base line index => evaluate index (.index line value) pending store
  | .index line base =>
    settle line (base.load store.world.heap value) pending (store.drop [value, base])
  | .items before rest => evalItems (before.push value) rest pending store
  | .size line =>
    match value with
    | .int count =>
      if count < 0 then fail line (.type (.negativeSize count)) pending store
      else perform line (allocateSized count fun _ => .none) [] pending store
    | _ => fail line (.type (.size value.kind)) pending (store.drop [value])
  | .key line before expr rest =>
    match value.asKey with
    | .ok key => evaluate expr (.entry key before rest) pending store
    | .error cause => fail line cause pending (store.drop (value :: before.values))
  | .entry key before rest =>
    let old := before[key]?
    evalEntries (before.insert key value) rest pending (store.drop old.toList)
  | .source tag collector =>
    match value with
    | .array place =>
      let items := (store.world.heap.items place).toList
      let scope := code.scopeOf store tag.id
      collect collector items #[] pending ((store.drop [value]).push store.current scope)
    | _ => fail tag.position.line (.type (.comprehensionSource value.kind)) pending (store.drop [value])
  | .filter line collector rest before =>
    match value with
    | .bool true => evaluate collector.element (.element collector rest before) pending store
    | .bool false => collect collector rest before pending store
    | _ => fail line (.type (.condition value.kind)) (work :: pending) (store.drop [value])
  | .element collector rest before => collect collector rest (before.push value) pending store
  | .args callee line before rest => code.evalArgs callee line (before.push value) rest pending store
  | .call =>
    let result := store.returning.getD .none
    let store := store.pop.drop [value]
    give result pending { store with depth := store.depth - 1, returning := none }
  | .assign name line => code.assign name line value pending store
  | .storeValue line base index => evaluate base (.storeBase line value index) pending store
  | .storeBase line held index => evaluate index (.storeIndex line held value) pending store
  | .storeIndex line held base => storeElement line base value held pending store
  | .branch line body branches =>
    match value with
    | .bool true => ⟨.enter body, .discard :: pending, store⟩
    | .bool false => chooseBranch branches pending store
    | _ => fail line (.type (.condition value.kind)) pending (store.drop [value])
  | .discard => give .none pending (store.drop [value])
  | .loopTest condition body =>
    match value with
    | .bool true => ⟨.enter body, .loopBody condition body :: pending, store⟩
    | .bool false => give .none pending store
    | _ => fail condition.line (.type (.condition value.kind)) pending (store.drop [value])
  | .loopBody condition body =>
    match store.returning with
    | some _ => give .none pending (store.drop [value])
    | none => evaluate condition (.loopTest condition body) pending (store.drop [value])
  | .eachSource tag binder body =>
    match value with
    | .array place =>
      let items := (store.world.heap.items place).toList
      let scope := code.scopeOf store tag.id
      iterate binder body items pending ((store.drop [value]).push store.current scope)
    | _ => fail tag.position.line (.type (.eachSource value.kind)) pending (store.drop [value])
  | .eachBody binder body rest =>
    match store.returning with
    | some _ => give .none pending (store.drop (value :: rest)).pop
    | none => iterate binder body rest pending (store.drop [value])
  | .ret => give .none pending { store with returning := some value }
  | .block last rest => proceed value rest pending (store.drop [last])

/-- Ends pending work after a failure: what it holds is given up, its frame is left and its call is
over. -/
def abort (fault : Fault) (work : Pending) (pending : List Pending) (store : Store) : Config :=
  let store := store.drop work.values
  let store := if work.ownsFrame then store.pop else store
  ⟨.unwind fault, pending, if work.isCall then { store with depth := store.depth - 1 } else store⟩

def step (code : Code) (config : Config) : Progress :=
  match config with
  | ⟨.eval expr, pending, store⟩ => .next (code.eval expr pending store)
  | ⟨.exec stmt, pending, store⟩ => .next (exec stmt pending store)
  | ⟨.enter block, pending, store⟩ => .next (code.enter block pending store)
  | ⟨.resume value, [], store⟩ => .finished value store
  | ⟨.resume value, work :: pending, store⟩ => .next (code.resume value work pending store)
  | ⟨.unwind fault, [], store⟩ => .failed fault store
  | ⟨.unwind fault, work :: pending, store⟩ => .next (abort fault work pending store)

end Code

end ScopedScript

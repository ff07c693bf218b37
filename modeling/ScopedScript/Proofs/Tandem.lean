/-
**Steps in tandem.**

What a step does to a store comes down to a few changes, the same ones in two stores that the step cannot
tell apart. What holds along a run, or between two runs side by side, follows from these changes; the
many kinds of work are gone through here only:

* `Store.act_eq`, `bindParams_eq`, `perform_eq_settle`: what an action and a binding leave alone;
* `Code.dispatch_cases`, `Code.invoke_cases`: what a call comes to;
* `Code.Twins`: stores that a step cannot tell apart;
* `Leave`, `Leave.Covers`: what a step may do, and that one does no more;
* `Code.Tandem`, `Code.step_tandem`: **one step** other than a call, as changes of both stores.
-/

import ScopedScript.Proofs.CallFailure

namespace ScopedScript

variable {α : Type} {store : Store} {control : Control} {code : Code}
variable {action : Action Value} {pending : List Pending} {leave : Leave}

/-! ### Parts of steps -/

theorem Store.act_eq (store : Store) (action : Action α) :
    (store.act action).2 = { store with world := (store.act action).2.world } := by
  unfold act
  split
  split <;> rfl

theorem Store.act_returning (store : Store) (action : Action α) :
    (store.act action).2.returning = store.returning := by
  rw [act_eq]

theorem Store.act_depth (store : Store) (action : Action α) :
    (store.act action).2.depth = store.depth := by
  rw [act_eq]

theorem bindParams_eq (params : List Ident) (args : List Value) (store : Store) :
    bindParams params args store = { store with
      frames := (bindParams params args store).frames
      gone := (bindParams params args store).gone } := by
  unfold bindParams
  generalize params.zip args = pairs
  induction pairs generalizing store with
  | nil => rfl
  | cons pair rest ih => exact ih _

/-- An action gives its value after the values it was given are given up. -/
theorem perform_eq_settle {line : Nat} {given : List Value} :
    perform line action given pending store =
      settle line (store.act action).1 pending ((store.act action).2.drop given) := by
  unfold perform
  rcases store.act action with ⟨⟨⟩ | ⟨⟩, store⟩ <;> rfl

namespace Code

variable {code : Code} {args : List Value} {line : Nat} {pending : List Pending} {store : Store}

/-- A call of a function fails, or enters the body in a frame inside one that is found, and then there is
room for one more call. -/
theorem invoke_cases (node : NodeId) :
    (∃ cause, code.invoke node args line pending store = fail line cause pending (store.drop args)) ∨
    ∃ (function : Function) (parent : Nat), store.depth < code.maxCallDepth ∧
      (∃ scope, store.frames.frameFor store.current scope = some parent) ∧
      code.invoke node args line pending store = ⟨.enter function.body, .call :: pending,
        { bindParams function.params args (store.push parent (code.scopeOf store function.id)) with
          depth := store.depth + 1 }⟩ := by
  unfold invoke
  split
  · exact .inl ⟨_, rfl⟩
  · rename_i function _
    split
    · exact .inl ⟨_, rfl⟩
    · split
      · exact .inl ⟨_, rfl⟩
      · rename_i room
        dsimp only
        split
        · exact .inl ⟨_, rfl⟩
        · rename_i parent found
          refine .inr ⟨function, parent, Nat.lt_of_not_le room, ⟨_, found⟩, ?_⟩
          rw [bindParams_eq]
          rfl

/-- A call fails at once, or is one of a function of the program, or of a built-in function. -/
theorem dispatch_cases (callee : Ident) :
    (∃ cause, code.dispatch callee line args pending store =
      fail line cause pending (store.drop args)) ∨
    (∃ node, code.dispatch callee line args pending store =
      code.invoke node args line pending store) ∨
    ∃ builtin : Builtin, code.dispatch callee line args pending store =
      perform line (builtin.call args) args pending store := by
  unfold dispatch
  split
  · exact .inl ⟨_, rfl⟩
  · exact .inr (.inl ⟨_, rfl⟩)
  · split
    · exact .inr (.inr ⟨_, rfl⟩)
    · exact .inl ⟨_, rfl⟩
  · exact .inl ⟨_, rfl⟩

/-- What holds of a call that fails, of one that begins the body of a function, and of one of a built-in
function holds of every call. -/
@[elab_as_elim]
theorem dispatch_rule {goal : Config → Prop} (callee : Ident)
    (fails : ∀ cause, goal (fail line cause pending (store.drop args)))
    (enters : ∀ (function : Function) (parent : Nat), store.depth < code.maxCallDepth →
      (∃ scope, store.frames.frameFor store.current scope = some parent) →
      goal ⟨.enter function.body, .call :: pending,
        { bindParams function.params args (store.push parent (code.scopeOf store function.id)) with
          depth := store.depth + 1 }⟩)
    (performs : ∀ builtin : Builtin, goal (perform line (builtin.call args) args pending store)) :
    goal (code.dispatch callee line args pending store) := by
  rcases code.dispatch_cases callee with ⟨cause, shape⟩ | ⟨node, shape⟩ | ⟨builtin, shape⟩ <;>
    rw [shape]
  · exact fails cause
  · rcases code.invoke_cases node with ⟨cause, shape⟩ | ⟨function, parent, room, found, shape⟩ <;>
      rw [shape]
    · exact fails cause
    · exact enters function parent room found
  · exact performs builtin

end Code

/-! ### Stores that a step cannot tell apart -/

/-- Two stores in which a step finds the same. -/
structure Code.Twins (code : Code) (one two : Store) : Prop where
  heap : two.world.heap = one.world.heap
  returning : two.returning = one.returning
  current : two.current = one.current
  scopeOf : ∀ node, code.scopeOf two node = code.scopeOf one node
  frameFor : ∀ scope, two.frames.frameFor one.current scope = one.frames.frameFor one.current scope
  lookup : ∀ node name, code.lookup two node name = code.lookup one node name

theorem Code.Twins.refl (code : Code) (store : Store) : code.Twins store store :=
  ⟨rfl, rfl, rfl, fun _ => rfl, fun _ => rfl, fun _ _ => rfl⟩

/-- What was to be done is over: there is a value, or a failure. -/
def Control.isOver : Control → Bool
  | .resume _ | .unwind _ => true
  | .eval _ | .exec _ | .enter _ => false

/-- Whether work waits for an argument of a call. -/
def Pending.isArgs : Pending → Bool
  | .args .. => true
  | _ => false

theorem Pending.countP_cons (test : Pending → Bool) (work : Pending) (rest : List Pending) :
    (work :: rest).countP test = rest.countP test + (test work).toNat := by
  cases passes : test work <;> simp [passes]

/-- The work that a step is about, if any, and the work below. -/
theorem Control.exists_split (busy : control.isOver = true → pending ≠ []) :
    ∃ top below, pending = top ++ below ∧ top.length = control.isOver.toNat := by
  cases ended : control.isOver with
  | false => exact ⟨[], pending, rfl, rfl⟩
  | true =>
    cases pending with
    | nil => exact absurd rfl (busy ended)
    | cons work below => exact ⟨[work], below, rfl, rfl⟩

/-! ### What a step may do -/

/-- The value that a configuration returns in its next step. -/
def Config.returns? : Config → Option Value
  | ⟨.exec (.ret _ none), _, _⟩ => some .none
  | ⟨.resume value, .ret :: _, _⟩ => some value
  | _ => none

/-- What a step may do: the work it may begin, the failures it may come to, the frames it may be in, the
frames it may bind names in, the elements it may store and the values it may return. -/
structure Leave where
  fits : Pending → Prop
  bears : Fault → Prop
  sees : Nat → Prop
  writes : Nat → Prop
  stores : Value → Value → Value → Prop
  returns : Value → Prop

namespace Leave

/-- A step may do anything. -/
def free : Leave :=
  ⟨fun _ => True, fun _ => True, fun _ => True, fun _ => True, fun _ _ _ => True, fun _ => True⟩

/-- All work is fit but that of calls, and all failures are borne but those of calls. -/
structure Lawful (leave : Leave) : Prop where
  fits : ∀ work, work.isArgs = false → leave.fits work
  bears : ∀ line cause, cause.ofCall = false → leave.bears ⟨line, cause⟩

/-- The next step of a configuration, if it is not a call, does what it may do. -/
structure Covers (leave : Leave) (code : Code) (config : Config) : Prop extends leave.Lawful where
  begun : ∀ tag callee first rest, config.control = .eval (.call tag callee (first :: rest)) →
    leave.fits (.args callee tag.position.line #[] rest)
  continued : ∀ value callee line before expr rest below, config.control = .resume value →
    config.pending = .args callee line before (expr :: rest) :: below →
      leave.fits (.args callee line (before.push value) rest)
  unwound : ∀ fault, config.control = .unwind fault → leave.bears fault
  here : leave.sees config.store.current
  assigned : ∀ value name line below resolution number, config.control = .resume value →
    config.pending = .assign name line :: below →
    code.analysis.resolutions[name.id]? = some resolution →
    config.store.frames.frameFor config.store.current resolution.scope = some number →
      leave.writes number
  stored : ∀ value line held base below, config.control = .resume value →
    config.pending = .storeIndex line held base :: below → leave.stores base value held
  returned : ∀ value, config.returns? = some value → leave.returns value

theorem free_lawful : free.Lawful := ⟨fun _ _ => trivial, fun _ _ _ => trivial⟩

theorem free_covers (code : Code) (config : Config) : free.Covers code config where
  toLawful := free_lawful
  begun _ _ _ _ _ := trivial
  continued _ _ _ _ _ _ _ _ _ := trivial
  unwound _ _ := trivial
  here := trivial
  assigned _ _ _ _ _ _ _ _ _ _ := trivial
  stored _ _ _ _ _ _ _ := trivial
  returned _ _ := trivial

end Leave

/-- The actions of steps other than calls. All of them make containers. -/
inductive Action.Allocates : Action Value → Prop
  | array (items : Array Value) : Allocates (allocate items)
  | map (entries : Std.TreeMap Key Value) : Allocates (allocateMap entries)
  | sized (count : Int64) : Allocates (allocateSized count fun _ => .none)

theorem Action.Allocates.spares (allocates : Action.Allocates action) : action.Spares := by
  cases allocates with
  | array items => exact (allocate_works items).spares
  | map entries => exact (allocateMap_works entries).spares
  | sized count => exact (allocateSized_works count _).spares

/-! ### Changes -/

/-- How a step goes on from two stores that have so many frames and calls more than the work below them
has, each above work of its own. -/
inductive Code.Tandem (code : Code) (leave : Leave) (below below' : List Pending) :
    Nat → Nat → Store → Store → Config → Config → Prop
  /-- Nothing is left to do but to go on. -/
  | go {one two : Store} (control : Control)
      (borne : ∀ fault, control = .unwind fault → leave.bears fault) :
    Tandem code leave below below' 0 0 one two ⟨control, below, one⟩ ⟨control, below', two⟩
  | part {owned : Nat} {one two : Store} (control : Control) {work : Pending} (fit : leave.fits work)
      (inner : work.isCall = false) (owns : work.ownsFrame.toNat = owned)
      (borne : ∀ fault, control = .unwind fault → leave.bears fault) :
    Tandem code leave below below' owned 0 one two ⟨control, work :: below, one⟩
      ⟨control, work :: below', two⟩
  | act {one two : Store} (line : Nat) {action : Action Value} (allocates : action.Allocates) :
    Tandem code leave below below' 0 0 one two (perform line action [] below one)
      (perform line action [] below' two)
  | store {one two : Store} (line : Nat) {base index value : Value}
      (due : leave.stores base index value) :
    Tandem code leave below below' 0 0 one two (storeElement line base index value below one)
      (storeElement line base index value below' two)
  | drop {owned calls : Nat} {one two : Store} {next next' : Config} (values : List Value)
      (rest : Tandem code leave below below' owned calls (one.drop values) (two.drop values) next next') :
    Tandem code leave below below' owned calls one two next next'
  | push {one two : Store} {next next' : Config} (node : NodeId) (around : leave.sees one.current)
      (rest : Tandem code leave below below' 1 0 (one.push one.current (code.scopeOf one node))
        (two.push one.current (code.scopeOf one node)) next next') :
    Tandem code leave below below' 0 0 one two next next'
  | pop {owned calls : Nat} {one two : Store} {next next' : Config}
      (rest : Tandem code leave below below' owned calls one.pop two.pop next next') :
    Tandem code leave below below' (owned + 1) calls one two next next'
  | bind {one two : Store} {next next' : Config} {number : Nat} (permitted : leave.writes number)
      (name : String) (value : Value)
      (rest : Tandem code leave below below' 0 0 (one.bind number name value)
        (two.bind number name value) next next') :
    Tandem code leave below below' 0 0 one two next next'
  | bindHere {one two : Store} {next next' : Config} (name : String) (value : Value)
      (rest : Tandem code leave below below' 1 0 (one.bindHere name value) (two.bindHere name value)
        next next') :
    Tandem code leave below below' 1 0 one two next next'
  | returning {owned calls : Nat} {one two : Store} {next next' : Config} {value : Option Value}
      (due : ∀ result, value = some result → leave.returns result)
      (rest : Tandem code leave below below' owned calls { one with returning := value }
        { two with returning := value } next next') :
    Tandem code leave below below' owned calls one two next next'
  | returned {owned calls : Nat} {one two : Store} {next next' : Config}
      (rest : Tandem code leave below below' owned calls { one with depth := one.depth - 1 }
        { two with depth := two.depth - 1 } next next') :
    Tandem code leave below below' owned (calls + 1) one two next next'

namespace Code.Tandem

variable {code : Code} {leave : Leave} {below below' : List Pending} {one two : Store}
variable {work : Pending}

theorem give (value : Value) : code.Tandem leave below below' 0 0 one two (give value below one)
    (give value below' two) :=
  .go _ (by rintro _ ⟨⟩)

variable (lawful : leave.Lawful)

include lawful

theorem fail (line : Nat) {cause : Cause} (other : cause.ofCall = false) :
    code.Tandem leave below below' 0 0 one two (fail line cause below one)
      (fail line cause below' two) := by
  refine .go _ ?_
  rintro _ ⟨⟩
  exact lawful.bears line cause other

theorem starts {owned : Nat} (begins : control.isOver = false) (other : work.isArgs = false)
    (inner : work.isCall = false) (owns : work.ownsFrame.toNat = owned) :
    code.Tandem leave below below' owned 0 one two ⟨control, work :: below, one⟩
      ⟨control, work :: below', two⟩ := by
  refine .part control (lawful.fits work other) inner owns ?_
  rintro fault rfl
  cases begins

theorem settle (line : Nat) {result : Except Cause Value} (spares : Spares result) :
    code.Tandem leave below below' 0 0 one two (settle line result below one)
      (settle line result below' two) := by
  cases result with
  | ok value => exact give value
  | error cause => exact fail lawful line spares

theorem evalItems (before : Array Value) (rest : List Expr) :
    code.Tandem leave below below' 0 0 one two (evalItems before rest below one)
      (evalItems before rest below' two) := by
  cases rest with
  | nil => exact .act 0 (.array before)
  | cons => exact starts lawful rfl rfl rfl rfl

theorem evalEntries (before : Std.TreeMap Key Value) (rest : List (Expr × Expr)) :
    code.Tandem leave below below' 0 0 one two (evalEntries before rest below one)
      (evalEntries before rest below' two) := by
  cases rest with
  | nil => exact .act 0 (.map before)
  | cons => exact starts lawful rfl rfl rfl rfl

theorem collect (collector : Collector) (rest : List Value) (before : Array Value) :
    code.Tandem leave below below' 1 0 one two (collect collector rest before below one)
      (collect collector rest before below' two) := by
  cases rest with
  | nil => exact .pop (.act 0 (.array before))
  | cons item rest =>
    obtain ⟨element, binder, filter⟩ := collector
    refine .bindHere binder.name item ?_
    cases filter with
    | none | some => exact starts lawful rfl rfl rfl rfl

theorem iterate (binder : Ident) (body : Block) (rest : List Value) :
    code.Tandem leave below below' 1 0 one two (iterate binder body rest below one)
      (iterate binder body rest below' two) := by
  cases rest with
  | nil => exact .pop (give .none)
  | cons item rest => exact .bindHere binder.name item (starts lawful rfl rfl rfl rfl)

theorem chooseBranch (branches : List Branch) :
    code.Tandem leave below below' 0 0 one two (chooseBranch branches below one)
      (chooseBranch branches below' two) := by
  cases branches with
  | nil => exact give .none
  | cons branch rest =>
    obtain ⟨position, condition, body⟩ := branch
    cases condition with
    | none | some => exact starts lawful rfl rfl rfl rfl

theorem proceed (same : two.returning = one.returning) (last : Value) (rest : List Stmt) :
    code.Tandem leave below below' 1 0 one two (proceed last rest below one)
      (proceed last rest below' two) := by
  unfold ScopedScript.proceed
  rw [same]
  split
  · exact starts lawful rfl rfl rfl rfl
  · exact .pop (give last)

theorem exec (stmt : Stmt)
    (due : ∀ position, stmt = .ret position Option.none → leave.returns .none) :
    code.Tandem leave below below' 0 0 one two (Code.exec stmt below one)
      (Code.exec stmt below' two) := by
  cases stmt with
  | expr expr => exact .go _ (by rintro _ ⟨⟩)
  | define => exact give .none
  | assign tag target value final =>
    cases target with
    | name | element => exact starts lawful rfl rfl rfl rfl
  | cond | loop | each => exact starts lawful rfl rfl rfl rfl
  | ret position value =>
    cases value with
    | some => exact starts lawful rfl rfl rfl rfl
    | none =>
      refine .returning ?_ (give .none)
      rintro _ ⟨⟩
      exact due position rfl

variable (twins : code.Twins one two)

include twins

theorem enter (here : leave.sees one.current) (block : Block) :
    code.Tandem leave below below' 0 0 one two (code.enter block below one)
      (code.enter block below' two) := by
  rw [Code.enter, Code.enter, twins.current, twins.scopeOf]
  refine .push block.id here (proceed lawful ?_ _ _)
  exact twins.returning

theorem eval (expr : Expr) (idle : ∀ tag callee, expr ≠ .call tag callee [])
    (begun : ∀ tag callee first rest, expr = .call tag callee (first :: rest) →
      leave.fits (.args callee tag.position.line #[] rest)) :
    code.Tandem leave below below' 0 0 one two (code.eval expr below one)
      (code.eval expr below' two) := by
  cases expr with
  | int | bool | text | none => exact give _
  | name tag name =>
    rw [Code.eval, Code.eval, twins.lookup]
    exact settle lawful _ (code.lookup_spares one tag.id name)
  | binary tag op left right =>
    rw [Code.eval, Code.eval]
    split <;> exact starts lawful rfl rfl rfl rfl
  | unary | index | sized | comprehension => exact starts lawful rfl rfl rfl rfl
  | array tag items => exact evalItems lawful _ items
  | map tag entries => exact evalEntries lawful _ entries
  | call tag callee args =>
    cases args with
    | nil => exact absurd rfl (idle tag callee)
    | cons first rest => exact .part _ (begun tag callee first rest rfl) rfl rfl (by rintro _ ⟨⟩)

theorem assign (name : Ident) (line : Nat) (value : Value)
    (assigned : ∀ resolution number, code.analysis.resolutions[name.id]? = some resolution →
      one.frames.frameFor one.current resolution.scope = some number → leave.writes number) :
    code.Tandem leave below below' 0 0 one two (code.assign name line value below one)
      (code.assign name line value below' two) := by
  unfold Code.assign
  cases noted : code.analysis.resolutions[name.id]? with
  | none => exact .drop [value] (fail lawful line rfl)
  | some resolution =>
    simp only [Option.bind_some, twins.current, twins.frameFor]
    cases found : one.frames.frameFor one.current resolution.scope with
    | none => exact .drop [value] (fail lawful line rfl)
    | some number => exact .bind (assigned resolution number noted found) name.name value (give value)

theorem resume {value : Value} (covers : leave.Covers code ⟨.resume value, work :: below, one⟩)
    (idle : ∀ callee line before, work ≠ .args callee line before []) :
    code.Tandem leave below below' work.ownsFrame.toNat work.isCall.toNat one two
      (code.resume value work below one) (code.resume value work below' two) := by
  cases work with
  | left | base | storeValue | storeBase => exact starts lawful rfl rfl rfl rfl
  | right op line left =>
    simp only [Code.resume, twins.heap]
    exact .drop _ (settle lawful line (op.apply_works _ _ _).spares)
  | first op line right =>
    cases value with
    | bool holds =>
      rw [Code.resume, Code.resume]
      split
      · exact give _
      · exact starts lawful rfl rfl rfl rfl
    | _ => exact .drop _ (fail lawful line rfl)
  | second op line =>
    cases value with
    | bool holds => exact give _
    | _ => exact .drop _ (fail lawful line rfl)
  | unary op line => exact .drop _ (settle lawful line (op.apply_works value).spares)
  | index line base =>
    simp only [Code.resume, twins.heap]
    exact .drop _ (settle lawful line (base.load_works _ value).spares)
  | items before rest => exact evalItems lawful _ rest
  | size line =>
    cases value with
    | int count =>
      rw [Code.resume, Code.resume]
      split
      · exact fail lawful line rfl
      · exact .act line (.sized count)
    | _ => exact .drop _ (fail lawful line rfl)
  | key line before expr rest =>
    have spares := value.asKey_works.spares
    simp only [Code.resume]
    cases found : value.asKey with
    | ok key => exact starts lawful rfl rfl rfl rfl
    | error cause =>
      rw [found] at spares
      exact .drop _ (fail lawful line spares)
  | entry key before rest => exact .drop _ (evalEntries lawful _ rest)
  | source tag collector =>
    cases value with
    | array place =>
      simp only [Code.resume, twins.heap, twins.current, twins.scopeOf]
      exact .drop _ (.push tag.id covers.here (collect lawful collector _ _))
    | _ => exact .drop _ (fail lawful _ rfl)
  | filter line collector rest before =>
    change code.Tandem leave below below' 1 0 one two _ _
    cases value with
    | bool holds =>
      cases holds with
      | true => exact starts lawful rfl rfl rfl rfl
      | false => exact collect lawful collector rest before
    | _ =>
      refine .drop _ (.part _ (lawful.fits _ rfl) rfl rfl ?_)
      rintro _ ⟨⟩
      exact lawful.bears line _ rfl
  | element collector rest before =>
    change code.Tandem leave below below' 1 0 one two _ _
    exact collect lawful collector rest _
  | args callee line before rest =>
    cases rest with
    | nil => exact absurd rfl (idle callee line before)
    | cons expr rest =>
      exact .part _ (covers.continued value callee line before expr rest below rfl rfl) rfl rfl
        (by rintro _ ⟨⟩)
  | call =>
    change code.Tandem leave below below' 1 1 one two _ _
    simp only [Code.resume, twins.returning]
    exact .pop (.drop _ (.returned (.returning (by nofun) (give _))))
  | assign name line =>
    exact assign lawful twins name line value fun resolution number =>
      covers.assigned value name line below resolution number rfl rfl
  | storeIndex line held base => exact .store line (covers.stored value line held base below rfl rfl)
  | branch line body branches =>
    cases value with
    | bool holds =>
      cases holds with
      | true => exact starts lawful rfl rfl rfl rfl
      | false => exact chooseBranch lawful branches
    | _ => exact .drop _ (fail lawful line rfl)
  | discard => exact .drop _ (give .none)
  | loopTest condition body =>
    cases value with
    | bool holds =>
      cases holds with
      | true => exact starts lawful rfl rfl rfl rfl
      | false => exact give .none
    | _ => exact .drop _ (fail lawful _ rfl)
  | loopBody condition body =>
    simp only [Code.resume, twins.returning]
    split
    · exact .drop _ (give .none)
    · exact .drop _ (starts lawful rfl rfl rfl rfl)
  | eachSource tag binder body =>
    cases value with
    | array place =>
      simp only [Code.resume, twins.heap, twins.current, twins.scopeOf]
      exact .drop _ (.push tag.id covers.here (iterate lawful binder body _))
    | _ => exact .drop _ (fail lawful _ rfl)
  | eachBody binder body rest =>
    change code.Tandem leave below below' 1 0 one two _ _
    simp only [Code.resume, twins.returning]
    split
    · exact .drop _ (.pop (give .none))
    · exact .drop _ (iterate lawful binder body rest)
  | ret =>
    refine .returning ?_ (give .none)
    rintro _ ⟨⟩
    exact covers.returned value rfl
  | block last rest =>
    change code.Tandem leave below below' 1 0 one two _ _
    refine .drop _ (proceed lawful ?_ value rest)
    exact twins.returning

omit lawful twins in
theorem abort {fault : Fault} (borne : leave.bears fault) (work : Pending) :
    code.Tandem leave below below' work.ownsFrame.toNat work.isCall.toNat one two
      (Code.abort fault work below one) (Code.abort fault work below' two) := by
  have ends : ∀ other, .unwind fault = Control.unwind other → leave.bears other := by
    rintro _ ⟨⟩
    exact borne
  cases work with
  | filter | element | eachBody | block => exact .drop _ (.pop (.go _ ends))
  | call => exact .drop _ (.pop (.returned (.go _ ends)))
  | _ => exact .drop _ (.go _ ends)

end Code.Tandem

/-- **One step** that is not a call, in two stores that it cannot tell apart. -/
theorem Code.step_tandem {top below below' : List Pending} {one two : Store}
    (twins : code.Twins one two) (covers : leave.Covers code ⟨control, top ++ below, one⟩)
    (idle : Config.call? ⟨control, top ++ below, one⟩ = none)
    (about : top.length = control.isOver.toNat) :
    ∃ next next', code.step ⟨control, top ++ below, one⟩ = .next next ∧
      code.step ⟨control, top ++ below', two⟩ = .next next' ∧
      code.Tandem leave below below' (top.countP Pending.ownsFrame) (top.countP Pending.isCall) one two
        next next' := by
  have lawful := covers.toLawful
  cases ended : control.isOver with
  | false =>
    rw [ended] at about
    obtain rfl := List.eq_nil_of_length_eq_zero about
    cases control with
    | eval expr =>
      refine ⟨_, _, rfl, rfl, .eval lawful twins expr ?_ fun tag callee first rest same =>
        covers.begun tag callee first rest (congrArg Control.eval same)⟩
      rintro tag callee rfl
      cases idle
    | exec stmt =>
      refine ⟨_, _, rfl, rfl, .exec lawful stmt ?_⟩
      rintro position rfl
      exact covers.returned _ rfl
    | enter block => exact ⟨_, _, rfl, rfl, .enter lawful twins covers.here block⟩
    | _ => cases ended
  | true =>
    rw [ended] at about
    obtain ⟨work, rfl⟩ := List.length_eq_one_iff.mp about
    rw [Pending.countP_cons, Pending.countP_cons, List.countP_nil, List.countP_nil, Nat.zero_add,
      Nat.zero_add]
    cases control with
    | resume value =>
      refine ⟨_, _, rfl, rfl, .resume lawful twins covers ?_⟩
      rintro callee line before rfl
      cases idle
    | unwind fault => exact ⟨_, _, rfl, rfl, .abort (covers.unwound fault rfl) work⟩
    | _ => cases ended

/-- A call is not about work that has a frame or is a call, whatever waits below. -/
theorem Config.of_call? {top below : List Pending} {call : Call}
    (about : top.length = control.isOver.toNat)
    (calls : Config.call? ⟨control, top ++ below, store⟩ = some call) :
    (∀ below' store', Config.call? ⟨control, top ++ below', store'⟩ =
      some { call with below := below' }) ∧ call.below = below ∧
    top.countP Pending.ownsFrame = 0 ∧ top.countP Pending.isCall = 0 := by
  cases control with
  | eval expr =>
    obtain rfl := List.eq_nil_of_length_eq_zero about
    cases expr with
    | call tag callee args =>
      cases args with
      | nil =>
        cases calls
        exact ⟨fun _ _ => rfl, rfl, rfl, rfl⟩
      | cons => cases calls
    | _ => cases calls
  | exec | enter | unwind => cases calls
  | resume value =>
    obtain ⟨work, rfl⟩ := List.length_eq_one_iff.mp about
    cases work with
    | args callee line before rest =>
      cases rest with
      | nil =>
        cases calls
        exact ⟨fun _ _ => rfl, rfl, rfl, rfl⟩
      | cons => cases calls
    | _ => cases calls

/-- **One step of a run** is a call, or comes down to changes of the store. -/
theorem Code.step_cases {top below : List Pending} {next : Config}
    (covers : leave.Covers code ⟨control, top ++ below, store⟩)
    (about : top.length = control.isOver.toNat)
    (step : code.step ⟨control, top ++ below, store⟩ = .next next) :
    (∃ call, Config.call? ⟨control, top ++ below, store⟩ = some call ∧
      top.countP Pending.ownsFrame = 0 ∧ top.countP Pending.isCall = 0 ∧
      next = code.dispatch call.callee call.line call.args below store) ∨
    code.Tandem leave below below (top.countP Pending.ownsFrame) (top.countP Pending.isCall) store store
      next next := by
  cases calls : Config.call? ⟨control, top ++ below, store⟩ with
  | some call =>
    obtain ⟨-, same, bare, inner⟩ := Config.of_call? about calls
    have made := step.symm.trans (step_of_call? calls)
    rw [same] at made
    exact .inl ⟨call, rfl, bare, inner, Progress.next.inj made⟩
  | none =>
    obtain ⟨_, _, found, found', tandem⟩ := step_tandem (.refl code store) covers calls about
    cases step.symm.trans found
    cases step.symm.trans found'
    exact .inr tandem

/-- A step that goes on is about work that waits, if something is over. -/
theorem Code.split_of_step {config next : Config} (step : code.step config = .next next) :
    ∃ control top below store, config = ⟨control, top ++ below, store⟩ ∧
      top.length = control.isOver.toNat := by
  obtain ⟨control, pending, store⟩ := config
  have busy : control.isOver = true → pending ≠ [] := by
    rintro ended rfl
    cases control with
    | resume | unwind => cases step
    | _ => cases ended
  obtain ⟨top, below, rfl, about⟩ := Control.exists_split busy
  exact ⟨control, top, below, store, rfl, about⟩

end ScopedScript

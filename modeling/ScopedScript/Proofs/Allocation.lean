/-
**The heap only grows.**

Containers are made and never taken away. A store of an element changes one container in one slot, and
no other step changes a container that exists:

* `Heap.Keeps`: all containers are as they were; `Heap.Grows`: arrays keep their lengths and maps their
  keys;
* `Heap.Moves`, `Code.step_moves`: **one step** adds at most one container, or makes the store that is
  due; `Code.after_grows` for a run;
* `Code.makesArray`: the expressions whose values are new arrays; `Setting.makes`: evaluating one ends with
  a step that adds its value;
* `Script.heap_only_grows`: **containers last, and new ones are new.**
-/

import ScopedScript.Proofs.Balance
import ScopedScript.Proofs.Elements
import ScopedScript.Proofs.Outcome
import ScopedScript.Proofs.StaticScoping
import ScopedScript.Proofs.TypeSoundness
import ScopedScript.Proofs.Unwinding

namespace ScopedScript

variable {fails : Cause → World → Prop} {code : Code} {work : Pending} {action : Action Value}

/-! ### Growth -/

namespace Heap

variable {heap later last : Heap}

/-- All containers are as they were; there may be new ones. -/
structure Keeps (heap later : Heap) : Prop where
  arrays : ∀ (place : Nat) (items : Array Value),
    heap.arrays[place]? = some items → later.arrays[place]? = some items
  maps : ∀ (place : Nat) (entries : Std.TreeMap Key Value),
    heap.maps[place]? = some entries → later.maps[place]? = some entries

/-- All containers still exist, arrays with the same length and maps with all their keys. -/
structure Grows (heap later : Heap) : Prop where
  arrays : ∀ (place : Nat) (items : Array Value), heap.arrays[place]? = some items →
    ∃ items', later.arrays[place]? = some items' ∧ items'.size = items.size
  maps : ∀ (place : Nat) (entries : Std.TreeMap Key Value), heap.maps[place]? = some entries →
    ∃ entries', later.maps[place]? = some entries' ∧ ∀ key ∈ entries, key ∈ entries'

theorem Keeps.refl (heap : Heap) : heap.Keeps heap := ⟨fun _ _ => id, fun _ _ => id⟩

theorem Keeps.grows (keeps : heap.Keeps later) : heap.Grows later where
  arrays place items found := ⟨items, keeps.arrays place items found, rfl⟩
  maps place entries found := ⟨entries, keeps.maps place entries found, fun _ => id⟩

theorem Grows.trans (first : heap.Grows later) (second : later.Grows last) : heap.Grows last where
  arrays place items found := by
    obtain ⟨middle, found, size⟩ := first.arrays place items found
    obtain ⟨items', found, size'⟩ := second.arrays place middle found
    exact ⟨items', found, size'.trans size⟩
  maps place entries found := by
    obtain ⟨middle, found, keys⟩ := first.maps place entries found
    obtain ⟨entries', found, keys'⟩ := second.maps place middle found
    exact ⟨entries', found, fun key known => keys' key (keys key known)⟩

theorem Grows.size_le (grows : heap.Grows later) : heap.arrays.size ≤ later.arrays.size := by
  by_contra fewer
  have inside : later.arrays.size < heap.arrays.size := Nat.lt_of_not_le fewer
  obtain ⟨items, found, -⟩ := grows.arrays _ _ (Array.getElem?_eq_getElem inside)
  rw [Array.getElem?_eq_none (Nat.le_refl _)] at found
  cases found

theorem array_mem_containers_iff {place : Nat} :
    .array place ∈ heap.containers ↔ place < heap.arrays.size := by
  simp [containers]

theorem keeps_newArray (heap : Heap) (items : Array Value) : heap.Keeps (heap.newArray items).2 where
  arrays place old found := by
    have inside : place < heap.arrays.size := (Array.getElem?_eq_some_iff.mp found).1
    rw [newArray, Array.getElem?_push, if_neg (Nat.ne_of_lt inside), found]
  maps _ _ := id

theorem keeps_newMap (heap : Heap) (entries : Std.TreeMap Key Value) :
    heap.Keeps (heap.newMap entries).2 where
  arrays _ _ := id
  maps place old found := by
    have inside : place < heap.maps.size := (Array.getElem?_eq_some_iff.mp found).1
    rw [newMap, Array.getElem?_push, if_neg (Nat.ne_of_lt inside), found]

theorem grows_put (heap : Heap) (slot : Slot) (value : Value) : heap.Grows (heap.put slot value) := by
  cases slot with
  | item other number =>
    refine ⟨fun place items found => ?_, fun place entries found => ⟨entries, found, fun _ => id⟩⟩
    rw [put, setItem, Array.getElem?_modify, found]
    split
    · exact ⟨_, rfl, Array.size_setIfInBounds⟩
    · exact ⟨items, rfl, rfl⟩
  | entry other key =>
    refine ⟨fun place items found => ⟨items, found, rfl⟩, fun place entries found => ?_⟩
    rw [put, setEntry, Array.getElem?_modify, found]
    split
    · exact ⟨_, rfl, fun key known => Std.TreeMap.mem_insert.mpr (.inr known)⟩
    · exact ⟨entries, rfl, fun _ => id⟩

/-- What one step does with the containers: nothing, one more container, or one store of an element that
was due. -/
inductive Moves (heap : Heap) (due : Option (Value × Value × Value)) : Heap → Prop
  | rest : Moves heap due heap
  | array (items : Array Value) : Moves heap due (heap.newArray items).2
  | map (entries : Std.TreeMap Key Value) : Moves heap due (heap.newMap entries).2
  | put {base index value slot} : due = some (base, index, value) → heap.Names base index slot →
    Moves heap due (heap.put slot value)

theorem Moves.grows {due : Option (Value × Value × Value)} (moves : heap.Moves due later) :
    heap.Grows later := by
  cases moves with
  | rest => exact (Keeps.refl heap).grows
  | array items => exact (heap.keeps_newArray items).grows
  | map entries => exact (heap.keeps_newMap entries).grows
  | put => exact heap.grows_put _ _

/-- Only a store that is due changes a container that exists. -/
theorem Moves.keeps (moves : heap.Moves none later) : heap.Keeps later := by
  generalize nothing : none = due at moves
  cases moves with
  | rest => exact .refl heap
  | array items => exact heap.keeps_newArray items
  | map entries => exact heap.keeps_newMap entries
  | put due => cases nothing.trans due

end Heap

/-! ### One step -/

theorem Action.Ends.act {α : Type} {action : Action α} {good : α → World → Prop} {store : Store}
    (ends : Action.Ends good fails (action store.world)) :
    (∃ value after, store.act action = (.ok value, { store with world := after }) ∧ good value after) ∨
      ∃ cause after, store.act action = (.error cause, { store with world := after }) ∧
        fails cause after := by
  obtain ⟨frames, depth, returning, world, gone⟩ := store
  cases result : action world with
  | ok value after =>
    rw [result] at ends
    exact .inl ⟨value, after, by simp only [Store.act, result], ends⟩
  | error cause after =>
    rw [result] at ends
    exact .inr ⟨cause, after, by simp only [Store.act, result], ends⟩

/-- The element that a configuration is about to store: a container, an index and a value. -/
def Config.due? : Config → Option (Value × Value × Value)
  | ⟨.resume index, .storeIndex _ value base :: _, _⟩ => some (base, index, value)
  | _ => none

/-- A step may store the element that is due. -/
def Config.leave (config : Config) : Leave :=
  { Leave.free with stores := fun base index value => config.due? = some (base, index, value) }

/-- What a configuration has made of the containers of a store. -/
def Store.Moves (store : Store) (due : Option (Value × Value × Value)) (config : Config) : Prop :=
  store.world.heap.Moves due config.store.world.heap

namespace Store.Moves

variable {code : Code} {due : Option (Value × Value × Value)} {store : Store} {pending : List Pending}

theorem perform
    (ends : Action.Ends (fun _ after => store.world.heap.Moves due after.heap) (fun _ after =>
      store.world.heap.Moves due after.heap) (action store.world)) (line : Nat) (given : List Value) :
    store.Moves due (perform line action given pending store) := by
  unfold ScopedScript.perform
  rcases ends.act with ⟨value, after, acted, moves⟩ | ⟨cause, after, acted, moves⟩
  · rw [acted]
    exact moves
  · rw [acted]
    exact moves

theorem of_newArray {heap later : Heap} {value : Value} {items : Array Value}
    (made : (value, later) = heap.newArray items) : heap.Moves due later := by
  obtain rfl : later = (heap.newArray items).2 := congrArg Prod.snd made
  exact .array items

theorem allocates (allocates : action.Allocates) (line : Nat) :
    store.Moves due (ScopedScript.perform line action [] pending store) := by
  refine perform ?_ line []
  cases allocates with
  | array items => exact .array items
  | map entries => exact .map entries
  | sized count =>
    refine (allocateSized_ends count (fun _ => .none) store.world).mono (fun value after given => ?_)
      fun cause after failed => failed.2 ▸ .rest
    obtain ⟨items, -, made⟩ := given
    exact of_newArray made

theorem callBuiltin (builtin : Builtin) (line : Nat) (args : List Value) :
    store.Moves due (ScopedScript.perform line (builtin.call args) args pending store) := by
  refine perform ?_ line args
  cases taken : builtin.takes args with
  | false =>
    rw [Builtin.call_refused taken]
    exact .rest
  | true =>
    refine (Builtin.call_ends taken store.world).mono (fun value after returns => ?_)
      fun cause after failed => failed.2 ▸ .rest
    cases makes : builtin.makesArray with
    | true =>
      obtain ⟨items, -, made⟩ := returns.makes makes
      exact of_newArray made
    | false =>
      rw [returns.keeps makes]
      exact .rest

theorem storeElement (line : Nat) (base index value : Value) : store.Moves
    (some (base, index, value)) (storeElement line base index value pending store) := by
  have ends : Action.Ends
      (fun _ after => store.world.heap.Moves (some (base, index, value)) after.heap)
      (fun _ after => after = store.world) (replaceElement base index value store.world) := by
    cases result : replaceElement base index value store.world with
    | ok old after =>
      obtain ⟨slot, names, -, rfl⟩ := replaceElement_eq_ok_iff.mp result
      exact .put rfl names
    | error cause after => exact (replaceElement_error result).2
  unfold ScopedScript.storeElement
  rcases ends.act with ⟨old, after, acted, moves⟩ | ⟨cause, after, acted, rfl⟩
  · rw [acted]
    exact moves
  · rw [acted]
    exact .rest

theorem dispatch (callee : Ident) (line : Nat) (args : List Value) :
    store.Moves due (code.dispatch callee line args pending store) := by
  refine Code.dispatch_rule callee (fun cause => .rest) (fun _ _ _ _ => ?_)
    fun builtin => callBuiltin builtin line args
  rw [bindParams_eq]
  exact .rest

/-- Changes of a store make at most one container, or the store that is due. -/
theorem of_tandem {leave : Leave} {below below' : List Pending} {owned calls : Nat} {one two : Store}
    {next next' : Config} (stores : ∀ base index value, leave.stores base index value →
      due = some (base, index, value))
    (tandem : code.Tandem leave below below' owned calls one two next next') : one.Moves due next := by
  induction tandem with
  | go | part => exact .rest
  | act line made => exact allocates made line
  | store line allowed =>
    rw [stores _ _ _ allowed]
    exact storeElement line _ _ _
  | drop _ _ ih | push _ _ _ ih | pop _ ih | bind _ _ _ _ ih | bindHere _ _ _ ih | returning _ _ ih
  | returned _ ih => exact ih

end Store.Moves

namespace Code

variable {code : Code} {config next later : Config} {steps : Nat}

/-- **One step** adds at most one container, or makes the store that is due. -/
theorem step_moves (step : code.step config = .next next) : config.store.Moves config.due? next := by
  obtain ⟨control, top, below, store, rfl, about⟩ := split_of_step step
  have covers : Leave.Covers (Config.leave ⟨control, top ++ below, store⟩) code
      ⟨control, top ++ below, store⟩ := by
    refine { Leave.free_covers code _ with stored := ?_ }
    rintro value line held base rest rfl shape
    change top ++ below = _ at shape
    rw [shape]
    rfl
  rcases step_cases covers about step with ⟨call, -, -, -, rfl⟩ | tandem
  · exact .dispatch call.callee call.line call.args
  · exact .of_tandem (fun _ _ _ => id) tandem

theorem next?_moves (found : code.next? config = some next) : config.store.Moves config.due? next := by
  obtain ⟨middle, step, rfl⟩ := Code.step_of_next? found
  unfold Store.Moves
  rw [middle.tidied_world]
  exact step_moves step

/-- **A run only adds to the heap.** -/
theorem after_grows (reached : code.after steps config = some later) :
    config.store.world.heap.Grows later.store.world.heap := by
  refine after_induction (Heap.Keeps.refl _).grows ?_ reached
  exact fun _ _ middle next _ found grown => grown.trans (next?_moves found).grows

end Code

/-! ### Expressions that make arrays -/

/-- Whether the value of an expression is a new array: an array literal, an array of a size, a
comprehension, or a call of a built-in function that makes one. -/
def Code.makesArray (code : Code) : Expr → Bool
  | .array .. | .sized .. | .comprehension .. => true
  | .call _ callee _ =>
    match code.resolved? callee.id, Builtin.ofName? callee.name with
    | some (_, .builtin (.function _)), some builtin => builtin.makesArray
    | _, _ => false
  | _ => false

theorem Code.of_makesArray_call {tag : Tag} {callee : Ident} {args : List Expr}
    (makes : code.makesArray (.call tag callee args) = true) :
    ∃ resolution signature builtin,
      code.resolved? callee.id = some (resolution, .builtin (.function signature)) ∧
        Builtin.ofName? callee.name = some builtin ∧ builtin.makesArray = true := by
  rw [Code.makesArray] at makes
  split at makes
  case h_1 resolution signature builtin found named =>
    exact ⟨resolution, signature, builtin, found, named, makes⟩
  case h_2 => cases makes

/-- A configuration that hands over nothing, or an array that was not on the heap. -/
def Config.Makes (heap : Heap) (config : Config) : Prop :=
  ∀ value, config.control = .resume value →
    ∃ items, (value, config.store.world.heap) = heap.newArray items

namespace Config.Makes

variable {code : Code} {pending : List Pending} {store : Store}
variable {expr : Expr}

theorem perform
    (ends : Action.Ends (fun value after => ∃ items, (value, after.heap) = store.world.heap.newArray
      items) fails (action store.world)) (line : Nat) (given : List Value) :
    Makes store.world.heap (perform line action given pending store) := by
  unfold ScopedScript.perform
  rcases ends.act with ⟨value, after, acted, made⟩ | ⟨cause, after, acted, -⟩
  · rw [acted]
    rintro value ⟨⟩
    exact made
  · rw [acted]
    rintro _ ⟨⟩

theorem allocate (items : Array Value) :
    Makes store.world.heap (ScopedScript.perform 0 (allocate items) [] pending store) := by
  rintro value ⟨⟩
  exact ⟨items, rfl⟩

theorem evalItems (before : Array Value) (rest : List Expr) :
    Makes store.world.heap (evalItems before rest pending store) := by
  cases rest with
  | nil => exact allocate before
  | cons => rintro _ ⟨⟩

theorem collect (collector : Collector) (rest : List Value) (before : Array Value) :
    Makes store.world.heap (collect collector rest before pending store) := by
  cases rest with
  | nil => exact (allocate before : Makes store.pop.world.heap _)
  | cons =>
    unfold ScopedScript.collect
    cases collector.filter <;> rintro _ ⟨⟩

theorem evalArgs {tag : Tag} {callee : Ident} {args : List Expr}
    (makes : code.makesArray (.call tag callee args) = true) (line : Nat) (before : Array Value)
    (rest : List Expr) :
    Makes store.world.heap (code.evalArgs callee line before rest pending store) := by
  obtain ⟨resolution, signature, builtin, found, named, makes⟩ := Code.of_makesArray_call makes
  cases rest with
  | cons => rintro _ ⟨⟩
  | nil =>
    simp only [Code.evalArgs, Code.dispatch, found, named]
    cases taken : builtin.takes before.toList with
    | false =>
      rw [Builtin.call_refused taken]
      rintro _ ⟨⟩
    | true =>
      refine perform ((Builtin.call_ends taken store.world).mono (fun value after returns => ?_)
        fun _ _ => id) line _
      obtain ⟨items, -, made⟩ := returns.makes makes
      exact ⟨items, made⟩

theorem eval (makes : code.makesArray expr = true) :
    Makes store.world.heap (code.eval expr pending store) := by
  cases expr with
  | array tag items => exact evalItems _ items
  | sized | comprehension => rintro _ ⟨⟩
  | call tag callee args => exact evalArgs makes _ _ args
  | _ => cases makes

/-- The work of an expression that makes an array goes on, or ends with one. -/
theorem resume {offset : List ScopeStep} {part : Node} (makes : code.makesArray expr = true)
    (hole : Hole work (.expr expr) offset part) (value : Value) :
    Makes store.world.heap (code.resume value work pending store) := by
  generalize whole : Node.expr expr = node at hole
  cases hole with
  | items => exact evalItems _ _
  | @size _ line =>
    cases value with
    | int count =>
      rw [Code.resume]
      split
      · rintro _ ⟨⟩
      · refine perform ((allocateSized_ends count (fun _ => .none) store.world).mono
          (fun value after given => ?_) fun _ _ => id) line []
        obtain ⟨items, -, made⟩ := given
        exact ⟨items, made⟩
    | _ => rintro _ ⟨⟩
  | source =>
    cases value with
    | array place => exact (collect _ _ _ : Makes (Store.push (store.drop _) _ _).world.heap _)
    | _ => rintro _ ⟨⟩
  | filter =>
    cases value with
    | bool kept =>
      cases kept with
      | true => rintro _ ⟨⟩
      | false => exact collect _ _ _
    | _ => rintro _ ⟨⟩
  | element => exact collect _ _ _
  | args =>
    cases whole
    exact evalArgs makes _ _ _
  | _ => cases whole <;> cases makes

end Config.Makes

/-- The work on top waits for a part of a node, or is a call of a function of the program. -/
theorem Waiting.top {program : Program} {policy : Redeclaration} {bottom : Bottom}
    {pending : List Pending} {steps : List ScopeStep} {node : Node} {callers : List Activation}
    (waiting : Waiting program policy code bottom (work :: pending) steps node callers)
    (above : work :: pending ≠ bottom.pending) :
    ∃ before owner callers', Waiting program policy code bottom pending before owner callers' ∧
      ((∃ offset part, Hole work owner offset part) ∨ ∃ tag callee args resolution id arity,
        owner = .expr (.call tag callee args) ∧
          code.resolved? callee.id = some (resolution, .function id arity)) := by
  generalize shape : work :: pending = all at waiting
  induction waiting with
  | bottom => exact absurd shape above
  | work hole waiting =>
    cases shape
    exact ⟨_, _, _, waiting, .inl ⟨_, _, hole⟩⟩
  | value _ ih => exact ih shape
  | call waiting _ resolved =>
    cases shape
    exact ⟨_, _, _, waiting, .inr ⟨_, _, _, _, _, _, rfl, resolved⟩⟩

section Places

variable {program : Program} {policy : Redeclaration} {code : Code} {contract : Contract}
  {bottom : Bottom} {act : Activation} {callers : List Activation} {config : Config} {expr : Expr}
variable {steps : Nat} {value : Value}

/-- The step that ends what is done for an expression that makes an array. -/
theorem Placed.makes {next : Config} (whole : bottom.node = .expr expr)
    (placed : Placed program policy code contract bottom config.control config.pending act callers)
    (above : config.control.isOver = true → config.pending ≠ bottom.pending)
    (step : code.step config = .next next) (ends : next.pending = bottom.pending)
    (makes : code.makesArray expr = true) : next.Makes config.store.world.heap := by
  obtain ⟨control, pending, store⟩ := config
  have left : ∀ top below, pending = top ++ below → top.length = control.isOver.toNat →
      below <:+ bottom.pending := by
    rintro top below rfl about
    exact ends ▸ Code.suffix_step about step
  cases placed with
  | eval waiting =>
    cases step
    cases waiting.at_bottom ((left [] pending rfl rfl).eq_of_length_le waiting.length_le) whole
    exact .eval makes
  | exec waiting | enter waiting =>
    cases step
    cases waiting.at_bottom ((left [] pending rfl rfl).eq_of_length_le waiting.length_le) whole
  | @resume value _ _ _ _ _ waiting =>
    cases pending with
    | nil => cases step
    | cons work pending =>
      cases step
      obtain ⟨_, owner, _, waiting, top⟩ := waiting.top (above rfl)
      have suffix := left [work] pending rfl rfl
      obtain rfl := waiting.at_bottom (suffix.eq_of_length_le waiting.length_le) whole
      rcases top with ⟨offset, part, hole⟩ | ⟨tag, callee, args, resolution, id, arity, ⟨⟩, called⟩
      · exact .resume makes hole value
      · obtain ⟨_, _, _, found, -⟩ := Code.of_makesArray_call makes
        cases called.symm.trans found
  | unwind =>
    cases pending with
    | nil => cases step
    | cons work pending =>
      cases step
      rintro _ ⟨⟩

/-- **An expression that makes an array** ends with a step that adds it to the heap and hands it over. -/
theorem Setting.makes (setting : Setting program policy code .anything bottom)
    (standing : Standing program policy code .anything bottom act callers config)
    (evaluates : code.Evaluates config steps expr value) (makes : code.makesArray expr = true) :
    ∃ count before last items, steps = count + 1 ∧ code.after count config = some before ∧
      code.next? before = some last ∧
      (value, last.store.world.heap) = before.store.world.heap.newArray items := by
  obtain ⟨starts, ⟨store, reached⟩, first⟩ := evaluates
  cases steps with
  | zero =>
    rw [Option.some.inj reached] at starts
    cases starts
  | succ count =>
    rw [Code.after_succ] at reached
    obtain ⟨before, came, found⟩ := Option.bind_eq_some_iff.mp reached
    obtain ⟨next, step, tidy⟩ := Code.step_of_next? found
    have given : next.control = .resume value := by rw [← next.tidied_control, tidy]
    have below : next.pending = config.pending := by rw [← next.tidied_pending, tidy]
    have heap : next.store.world.heap = store.world.heap := by
      have same := congrArg (·.store.world.heap) tidy
      rwa [next.tidied_world] at same
    obtain ⟨place, inner, begins⟩ := setting.evaluation standing starts
    obtain ⟨act', callers', -, -, placed⟩ := inner.after begins
      (fun earlier early => first earlier (Nat.lt_succ_of_lt early)) (fun _ _ _ _ _ _ => trivial) came
    obtain ⟨items, made⟩ := placed.makes rfl (first count (Nat.lt_succ_self count) before came) step
      below makes value given
    exact ⟨count, before, _, items, rfl, came, found, heap ▸ made⟩

theorem Setting.evaluates_of_ends? {last : Config}
    (setting : Setting program policy code .anything bottom)
    (standing : Standing program policy code .anything bottom act callers config)
    (starts : config.control = .eval expr)
    (ends : code.ends? steps config.pending config = some last)
    (given : last.control = .resume value) : code.Evaluates config steps expr value := by
  obtain ⟨reached, -, short, first⟩ := Code.of_ends? ends
  obtain ⟨place, inner, begins⟩ := setting.evaluation standing starts
  obtain ⟨act', callers', -, -, placed⟩ := inner.after begins first (fun _ _ _ _ _ _ => trivial) reached
  obtain ⟨control, pending, store⟩ := last
  obtain rfl : control = .resume value := given
  cases placed with
  | resume waiting =>
    obtain rfl := waiting.suffix.eq_of_length short.symm
    exact ⟨starts, ⟨store, reached⟩, first⟩

end Places

/-- **Containers last, and new ones are new.** Between any two states of a run every array still exists
with the same length, and every map with all its keys. A step that does not store an element leaves every
container as it was. A literal array, an array of a size, a comprehension and a call of `range`, `indexer`
or `sort` end with a step that adds one array to the heap: it is the value, it is no container of any
state before, and every container of those states is still there. -/
theorem Script.heap_only_grows {source : String} {options : Options} {script : Script}
    (compiled : Script.compile source options = .ok script) (host : Host) :
    (∀ config steps later, script.Reaches host config →
      script.code.after steps config = some later →
        config.store.world.heap.Grows later.store.world.heap) ∧
    (∀ config next, script.Reaches host config → script.code.next? config = some next →
      config.due? = none → config.store.world.heap.Keeps next.store.world.heap) ∧
    ∀ start config steps expr value,
      script.code.after start (script.start host) = some config →
      script.code.Evaluates config steps expr value → script.code.makesArray expr = true →
      ∃ count before last items, start + steps = count + 1 ∧
        script.code.after count (script.start host) = some before ∧
        script.code.next? before = some last ∧
        (value, last.store.world.heap) = before.store.world.heap.newArray items ∧
        before.store.world.heap.Keeps last.store.world.heap ∧
        ∀ earlier ≤ count, ∀ early,
          script.code.after earlier (script.start host) = some early →
            value ∉ early.store.world.heap.containers := by
  refine ⟨fun config steps later _ => Code.after_grows, fun config next _ found quiet => ?_, ?_⟩
  · have moves := Code.next?_moves found
    rw [quiet] at moves
    exact Heap.Moves.keeps moves
  · intro start config steps expr value reached evaluates makes
    obtain ⟨act, callers, standing⟩ := Script.standing compiled ⟨start, reached⟩
    obtain ⟨count, before, last, items, rfl, came, found, made⟩ :=
      (Script.setting compiled).makes standing evaluates makes
    have came : script.code.after (start + count) (script.start host) = some before := by
      rw [Code.after_add, reached]
      exact came
    have grown : last.store.world.heap = (before.store.world.heap.newArray items).2 :=
      congrArg Prod.snd made
    refine ⟨start + count, before, last, items, rfl, came, found, made,
      grown ▸ Heap.keeps_newArray _ items, fun earlier early state there listed => ?_⟩
    -- the place of the new array is beyond all places of the states before
    obtain rfl : value = .array before.store.world.heap.arrays.size := congrArg Prod.fst made
    obtain ⟨rest, split⟩ := Nat.exists_eq_add_of_le early
    rw [split, Code.after_add, there] at came
    have known := Heap.array_mem_containers_iff.mp listed
    exact Nat.not_lt_of_le (Code.after_grows came).size_le known

/-- A text that sorts an array and then changes it. -/
def sorting : String :=
  "\n".intercalate ["a = [2, 1]", "b = sort(a)", "a[0] = 5", ""]

/-- Whether a configuration is about to evaluate an expression that makes an array. -/
def Code.beginsArray (code : Code) : Config → Bool
  | ⟨.eval expr, _, _⟩ => code.makesArray expr
  | _ => false

/-- The sorted array is the third array of the run, and the first two stay as they are. -/
theorem Script.heap_only_grows_sorting : ∃ script, Script.compile sorting {} = .ok script ∧
    ∃ config before last items, script.code.after 10 (script.start .bare) = some config ∧
      script.code.after 12 (script.start .bare) = some before ∧
      script.code.next? before = some last ∧
      (Value.array 2, last.store.world.heap) = before.store.world.heap.newArray items ∧
      before.store.world.heap.Keeps last.store.world.heap ∧
      Value.array 2 ∉ config.store.world.heap.containers := by
  refine Script.exists_compiled (fun script =>
    (script.code.after 10 (script.start .bare)).any fun config =>
      script.code.beginsArray config && (script.code.ends? 3 config.pending config).any fun last =>
        Config.held last.control = [.array 2]) (by decide +kernel) fun script compiled passes => ?_
  obtain ⟨config, reached, passes⟩ := (Option.any_eq_true _ _).mp passes
  obtain ⟨makes, passes⟩ := Bool.and_eq_true_iff.mp passes
  obtain ⟨last, ends, holds⟩ := (Option.any_eq_true _ _).mp passes
  obtain ⟨expr, starts, makes⟩ : ∃ expr, config.control = .eval expr ∧
      script.code.makesArray expr = true := by
    unfold Code.beginsArray at makes
    split at makes
    · exact ⟨_, rfl, makes⟩
    · cases makes
  obtain ⟨act, callers, standing⟩ := Script.standing compiled ⟨10, reached⟩
  have evaluates := (Script.setting compiled).evaluates_of_ends? standing starts ends
    (Config.resume_of_held (of_decide_eq_true holds))
  obtain ⟨-, -, fresh⟩ := Script.heap_only_grows compiled .bare
  obtain ⟨count, before, last, items, total, came, found, made, keeps, new⟩ :=
    fresh 10 config 3 expr (.array 2) reached evaluates makes
  obtain rfl : count = 12 := by omega
  exact ⟨config, before, last, items, reached, came, found, made, keeps,
    new 10 (by decide) config reached⟩

end ScopedScript

/-
**Balance.**

What is done for some work leaves the frames and the count of calls as it found them. While it goes on,
every frame and every call that it has added belongs to work of its own that waits:

* `Store.Extends`: a store with so many more frames and calls than an earlier one;
* `Upkeep`, `Upkeep.Holds`: what is kept up above some waiting work, the number of frames and of calls
  with it; `Upkeep.Holds.step` for one step, `Upkeep.Holds.after` for many;
* `Code.next?_of_valid`: what a call with the right number of arguments comes to;
* `Script.activations_balanced`: **frames and calls are balanced, and the limit on calls is exact.**
-/

import ScopedScript.Proofs.Lockstep
import ScopedScript.Proofs.Returning
import ScopedScript.Proofs.Storage

namespace ScopedScript

/-! ### More frames and calls -/

/-- A store with more frames and calls than an earlier one: the frames there were are in place, and no
more calls are in progress than may be. -/
structure Store.Extends (limit : Nat) (origin : Store) (owned calls : Nat) (store : Store) :
    Prop where
  size : store.frames.table.size = origin.frames.table.size + owned
  outline : ∀ ⦃number⦄, number < origin.frames.table.size →
    store.frames.outline number = origin.frames.outline number
  depth : store.depth = origin.depth + calls
  within : store.depth ≤ limit

namespace Store.Extends

variable {limit owned calls : Nat} {origin store later : Store}

theorem refl (within : store.depth ≤ limit) : store.Extends limit 0 0 store :=
  ⟨rfl, fun _ _ => rfl, rfl, within⟩

theorem pop (extended : origin.Extends limit (owned + 1) calls store) :
    origin.Extends limit owned calls store.pop := by
  have newest : store.frames.newest = origin.frames.table.size + owned := by
    rw [Frames.newest, extended.size, ← Nat.add_assoc, Nat.add_sub_cancel]
  refine ⟨Frames.size_pop.trans newest, fun number older => ?_, extended.depth, extended.within⟩
  show store.frames.pop.outline number = _
  rw [Frames.outline_pop, if_pos (by omega), extended.outline older]

theorem returned (extended : origin.Extends limit owned (calls + 1) store) :
    origin.Extends limit owned calls { store with depth := store.depth - 1 } :=
  { extended with
    depth := by rw [extended.depth, ← Nat.add_assoc, Nat.add_sub_cancel]
    within := Nat.le_trans (Nat.sub_le _ _) extended.within }

variable (extended : origin.Extends limit owned calls store)

include extended

/-- Only frames and the count of calls matter. -/
theorem congr
    (frames : later.frames = store.frames) (depth : later.depth = store.depth) :
    origin.Extends limit owned calls later where
  size := by rw [frames, extended.size]
  outline number older := by rw [frames, extended.outline older]
  depth := depth.trans extended.depth
  within := depth ▸ extended.within

theorem drop (values : List Value) :
    origin.Extends limit owned calls (store.drop values) := extended.congr rfl rfl

theorem returning (value : Option Value) :
    origin.Extends limit owned calls { store with returning := value } := extended.congr rfl rfl

theorem act {α : Type} (action : Action α) : origin.Extends limit owned calls (store.act action).2 :=
  extended.congr (by rw [act_eq]) (act_depth store action)

theorem push (parent : Nat) (scope : ScopeId) :
    origin.Extends limit (owned + 1) calls (store.push parent scope) where
  size := by
    show (store.frames.table.push _).size = _
    rw [Array.size_push, extended.size, Nat.add_assoc]
  outline number older := by
    show (store.frames.child parent scope).outline number = _
    rw [Frames.outline_child, if_neg, extended.outline older]
    rw [extended.size]
    omega
  depth := extended.depth
  within := extended.within

theorem bind (number : Nat) (name : String)
    (value : Value) : origin.Extends limit owned calls (store.bind number name value) where
  size := Frames.size_set.trans extended.size
  outline other older := by
    show (store.frames.set number name value).outline other = _
    rw [Frames.outline_set, extended.outline older]
  depth := extended.depth
  within := extended.within

theorem bindParams (params : List Ident) (args : List Value) :
    origin.Extends limit owned calls (bindParams params args store) := by
  rw [ScopedScript.bindParams]
  induction params.zip args generalizing store with
  | nil => exact extended
  | cons pair rest ih => exact ih (extended.bind _ _ _)

theorem called (free : store.depth < limit) :
    origin.Extends limit owned (calls + 1) { store with depth := store.depth + 1 } :=
  { extended with
    depth := by rw [extended.depth, Nat.add_assoc]
    within := free }

end Store.Extends

/-! ### What is kept up -/

/-- What is kept up above some work, from a store on: what work is added, and how it fails. Only the
work of calls and the failures of calls can be at variance with it. -/
structure Upkeep where
  limit : Nat
  origin : Store
  bottom : List Pending
  fits : Pending → Prop
  bears : Fault → Prop
  fits_other : ∀ work, work.isArgs = false → fits work
  fits_args : ∀ {callee line before expr rest}, fits (.args callee line before (expr :: rest)) →
    ∀ value, fits (.args callee line (before.push value) rest)
  bears_other : ∀ line cause, cause.ofCall = false → bears ⟨line, cause⟩

namespace Upkeep

variable {pending : List Pending}

/-- A configuration that adds work to the work below, with a frame and a call for each that has one. -/
inductive Holds (upkeep : Upkeep) : Config → Prop
  | mk {store : Store} (control : Control) (upper : List Pending)
      (fits : ∀ work ∈ upper, upkeep.fits work)
      (bears : ∀ fault, control = .unwind fault → upkeep.bears fault)
      (extended : upkeep.origin.Extends upkeep.limit (upper.countP Pending.ownsFrame)
        (upper.countP Pending.isCall) store) :
    Holds upkeep ⟨control, upper ++ upkeep.bottom, store⟩

/-- A step may begin work that fits and come to failures that are borne. -/
def leave (upkeep : Upkeep) : Leave where
  fits := upkeep.fits
  bears := upkeep.bears
  sees _ := True
  writes _ := True
  stores _ _ _ := True
  returns _ := True

namespace Holds

variable {upkeep : Upkeep} {upper : List Pending} {store : Store} {code : Code}
variable {config : Config}

section Calls

variable (fits : ∀ work ∈ upper, upkeep.fits work)
  (extended : upkeep.origin.Extends upkeep.limit (upper.countP Pending.ownsFrame)
    (upper.countP Pending.isCall) store)

include fits extended

theorem give (value : Value) : upkeep.Holds (give value (upper ++ upkeep.bottom) store) :=
  .mk _ upper fits nofun extended

theorem fail (line : Nat) {cause : Cause} (other : cause.ofCall = false) :
    upkeep.Holds (fail line cause (upper ++ upkeep.bottom) store) := by
  refine .mk _ upper fits ?_ extended
  rintro fault ⟨⟩
  exact upkeep.bears_other line cause other

theorem perform (line : Nat) {action : Action Value} (spares : action.Spares) (given : List Value) :
    upkeep.Holds (perform line action given (upper ++ upkeep.bottom) store) := by
  have spares := spares.act store
  have acted := (extended.act action).drop given
  rw [perform_eq_settle]
  cases result : (store.act action).1 with
  | ok value => exact give fits acted value
  | error cause =>
    rw [result] at spares
    exact fail fits acted line spares

theorem storeElement (line : Nat) (base index value : Value) :
    upkeep.Holds (storeElement line base index value (upper ++ upkeep.bottom) store) := by
  have spares := (replaceElement_works base index value).spares.act store
  have acted := extended.act (replaceElement base index value)
  unfold ScopedScript.storeElement
  split
  · rename_i done
    rw [done] at acted
    exact give fits (acted.drop _) _
  · rename_i done
    rw [done] at acted spares
    exact fail fits (acted.drop _) line spares

variable (limit : code.maxCallDepth = upkeep.limit)

include limit

theorem enter (function : Function) (parent : Nat) (args : List Value)
    (room : store.depth < code.maxCallDepth) :
    upkeep.Holds ⟨.enter function.body, .call :: (upper ++ upkeep.bottom),
      { bindParams function.params args (store.push parent (code.scopeOf store function.id)) with
        depth := store.depth + 1 }⟩ := by
  refine .mk _ (.call :: upper) (List.forall_mem_cons.mpr ⟨upkeep.fits_other .call rfl, fits⟩)
    nofun ?_
  have entered := (extended.push parent (code.scopeOf store function.id)).bindParams
    function.params args
  have depth : (bindParams function.params args
      (store.push parent (code.scopeOf store function.id))).depth = store.depth := by
    rw [bindParams_eq]
    rfl
  rw [← depth] at room ⊢
  rw [List.countP_cons_of_pos rfl, List.countP_cons_of_pos rfl]
  exact entered.called (limit ▸ room)

theorem dispatch (callee : Ident) (line : Nat) (args : List Value)
    (borne : ∀ fault, (code.dispatch callee line args (upper ++ upkeep.bottom) store).control =
      .unwind fault → upkeep.bears fault) :
    upkeep.Holds (code.dispatch callee line args (upper ++ upkeep.bottom) store) := by
  revert borne
  refine Code.dispatch_rule callee (fun cause borne => .mk _ upper fits borne (extended.drop args))
    (fun function parent room _ _ => enter fits extended limit function parent args room) ?_
  intro builtin borne
  have acted := (extended.act (builtin.call args)).drop args
  rw [perform_eq_settle] at borne ⊢
  cases result : (store.act (builtin.call args)).1 with
  | ok value => exact give fits acted value
  | error cause =>
    rw [result] at borne
    exact .mk _ upper fits borne acted

end Calls

theorem of_tandem {below' : List Pending} {owned calls : Nat} {one two : Store} {next next' : Config}
    (fits : ∀ work ∈ upper, upkeep.fits work)
    (tandem : code.Tandem upkeep.leave (upper ++ upkeep.bottom) below' owned calls one two next next')
    (extended : upkeep.origin.Extends upkeep.limit (upper.countP Pending.ownsFrame + owned)
      (upper.countP Pending.isCall + calls) one) : upkeep.Holds next := by
  induction tandem with
  | go control borne => exact .mk control upper fits borne extended
  | @part owned one two control work fit inner owns borne =>
    refine .mk control (work :: upper) (List.forall_mem_cons.mpr ⟨fit, fits⟩) borne ?_
    rw [Pending.countP_cons, Pending.countP_cons, owns, inner]
    exact extended
  | act line allocates => exact perform fits extended line allocates.spares []
  | store line => exact storeElement fits extended line _ _ _
  | drop values _ ih => exact ih (extended.drop values)
  | push _ _ _ ih => exact ih (extended.push _ _)
  | pop _ ih => exact ih extended.pop
  | bind _ _ _ _ ih | bindHere _ _ _ ih => exact ih (extended.bind _ _ _)
  | returning _ _ ih => exact ih (extended.returning _)
  | returned _ ih => exact ih extended.returned

/-- **One step** keeps it up, if the arguments of a call fit and its failures are borne. -/
theorem step {next : Config} (limit : code.maxCallDepth = upkeep.limit)
    (holds : upkeep.Holds config)
    (above : config.control.isOver = true → config.pending ≠ upkeep.bottom)
    (begun : ∀ tag callee first rest, config.control = .eval (.call tag callee (first :: rest)) →
      upkeep.fits (.args callee tag.position.line #[] rest))
    (borne : ∀ call fault, config.call? = some call → next.control = .unwind fault → upkeep.bears
      fault) (found : code.step config = .next next) : upkeep.Holds next := by
  obtain @⟨store, control, upper, fits, bears, extended⟩ := holds
  have busy : control.isOver = true → upper ≠ [] := by
    rintro ended rfl
    exact above ended rfl
  obtain ⟨top, rest, rfl, about⟩ := Control.exists_split busy
  obtain ⟨topFits, restFits⟩ := List.forall_mem_append.mp fits
  rw [List.append_assoc] at found borne
  rw [List.countP_append, List.countP_append, Nat.add_comm, Nat.add_comm (top.countP _)] at extended
  have covers : upkeep.leave.Covers code ⟨control, top ++ (rest ++ upkeep.bottom), store⟩ := by
    refine ⟨⟨upkeep.fits_other, upkeep.bears_other⟩, begun, ?_, bears, trivial,
      fun _ _ _ _ _ _ _ _ _ _ => trivial, fun _ _ _ _ _ _ _ => trivial, fun _ _ => trivial⟩
    intro value callee line before expr args below same shape
    obtain rfl : control = .resume value := same
    obtain ⟨work, rfl⟩ := List.length_eq_one_iff.mp about
    obtain rfl := (List.cons.inj shape).1
    exact upkeep.fits_args (topFits _ List.mem_cons_self) value
  rcases Code.step_cases covers about found with ⟨call, calls, bare, inner, rfl⟩ | tandem
  · rw [bare, inner] at extended
    exact dispatch restFits extended limit call.callee call.line call.args fun fault =>
      borne call fault calls
  · exact of_tandem restFits tandem extended

theorem tidied (holds : upkeep.Holds config) : upkeep.Holds config.tidied := by
  rw [Config.tidied_eq]
  obtain ⟨control, upper, fits, bears, extended⟩ := holds
  exact .mk control upper fits bears (extended.congr rfl rfl)

/-- **Many steps** keep it up, until the work is over. -/
theorem after {last : Config} {steps : Nat} (limit : code.maxCallDepth = upkeep.limit)
    (holds : upkeep.Holds config)
    (above : code.Lasts steps config upkeep.bottom)
    (begun : ∀ earlier < steps, ∀ middle tag callee first rest, code.after earlier config = some
      middle → middle.control = .eval (.call tag callee (first :: rest)) → upkeep.fits (.args callee
      tag.position.line #[] rest))
    (borne : ∀ earlier < steps, ∀ middle next call fault, code.after earlier config = some middle →
      upkeep.Holds middle → middle.call? = some call → code.next? middle = some next → next.control
      = .unwind fault → upkeep.bears fault) (reached : code.after steps config = some last) :
    upkeep.Holds last := by
  refine Code.after_induction holds (fun count early middle later before found held => ?_) reached
  obtain ⟨next, step, rfl⟩ := Code.step_of_next? found
  refine (held.step limit (above count early middle before) ?_ ?_ step).tidied
  · exact fun tag callee first rest => begun count early middle tag callee first rest before
  · intro call fault about raised
    exact borne count early middle _ call fault before held about found
      ((Config.tidied_control next).trans raised)

theorem kept (holds : upkeep.Holds config) (nonempty : 0 < upkeep.origin.frames.table.size) :
    upkeep.bottom <:+ config.pending ∧ upkeep.origin.current ≤ config.store.current ∧
    (∀ number ≤ upkeep.origin.current,
      config.store.frames.outline number = upkeep.origin.frames.outline number) ∧
    upkeep.origin.depth ≤ config.store.depth := by
  obtain ⟨control, upper, -, -, size, outline, depth, -⟩ := holds
  refine ⟨List.suffix_append _ _, ?_, fun number older => outline ?_, ?_⟩
  · show _ - 1 ≤ _ - 1
    rw [size]
    omega
  · change number ≤ _ - 1 at older
    omega
  · rw [depth]
    exact Nat.le_add_right _ _

/-- When no work is left above, nothing else is there. -/
theorem restored (holds : upkeep.Holds config) (last : config.pending = upkeep.bottom) :
    config.store.current = upkeep.origin.current ∧
    config.store.frames.outline = upkeep.origin.frames.outline ∧
    config.store.depth = upkeep.origin.depth := by
  obtain ⟨control, upper, -, -, size, outline, depth, -⟩ := holds
  obtain rfl := List.self_eq_append_left.mp last.symm
  refine ⟨congrArg (· - 1) size, funext fun number => ?_, depth⟩
  rcases Nat.lt_or_ge number upkeep.origin.frames.table.size with older | newer
  · exact outline older
  · rw [Frames.outline, Frames.outline, Array.getElem?_eq_none newer,
      Array.getElem?_eq_none (size ▸ newer)]

end Upkeep.Holds

/-! ### Calls in progress -/

theorem Hole.isCall_eq {work : Pending} {node part : Node} {offset : List ScopeStep}
    (hole : Hole work node offset part) : work.isCall = false := by
  cases hole <;> rfl

/-- There is one caller for each call in progress. -/
theorem Waiting.callers_length {program : Program} {policy : Redeclaration} {code : Code}
    {bottom : Bottom} {steps : List ScopeStep} {node : Node} {callers : List Activation}
    (even : bottom.pending.countP Pending.isCall = bottom.callers.length)
    (waiting : Waiting program policy code bottom pending steps node callers) :
    pending.countP Pending.isCall = callers.length := by
  induction waiting with
  | bottom => exact even
  | work hole _ ih => rw [List.countP_cons_of_neg (by simp [hole.isCall_eq]), ih]
  | value _ ih => exact ih
  | call _ _ _ _ ih => rw [List.countP_cons_of_pos rfl, ih, List.length_cons]

/-- The frames and the calls above some work, whatever the work and its failures. -/
def Upkeep.balance (limit : Nat) (origin : Store) (bottom : List Pending) : Upkeep where
  limit := limit
  origin := origin
  bottom := bottom
  fits _ := True
  bears _ := True
  fits_other _ _ := trivial
  fits_args _ _ := trivial
  bears_other _ _ _ := trivial

/-- The same, with no failures but those of work other than calls. -/
def Upkeep.sparing (limit : Nat) (origin : Store) (bottom : List Pending) : Upkeep where
  limit := limit
  origin := origin
  bottom := bottom
  fits _ := True
  bears fault := fault.cause.ofCall = false
  fits_other _ _ := trivial
  fits_args _ _ := trivial
  bears_other _ _ other := other

namespace Code

variable {code : Code} {config last : Config}
variable {steps line parent : Nat} {args : List Value} {store : Store}

theorem not_over_before (reached : code.after steps config = some last) : code.Lasts steps config [] := by
  intro earlier early middle before finished
  obtain ⟨rest, rfl⟩ : ∃ rest, steps = earlier + (1 + rest) := ⟨steps - earlier - 1, by omega⟩
  rw [after_add, before, Option.bind_some, after_add, after_one] at reached
  obtain ⟨next, found, -⟩ := Option.bind_eq_some_iff.mp reached
  exact pending_of_next? found finished

/-- Work above a configuration is balanced for as long as it lasts. -/
theorem after_balanced (within : config.store.depth ≤ code.maxCallDepth)
    (lasts : code.Lasts steps config config.pending) (reached : code.after steps config = some last) :
    (Upkeep.balance code.maxCallDepth config.store config.pending).Holds last := by
  have begins : (Upkeep.balance code.maxCallDepth config.store config.pending).Holds config :=
    .mk config.control [] nofun (fun _ _ => trivial) (.refl within)
  exact begins.after rfl lasts (fun _ _ _ _ _ _ _ _ _ => trivial)
    (fun _ _ _ _ _ _ _ _ _ _ _ => trivial) reached

/-- **Only calls fail as calls do.** -/
theorem exists_call {origin : Store} {bottom : List Pending} {next : Config}
    (holds : (Upkeep.balance code.maxCallDepth origin bottom).Holds config)
    (above : config.control.isOver = true → config.pending ≠ bottom)
    (running : ∀ fault, config.control ≠ .unwind fault) (found : code.next? config = some next)
    {fault : Fault} (raised : next.control = .unwind fault) (kind : fault.cause.ofCall = true) :
    ∃ call, config.call? = some call := by
  cases about : config.call? with
  | some call => exact ⟨call, rfl⟩
  | none =>
    obtain ⟨middle, step, rfl⟩ := step_of_next? found
    rw [Config.tidied_control] at raised
    have spares : (Upkeep.sparing code.maxCallDepth origin bottom).Holds middle := by
      refine Upkeep.Holds.step rfl ?_ above (fun _ _ _ _ _ => trivial) ?_ step
      · obtain ⟨control, upper, fits, -, extended⟩ := holds
        exact .mk control upper fits (fun fault same => absurd same (running fault)) extended
      · intro call _ made
        rw [about] at made
        cases made
    obtain ⟨control, upper, -, bears, -⟩ := spares
    exact absurd (bears fault raised) (by simp [Upkeep.sparing, kind])

/-- A call of a function with the right number of arguments: it fails if as many calls are in progress
as may be, and enters the body otherwise. -/
theorem invoke_of_valid {node : NodeId} {function : Function}
    (defined : code.functions[node]? = some function) (count : args.length = function.params.length)
    (declaring : code.declaringFrame? store function = some parent) :
    code.invoke node args line pending store =
      if code.maxCallDepth ≤ store.depth then
        fail line (.callDepth code.maxCallDepth) pending (store.drop args)
      else ⟨.enter function.body, .call :: pending,
        { bindParams function.params args (store.push parent (code.scopeOf store function.id)) with
          depth := store.depth + 1 }⟩ := by
  unfold declaringFrame? at declaring
  simp only [invoke, defined, count, declaring, ne_eq, not_true_eq_false, if_false]
  split
  · rfl
  · rw [bindParams_eq]
    rfl

/-- What follows when a function is called with the right number of arguments. -/
theorem next?_of_valid {call : Call} {resolution : Resolution} {node : NodeId} {arity : Nat}
    {function : Function} (about : config.call? = some call)
    (resolved : code.resolved? call.callee.id = some (resolution, .function node arity))
    (defined : code.functions[node]? = some function)
    (count : call.args.length = function.params.length)
    (declaring : code.declaringFrame? config.store function = some parent) :
    code.next? config = some (Config.tidied
      (if code.maxCallDepth ≤ config.store.depth then
        fail call.line (.callDepth code.maxCallDepth) call.below (config.store.drop call.args)
      else ⟨.enter function.body, .call :: call.below,
        { bindParams function.params call.args
            (config.store.push parent (code.scopeOf config.store function.id)) with
          depth := config.store.depth + 1 }⟩)) := by
  rw [← invoke_of_valid defined count declaring, next?, step_of_call? about, dispatch, resolved]

/-- A call that fails for the number of calls in progress is one with the right number of arguments. -/
theorem of_callDepth {callee : Ident} {line' limit : Nat}
    (raised : (code.dispatch callee line args pending store).control = .unwind ⟨line', .callDepth
      limit⟩) :
    ∃ resolution node arity function,
      code.resolved? callee.id = some (resolution, .function node arity) ∧
      code.functions[node]? = some function ∧ args.length = function.params.length ∧
      code.maxCallDepth ≤ store.depth ∧ line' = line ∧ limit = code.maxCallDepth := by
  unfold dispatch at raised
  split at raised
  · cases raised
  · rename_i resolution node arity resolved
    unfold invoke at raised
    split at raised
    · cases raised
    · rename_i function defined
      split at raised
      · cases raised
      · rename_i count
        split at raised
        · rename_i full
          cases raised
          exact ⟨resolution, node, arity, function, resolved, defined, not_not.mp count, full, rfl,
            rfl⟩
        · dsimp only at raised
          split at raised <;> cases raised
  · split at raised
    · rename_i builtin _
      have spares : Spares (store.act (builtin.call args)).1 ∨
          ∃ fault, (store.act (builtin.call args)).1 = .error (.type fault) := by
        by_cases count : args.length = builtin.signature.arity
        · exact .inl ((builtin.call_spares count).act store)
        · rw [builtin.call_of_length_ne count]
          exact .inr ⟨_, rfl⟩
      rw [perform_eq_settle] at raised
      cases result : (store.act (builtin.call args)).1 with
      | ok value => rw [result] at raised; cases raised
      | error cause =>
        rw [result] at raised spares
        cases raised
        rcases spares with spares | ⟨fault, other⟩
        · cases spares
        · cases other
    · cases raised
  · cases raised

end Code

/-- The failure that ends waiting work. -/
def Control.fault? : Control → Option Fault
  | .unwind fault => some fault
  | _ => none

theorem Control.of_fault? {control : Control} {fault : Fault} (found : control.fault? = some fault) :
    control = .unwind fault := by
  cases control with
  | unwind => exact congrArg Control.unwind (Option.some.inj found)
  | _ => cases found

namespace Script

variable {source : String} {options : Options} {script : Script} {host : Host} {config : Config}

theorem limit_of_compile (compiled : Script.compile source options = .ok script) :
    script.code.maxCallDepth = options.maxCallDepth := by
  obtain ⟨-, -, same⟩ := of_compile compiled
  exact congrArg Options.maxCallDepth same

theorem reaches_balanced (reached : script.Reaches host config) :
    (Upkeep.balance script.code.maxCallDepth (firstStore host) []).Holds
      config := by
  obtain ⟨steps, reached⟩ := reached
  exact Code.after_balanced (Nat.zero_le _) (Code.not_over_before reached) reached

/-- The call that a configuration is about to make goes on in the frame of the declaration. -/
theorem declaring_of_call? (compiled : Script.compile source options = .ok script)
    (reached : script.Reaches host config) {call : Call}
    (about : config.call? = some call) {resolution : Resolution} {node : NodeId} {arity : Nat}
    {function : Function}
    (resolved : script.code.resolved? call.callee.id = some (resolution, .function node arity))
    (defined : script.code.functions[node]? = some function) :
    ∃ parent, script.code.declaringFrame? config.store function = some parent := by
  obtain ⟨act, callers, standing⟩ := Script.standing compiled reached
  obtain ⟨-, -, called⟩ := (Script.setting compiled).names_found rfl standing
  have calls : config.calls? = some call.callee := by
    unfold Config.call? at about
    split at about <;> cases about <;> rfl
  obtain ⟨decl, number, ⟨resolution', noted, stored, -⟩, declaring⟩ :=
    called call.callee calls
  refine ⟨number, declaring node arity function ?_ defined⟩
  simp only [Code.resolved?, noted, stored, Option.bind_eq_bind, Option.bind_some, Option.pure_def,
    Option.some.injEq, Prod.mk.injEq] at resolved
  exact resolved.2

/-- **Frames and calls are balanced, and the limit on calls is exact.** In every configuration that a
run reaches, the depth is the number of calls in progress, one for each caller, and not above the limit.
From there, whatever expression, statement or block is to be done, and however that ends: the frames
there are stay in place, and when nothing of it is left to do there are no others, the frame in use is
the one of the beginning, and so is the depth. A call of a function with the right number of arguments
fails by the limit exactly if as many calls are in progress as may be, and otherwise enters the body
with one more; nothing else fails by the limit. -/
theorem activations_balanced (compiled : Script.compile source options = .ok script)
    (reached : script.Reaches host config) :
    (∃ steps node callers,
      Waiting script.program options.redeclaration script.code (.whole script.program)
        config.pending steps node callers ∧
      config.control.Concerns node ∧ config.store.depth = callers.length) ∧
    config.store.depth = config.pending.countP Pending.isCall ∧
    config.store.depth ≤ options.maxCallDepth ∧
    (∀ steps last, config.control.isOver = false →
      (∀ earlier < steps, ∀ middle, script.code.after earlier config = some middle →
        middle.control.isOver = true → middle.pending ≠ config.pending) →
      script.code.after steps config = some last →
        config.pending <:+ last.pending ∧ config.store.current ≤ last.store.current ∧
        (∀ number ≤ config.store.current,
          last.store.frames.outline number = config.store.frames.outline number) ∧
        config.store.depth ≤ last.store.depth ∧
        (last.pending = config.pending → last.store.current = config.store.current ∧
          last.store.frames.outline = config.store.frames.outline ∧
          last.store.depth = config.store.depth)) ∧
    (∀ call resolution node arity function, config.call? = some call →
      script.code.resolved? call.callee.id = some (resolution, .function node arity) →
      script.code.functions[node]? = some function → call.args.length = function.params.length →
        ∃ next, script.code.next? config = some next ∧
          (next.control = .unwind ⟨call.line, .callDepth options.maxCallDepth⟩ ↔
            config.store.depth = options.maxCallDepth) ∧
          (config.store.depth < options.maxCallDepth → next.control = .enter function.body ∧
            next.pending = .call :: call.below ∧ next.store.depth = config.store.depth + 1)) ∧
    (∀ next line count, (∀ fault, config.control ≠ .unwind fault) →
      script.code.next? config = some next → next.control = .unwind ⟨line, .callDepth count⟩ →
        count = options.maxCallDepth ∧ config.store.depth = options.maxCallDepth ∧
        ∃ call resolution node arity function, config.call? = some call ∧ line = call.line ∧
          script.code.resolved? call.callee.id = some (resolution, .function node arity) ∧
          script.code.functions[node]? = some function ∧
          call.args.length = function.params.length) := by
  rw [← limit_of_compile compiled]
  have balanced := reaches_balanced reached
  obtain ⟨act, callers, standing⟩ := Script.standing compiled reached
  obtain ⟨steps, node, waiting, concerns, -⟩ := standing.placed.scopes
  have counted := waiting.callers_length rfl
  obtain ⟨sizes, depth, within⟩ : 0 < config.store.frames.table.size ∧
      config.store.depth = config.pending.countP Pending.isCall ∧
      config.store.depth ≤ script.code.maxCallDepth := by
    obtain ⟨control, upper, -, -, size, -, depth, within⟩ := balanced
    refine ⟨?_, ?_, within⟩
    · rw [size]
      exact Nat.add_pos_left Nat.one_pos _
    · rw [depth]
      show 0 + _ = _
      rw [Nat.zero_add]
      exact congrArg _ (List.append_nil upper).symm
  refine ⟨⟨steps, node, callers, waiting, concerns, depth.trans counted⟩, depth, within, ?_, ?_, ?_⟩
  · intro steps last _ lasts further
    have holds := Code.after_balanced within lasts further
    obtain ⟨suffix, current, outline, deeper⟩ := holds.kept sizes
    exact ⟨suffix, current, outline, deeper, holds.restored⟩
  · intro call resolution node arity function about resolved defined count
    obtain ⟨parent, declaring⟩ := declaring_of_call? compiled reached about resolved defined
    refine ⟨_, Code.next?_of_valid about resolved defined count declaring, ?_⟩
    rw [Config.tidied_control, Config.tidied_pending, Config.tidied_depth]
    split
    · rename_i full
      have full := Nat.le_antisymm within full
      exact ⟨⟨fun _ => full, fun _ => rfl⟩, fun room => absurd full (Nat.ne_of_lt room)⟩
    · rename_i room
      have room := Nat.lt_of_not_le room
      exact ⟨⟨nofun, fun full => absurd full (Nat.ne_of_lt room)⟩, fun _ => ⟨rfl, rfl, rfl⟩⟩
  · intro next line count running found raised
    obtain ⟨call, about⟩ := Code.exists_call balanced (Code.pending_of_next? found) running found
      raised rfl
    obtain ⟨middle, step, rfl⟩ := Code.step_of_next? found
    rw [Code.step_of_call? about] at step
    cases step
    rw [Config.tidied_control] at raised
    obtain ⟨resolution, node, arity, function, resolved, defined, args, full, rfl, rfl⟩ :=
      Code.of_callDepth raised
    exact ⟨rfl, Nat.le_antisymm within full, call, resolution, node, arity, function, about, rfl,
      resolved, defined, args⟩

/-- A text with a function that calls itself without end. -/
def descending : String :=
  "\n".intercalate ["def f(n):", "  return f(n + 1)", "end", "f(0)", ""]

/-- Of two calls that may be in progress the second makes a third one, which fails, and the first call
ends with that failure where it began. -/
theorem activations_balanced_descending :
    ∃ script, Script.compile descending { maxCallDepth := 2 } = .ok script ∧
      (∃ config last fault, script.Reaches .bare config ∧
        script.code.after 27 config = some last ∧ last.control = .unwind fault ∧
        last.store.frames.outline = config.store.frames.outline ∧
        last.store.depth = config.store.depth) ∧
      ∃ config next call, script.Reaches .bare config ∧
        script.code.next? config = some next ∧ config.call? = some call ∧
        next.control = .unwind ⟨call.line, .callDepth 2⟩ ∧
        config.pending.countP Pending.isCall = 2 := by
  refine Script.exists_compiled (fun script =>
    ((script.code.after 4 (script.start .bare)).any fun config =>
      config.control.isOver = false ∧
      (script.code.ends? 27 config.pending config).any fun last => last.control.fault?.isSome) ∧
    (script.code.after 24 (script.start .bare)).any fun config =>
      config.control.fault? = none ∧ (script.code.next? config).any fun next =>
        next.control.fault?.map Fault.cause = some (.callDepth 2)) (by decide +kernel)
    fun script compiled passes => ?_
  obtain ⟨outer, inner⟩ := of_decide_eq_true passes
  constructor
  · obtain ⟨config, reached, passes⟩ := (Option.any_eq_true _ _).mp outer
    obtain ⟨begins, passes⟩ := of_decide_eq_true passes
    obtain ⟨last, ends, passes⟩ := (Option.any_eq_true _ _).mp passes
    obtain ⟨further, finished, short, lasts⟩ := Code.of_ends? ends
    obtain ⟨fault, failed⟩ := Option.isSome_iff_exists.mp passes
    obtain ⟨-, -, -, kept, -⟩ := activations_balanced compiled ⟨4, reached⟩
    obtain ⟨suffix, -, -, -, restored⟩ := kept 27 last begins lasts further
    obtain ⟨-, outline, depth⟩ := restored (suffix.eq_of_length short.symm).symm
    exact ⟨config, last, fault, ⟨4, reached⟩, further, Control.of_fault? failed, outline, depth⟩
  · obtain ⟨config, reached, passes⟩ := (Option.any_eq_true _ _).mp inner
    obtain ⟨running, passes⟩ := of_decide_eq_true passes
    obtain ⟨next, found, passes⟩ := (Option.any_eq_true _ _).mp passes
    obtain ⟨⟨line, cause⟩, failed, rfl⟩ := Option.map_eq_some_iff.mp (of_decide_eq_true passes)
    have raised := Control.of_fault? failed
    have reached : script.Reaches .bare config := ⟨24, reached⟩
    obtain ⟨-, depth, -, -, -, only⟩ := activations_balanced compiled reached
    obtain ⟨-, full, call, _, _, _, _, about, rfl, -⟩ := only next line 2
      (fun fault same => by rw [same] at running; cases running) found raised
    exact ⟨config, next, call, reached, found, about, raised, depth.symm.trans full⟩

end Script

end ScopedScript

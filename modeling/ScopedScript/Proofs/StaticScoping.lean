/-
**Static scoping.**

A call looks at the frames on the chain of the frame in which the function was declared, and at those
that it makes. What its caller has in other frames makes no difference to it, with one reservation. A
file is written out when the last reference to it is given up, and the last reference may be one that
the caller has in its frames:

* `Code.declaringChain`: the frames that a function sees when it is called; `Frames.chain_closed` says
  that they are closed outward;
* `Store.AlikeOn`: stores that differ in nothing but the bindings of other frames;
* `Calling`: two runs in the same call, in its body or at its end, with `Calling.next` for one step;
* `Code.call_independent`: **a call does not depend on its caller**, unless giving up a reference writes
  out a file in one run and not in the other;
* `Script.call_depends`: a caller that holds on to a file can make that difference.
-/

import ScopedScript.Proofs.Finality
import ScopedScript.Proofs.Lockstep

namespace ScopedScript

/-! ### Chains of frames -/

namespace Frames

variable {frames others : Frames} {number parent bound frame : Nat}

theorem lt_size_iff : number < frames.table.size ↔ (frames.outline number).isSome := by
  simp [outline]

theorem size_of_outline (same : others.outline = frames.outline) :
    others.table.size = frames.table.size := by
  have known : ∀ number, number < others.table.size ↔ number < frames.table.size := by
    intro number
    rw [lt_size_iff, lt_size_iff, same]
  apply Nat.le_antisymm
  · exact Nat.le_of_not_lt fun less => Nat.lt_irrefl _ ((known _).mp less)
  · exact Nat.le_of_not_lt fun less => Nat.lt_irrefl _ ((known _).mpr less)

theorem self_mem_climb (known : number < frames.table.size) :
    number ∈ frames.climb (bound + 1) number := by
  simp only [climb, Array.getElem?_eq_getElem known]
  split
  · exact List.mem_singleton.mpr rfl
  · exact List.mem_cons_self

theorem climb_closed (descend : frames.links.Descend) (enough : frame < bound)
    (member : number ∈ frames.climb bound frame) (link : frames.links number = some (some parent)) :
    parent ∈ frames.climb bound frame := by
  induction bound generalizing frame with
  | zero => cases member
  | succ bound ih =>
    simp only [climb] at member ⊢
    cases found : frames.table[frame]? with
    | none => simp [found] at member
    | some entry =>
      have known : frames.links frame = some entry.parent := by
        rw [links, found, Option.map_some]
      cases up : entry.parent with
      | none =>
        simp only [found, up, List.mem_singleton] at member
        subst member
        rw [known, up] at link
        cases link
      | some around =>
        rw [up] at known
        simp only [found, up, List.mem_cons] at member ⊢
        have below : around < frame := descend known
        have inside : around < bound := by omega
        right
        rcases member with rfl | further
        · cases known.symm.trans link
          obtain ⟨bound, rfl⟩ := Nat.exists_eq_succ_of_ne_zero (Nat.ne_zero_of_lt inside)
          exact self_mem_climb (Nat.lt_trans below (lt_size_of_link known))
        · exact ih inside further

theorem lt_size_of_frameFor {scope : ScopeId} (found : frames.frameFor number scope = some frame) :
    frame < frames.table.size := by
  rw [frameFor, search_eq_find?] at found
  have member := List.mem_of_find?_eq_some found
  generalize number + 1 = bound at member
  clear found
  induction bound generalizing number with
  | zero => cases member
  | succ bound ih =>
    rw [climb] at member
    split at member
    · cases member
    · rename_i entry known
      have inside := (Array.getElem?_eq_some_iff.mp known).1
      split at member
      · exact List.mem_singleton.mp member ▸ inside
      · rcases List.mem_cons.mp member with rfl | member
        · exact inside
        · exact ih member

theorem chain_closed (descend : frames.links.Descend) (member : number ∈ frames.chain frame)
    (link : frames.links number = some (some parent)) : parent ∈ frames.chain frame :=
  climb_closed descend (Nat.lt_succ_self frame) member link

end Frames

/-- The frames that a function sees when it is called: the chain of the one it was declared in. -/
def Code.declaringChain (code : Code) (store : Store) (function : Function) : List Nat :=
  ((code.declaringFrame? store function).map store.frames.chain).getD []

/-! ### Stores that agree on some frames -/

/-- Two stores that differ in nothing but the bindings of frames, and not in those of some frames. The
frames that are left from here on give up their values in the same orders. -/
structure Store.AlikeOn (chain : List Nat) (one two : Store) : Prop where
  outline : two.frames.outline = one.frames.outline
  names : ∀ number ∈ chain, ∀ name, two.frames.get? number name = one.frames.get? number name
  depth : two.depth = one.depth
  returning : two.returning = one.returning
  world : two.world = one.world
  gone : two.gone = one.gone
  orders : one.orders.Alike two.orders

/-- Runs that look at some frames of a chain, and may write them. -/
def Terms.calling (chain : List Nat) (one two : Frames) : Terms :=
  ⟨one.table.size, (· ∈ chain), (· ∈ chain), one, two⟩

section Agreement

variable {chain : List Nat} {one two : Store} {size : Nat} {frames frames' : Frames}

theorem Store.AlikeOn.alike (alike : one.AlikeOn chain two)
    (closed : ∀ ⦃number parent⦄, number ∈ chain →
      one.frames.links number = some (some parent) → parent ∈ chain) :
    one.Alike (.calling chain one.frames two.frames) one.frames.table.size two := by
  have size := Frames.size_of_outline alike.outline
  refine ⟨⟨rfl, size, Nat.le_refl _, alike.outline, ?_, alike.names, ?_, ?_, ?_⟩, alike.depth,
    alike.returning, alike.world, alike.gone, alike.orders⟩
  · intro number newer
    change one.frames.table.size ≤ number at newer
    rw [Array.getElem?_eq_none newer, Array.getElem?_eq_none (size ▸ newer)]
  · rintro number parent (shared | newer) link
    · exact .inl (closed shared link)
    · exact absurd (Frames.lt_size_of_link link) (Nat.not_lt_of_le newer)
  · exact fun _ _ _ => rfl
  · exact fun _ _ _ => rfl

theorem Store.Alike.alikeOn (alike : one.Alike (.calling chain frames frames') size two) :
    one.AlikeOn chain two :=
  ⟨alike.frames.outline, alike.frames.names, alike.depth, alike.returning, alike.world, alike.gone,
    alike.orders⟩

end Agreement

/-! ### The runs of a call -/

namespace Lockstep

variable {terms : Terms} {low : Nat} {bottom bottom' : List Pending} {work : Pending}
  {one two : Config}

/-- The lowest work that two runs have in common can count as work above. -/
theorem lower (lock : Lockstep terms (low + 1) (work :: bottom) (work :: bottom') one two)
    (owns : work.ownsFrame = true) : Lockstep terms low bottom bottom' one two := by
  obtain ⟨control, upper, fits, alike⟩ := lock
  rw [List.append_cons upper work bottom, List.append_cons upper work bottom']
  refine .mk control (upper ++ [work]) ?_ alike
  rw [List.countP_append, List.countP_singleton, if_pos owns, fits]
  omega

/-- Work above can count as the lowest that two runs have in common, if it is all there is. -/
theorem raise (lock : Lockstep terms low bottom bottom' one two) (owns : work.ownsFrame = true)
    (only : one.pending = work :: bottom) :
    Lockstep terms (low + 1) (work :: bottom) (work :: bottom') one two := by
  obtain ⟨control, upper, fits, alike⟩ := lock
  have shape : upper ++ bottom = [work] ++ bottom := only
  obtain rfl : upper = [work] := List.append_cancel_right shape
  refine .mk control [] ?_ alike
  rw [fits, List.countP_singleton, if_pos owns, List.countP_nil, Nat.add_zero]

end Lockstep

/-- Two runs of one call: in its body, or at its end. -/
inductive Calling (terms : Terms) (size : Nat) (below below' : List Pending) (one two : Config) :
    Prop
  | body : Lockstep terms (size + 1) (.call :: below) (.call :: below') one two →
    Calling terms size below below' one two
  | ended : one.control.isOver = true → one.pending = below →
    Lockstep terms size below below' one two → Calling terms size below below' one two

namespace Code

variable {code : Code} {node : NodeId} {args : List Value} {line : Nat} {below : List Pending}
  {store : Store} {config next : Config}

/-- A call fails at once, or its body waits for the call. -/
theorem invoke_begins :
    (code.invoke node args line below store).control.isOver = true ∧
        (code.invoke node args line below store).pending = below ∨
      (code.invoke node args line below store).pending = .call :: below := by
  rcases code.invoke_cases node with ⟨cause, shape⟩ | ⟨function, parent, -, -, shape⟩ <;> rw [shape]
  · exact .inl ⟨rfl, rfl⟩
  · exact .inr rfl

theorem next?_call (finished : config.control.isOver = true) (last : config.pending = .call :: below)
    (found : code.next? config = some next) :
    next.control.isOver = true ∧ next.pending = below := by
  obtain ⟨middle, step, rfl⟩ := step_of_next? found
  rw [Config.tidied_control, Config.tidied_pending]
  obtain ⟨control, pending, store⟩ := config
  subst last
  cases control with
  | eval | exec | enter => cases finished
  | resume | unwind =>
    cases step
    exact ⟨rfl, rfl⟩

/-- The runs from two configurations end apart within a number of steps. -/
def EndApart (code : Code) (steps : Nat) (one two : Config) : Prop :=
  ∃ earlier < steps, ∃ before before' middle middle',
    code.after earlier one = some before ∧ code.after earlier two = some before' ∧
    code.step before = .next middle ∧ code.step before' = .next middle' ∧ middle.EndsApart middle'

end Code

namespace Calling

variable {chain : List Nat} {frames frames' : Frames} {below below' : List Pending} {code : Code}
  {one two : Config}

theorem lock {terms : Terms} {size : Nat} (calling : Calling terms size below below' one two) :
    Lockstep terms size below below' one two := by
  cases calling with
  | body lock => exact lock.lower rfl
  | ended _ _ lock => exact lock

/-- **One step of both runs of a call.** -/
theorem next (calling : Calling (.calling chain frames frames') frames.table.size below below' one two)
    (above : one.control.isOver = true → one.pending ≠ below) :
    (∃ middle middle', code.step one = .next middle ∧ code.step two = .next middle' ∧
      middle.EndsApart middle') ∨
    ∃ next next', code.next? one = some next ∧ code.next? two = some next' ∧
      Calling (.calling chain frames frames') frames.table.size below below' next next' := by
  cases calling with
  | ended finished last => exact absurd last (above finished)
  | body lock =>
    have here : (Terms.calling chain frames frames').Seen one.store.current :=
      lock.current_seen (Nat.le_succ _) (.inr (Nat.le_refl _))
    have permitted : ∀ event, code.assignment? one = some event →
        (Terms.calling chain frames frames').Writes event.number := by
      intro event made
      obtain ⟨upper, -, -, -, alike⟩ := lock.exists_upper
      obtain ⟨_, _, _, _, _, _, rfl, -, place, -⟩ := Code.of_assignment? made
      exact Frames.frameFor_closed alike.frames.closed here place
    by_cases ends : one.control.isOver = true ∧ one.pending = .call :: below
    · -- the body is over, so the step ends the call
      rcases (lock.lower rfl).next (Nat.le_refl _) here above permitted with
        apart | ⟨next, next', found, found', lock⟩
      · exact .inl apart
      · obtain ⟨finished, last⟩ := Code.next?_call ends.1 ends.2 found
        exact .inr ⟨next, next', found, found', .ended finished last lock⟩
    · rcases lock.next (Nat.le_succ _) here (fun finished last => ends ⟨finished, last⟩) permitted with
        apart | ⟨next, next', found, found', lock⟩
      · exact .inl apart
      · exact .inr ⟨next, next', found, found', .body lock⟩

end Calling

/-! ### The same call -/

/-- Two configurations are about to make the same call: of a function, with the same arguments, at the
same line. They differ in the work that waits, and in the bindings of frames that the function does not
see. -/
structure Code.SameCall (code : Code) (function : Function) (below below' : List Pending)
    (one two : Config) : Prop where
  calls : ∃ node args line, code.functions[node]? = some function ∧
    code.step one = .next (code.invoke node args line below one.store) ∧
    code.step two = .next (code.invoke node args line below' two.store)
  /-- Frames are inside older frames. -/
  ordered : one.store.frames.links.Descend
  alike : one.store.AlikeOn (code.declaringChain one.store function) two.store

section Call

variable {code : Code} {function : Function} {below below' : List Pending} {one two : Config}

/-- The frames that a function sees are closed outward. -/
theorem Code.declaringChain_closed {store : Store} (ordered : store.frames.links.Descend)
    {number parent : Nat} (member : number ∈ code.declaringChain store function)
    (link : store.frames.links number = some (some parent)) :
    parent ∈ code.declaringChain store function := by
  rw [declaringChain] at member ⊢
  generalize code.declaringFrame? store function = declaring at member ⊢
  cases declaring with
  | none => cases member
  | some frame => exact Frames.chain_closed ordered member link

theorem Code.declaringFrame_mem {store : Store} {frame : Nat}
    (found : code.declaringFrame? store function = some frame) :
    frame ∈ code.declaringChain store function := by
  rw [declaringChain, found]
  exact Frames.self_mem_climb (Frames.lt_size_of_frameFor found)

/-- **The beginning of a call.** -/
theorem Code.SameCall.begins (same : code.SameCall function below below' one two) :
    (∃ middle middle', code.step one = .next middle ∧ code.step two = .next middle' ∧
      middle.EndsApart middle') ∨
    ∃ next next', code.next? one = some next ∧ code.next? two = some next' ∧
      Calling (.calling (code.declaringChain one.store function) one.store.frames two.store.frames)
        one.store.frames.table.size below below' next next' := by
  obtain ⟨⟨node, args, line, known, calls, calls'⟩, ordered, alike⟩ := same
  have lock : Lockstep
      (.calling (code.declaringChain one.store function) one.store.frames two.store.frames)
      one.store.frames.table.size below below' (code.invoke node args line ([] ++ below) one.store)
      (code.invoke node args line ([] ++ below') two.store) := by
    have alike := alike.alike fun number parent => code.declaringChain_closed ordered
    refine Lockstep.invoke rfl alike (Nat.le_refl _) args line fun function' parent known' found => ?_
    obtain rfl : function = function' := Option.some.inj (known.symm.trans known')
    exact .inl (Code.declaringFrame_mem found)
  rcases lock.tidied with apart | lock
  · exact .inl ⟨_, _, calls, calls', apart⟩
  · refine .inr ⟨_, _, by rw [Code.next?, calls], by rw [Code.next?, calls'], ?_⟩
    rcases code.invoke_begins with ⟨finished, last⟩ | entered
    · refine .ended ?_ ?_ lock
      · rw [Config.tidied_control]
        exact finished
      · rw [Config.tidied_pending]
        exact last
    · refine .body (lock.raise rfl ?_)
      rw [Config.tidied_pending]
      exact entered

/-- **Both runs of a call**, for as long as the call lasts. -/
theorem Code.SameCall.after (same : code.SameCall function below below' one two) {steps : Nat}
    (lasts : ∀ earlier < steps, ∀ middle, code.after (earlier + 1) one = some middle →
      middle.control.isOver = true → middle.pending ≠ below) :
    code.EndApart (steps + 1) one two ∨
    ∃ last last', code.after (steps + 1) one = some last ∧ code.after (steps + 1) two = some last' ∧
      Calling (.calling (code.declaringChain one.store function) one.store.frames two.store.frames)
        one.store.frames.table.size below below' last last' := by
  induction steps with
  | zero =>
    rcases same.begins with
      ⟨middle, middle', step, step', apart⟩ | ⟨next, next', found, found', calling⟩
    · exact .inl ⟨0, Nat.one_pos, one, two, middle, middle', rfl, rfl, step, step', apart⟩
    · exact .inr ⟨next, next', Code.after_one.trans found, Code.after_one.trans found', calling⟩
  | succ steps ih =>
    rcases ih fun earlier early => lasts earlier (Nat.lt_succ_of_lt early) with
      ⟨earlier, early, rest⟩ | ⟨before, before', reached, reached', calling⟩
    · exact .inl ⟨earlier, Nat.lt_succ_of_lt early, rest⟩
    · rcases calling.next (lasts steps (Nat.lt_succ_self steps) before reached) with
        ⟨middle, middle', step, step', apart⟩ | ⟨next, next', found, found', calling⟩
      · exact .inl ⟨steps + 1, Nat.lt_succ_self _, before, before', middle, middle', reached,
          reached', step, step', apart⟩
      · refine .inr ⟨next, next', ?_, ?_, calling⟩
        · rw [Code.after_succ, reached]
          exact found
        · rw [Code.after_succ, reached']
          exact found'

end Call

/-! ### Callers that differ in one variable -/

/-- The same configuration with another value for a name in a frame. -/
def Config.rebinding (config : Config) (number : Nat) (name : String) (value : Value) : Config :=
  { config with
    store := { config.store with frames := config.store.frames.set number name value } }

theorem Store.alikeOn_set {store : Store} {chain : List Nat} {number : Nat} (unseen : number ∉ chain)
    (name : String) (value : Value) :
    store.AlikeOn chain { store with frames := store.frames.set number name value } := by
  refine ⟨Frames.outline_set, fun other member key => ?_, rfl, rfl, rfl, rfl, fun _ => rfl⟩
  refine Frames.get?_set_other (.inl ?_)
  rintro rfl
  exact unseen member

/-- The function that a configuration is about to call, once all arguments have their values, and the
work that waits for the call. -/
def Code.call? (code : Code) (config : Config) : Option (Function × List Pending) :=
  match config with
  | ⟨.resume _, .args callee _ _ [] :: below, _⟩ =>
    match code.resolved? callee.id with
    | some (_, .function node _) => code.functions[node]?.map (·, below)
    | _ => none
  | _ => none

theorem Code.of_call? {code : Code} {config : Config} {function : Function} {below : List Pending}
    (called : code.call? config = some (function, below)) :
    ∃ node args line, code.functions[node]? = some function ∧
      ∀ store, code.step { config with store } = .next (code.invoke node args line below store) := by
  unfold call? at called
  split at called
  · rename_i value callee line before below' store
    split at called
    · rename_i resolution node arity resolved
      obtain ⟨function', known, same⟩ := Option.map_eq_some_iff.mp called
      cases same
      refine ⟨node, (before.push value).toList, line, known, fun store => ?_⟩
      show Progress.next (code.dispatch callee line (before.push value).toList below store) = _
      rw [dispatch, resolved]
    · cases called
  · cases called

/-- In a run, a call and the same call with another value for a variable that the function does not
see. -/
theorem Script.sameCall {source : String} {options : Options} {script : Script}
    (compiled : Script.compile source options = .ok script) {host : Host} {config : Config}
    {function : Function} {below : List Pending} {number : Nat} (reached : script.Reaches host config)
    (called : script.code.call? config = some (function, below))
    (unseen : number ∉ script.code.declaringChain config.store function) (name : String)
    (value : Value) :
    script.code.SameCall function below below config (config.rebinding number name value) := by
  obtain ⟨node, given, line, known, calls⟩ := Code.of_call? called
  obtain ⟨act, callers, standing⟩ := Script.standing compiled reached
  refine ⟨⟨node, given, line, known, calls _, calls _⟩, ?_, Store.alikeOn_set unseen name value⟩
  rw [standing.frames]
  exact standing.sound.fits.descend

section Ends

variable {code : Code} {function : Function} {steps : Nat} {below below' : List Pending}
  {one two last : Config}

theorem Code.SameCall.left (same : code.SameCall function below below' one two) :
    code.SameCall function below below one one := by
  obtain ⟨⟨node, args, line, known, calls, -⟩, ordered, -⟩ := same
  exact ⟨⟨node, args, line, known, calls, calls⟩, ordered, rfl, fun _ _ _ => rfl, rfl, rfl, rfl, rfl,
    fun _ => rfl⟩

theorem Code.SameCall.right (same : code.SameCall function below below' one two) :
    code.SameCall function below' below' two two := by
  obtain ⟨⟨node, args, line, known, -, calls⟩, ordered, alike⟩ := same
  refine ⟨⟨node, args, line, known, calls, calls⟩, ?_, rfl, fun _ _ _ => rfl, rfl, rfl, rfl, rfl,
    fun _ => rfl⟩
  intro number parent link
  rw [Frames.links_eq_outline, alike.outline, ← Frames.links_eq_outline] at link
  exact ordered link

/-- When a call is over, the work that waited for it goes on. -/
theorem Code.SameCall.pending_eq (same : code.SameCall function below below one one)
    (ends : code.ends? (steps + 1) below one = some last) : last.pending = below := by
  obtain ⟨reached, -, short, lasts⟩ := of_ends? ends
  rcases same.after fun earlier early => lasts (earlier + 1) (Nat.succ_lt_succ early) with
    ⟨_, -, _, _, middle, middle', found, found', step, step', apart⟩ | ⟨_, _, found, -, calling⟩
  · cases found.symm.trans found'
    cases step.symm.trans step'
    exact absurd apart middle.not_endsApart
  · cases reached.symm.trans found
    obtain ⟨upper, -, pending, -⟩ := calling.lock.exists_upper
    have suffix : below <:+ last.pending := ⟨upper, pending.symm⟩
    exact (suffix.eq_of_length short.symm).symm

theorem Config.resume_of_held {control : Control} {value : Value}
    (holds : Config.held control = [value]) : control = .resume value := by
  cases control with
  | resume given => rw [List.singleton_inj.mp holds]
  | eval | exec | enter | unwind => cases holds

/-- Where no file keeps bytes back, runs do not end apart. -/
theorem Code.not_endApart (flushed : ∀ earlier < steps, (code.after earlier one).all fun before =>
      match code.step before with
      | .next middle => !middle.store.world.keepsBytes
      | _ => true) : ¬ code.EndApart steps one two := by
  rintro ⟨earlier, early, before, _, middle, _, reached, _, step, _, apart⟩
  have quiet := (Option.all_eq_true _ _).mp (flushed earlier early) before reached
  simp [step, apart.keepsBytes] at quiet

end Ends

/-! ### Calls do not depend on callers -/

/-- **A call does not depend on its caller.** From two configurations that are about to make the same
call, the runs do the same for as long as the call lasts: they come to the same value or failure in the
same number of steps, with the same output, heap and files, and leave all frames that the function does
not see as they were. This holds for all orders in which frames give up their values, the same in both
runs. If not, then both gave up the same references at some step, and this wrote out a file in one run
and not in the other. -/
theorem Code.call_independent {code : Code} {function : Function} {below below' : List Pending}
    {one two : Config} (same : code.SameCall function below below' one two) {steps : Nat}
    (lasts : ∀ earlier < steps, ∀ middle, code.after (earlier + 1) one = some middle →
      middle.control.isOver = true → middle.pending ≠ below) :
    code.EndApart (steps + 1) one two ∨
    ∃ last last' upper, code.after (steps + 1) one = some last ∧
      code.after (steps + 1) two = some last' ∧ last'.control = last.control ∧
      last.pending = upper ++ below ∧ last'.pending = upper ++ below' ∧
      last.store.AlikeOn (code.declaringChain one.store function) last'.store ∧
      ∀ number < one.store.frames.table.size, number ∉ code.declaringChain one.store function →
        last.store.frames.table[number]? = one.store.frames.table[number]? ∧
        last'.store.frames.table[number]? = two.store.frames.table[number]? := by
  rcases same.after lasts with apart | ⟨last, last', reached, reached', calling⟩
  · exact .inl apart
  · obtain ⟨upper, control, pending, pending', alike⟩ := calling.lock.exists_upper
    refine .inr ⟨last, last', upper, reached, reached', control, pending, pending', alike.alikeOn, ?_⟩
    intro number older unseen
    exact ⟨alike.frames.kept_one older unseen, alike.frames.kept_two older unseen⟩

/-- A text in which a function reads a variable, and its caller has a variable of that name. -/
def homonyms : String :=
  "\n".intercalate ["x = 1", "def f(n):", "  return x + n", "end", "def g(x):", "  return f(2)",
    "end", "g(10)", ""]

/-- What the caller's variable of the same name stands for makes no difference. -/
theorem Code.call_independent_homonyms : ∃ script, Script.compile homonyms {} = .ok script ∧
    ∃ one function below last last', script.Reaches .bare one ∧
      one.store.frames.get? 2 "x" = some (.int 10) ∧
      script.code.SameCall function below below one (one.rebinding 2 "x" (.text "a")) ∧
      script.code.after 11 one = some last ∧
      script.code.after 11 (one.rebinding 2 "x" (.text "a")) = some last' ∧
      last.control = .resume (.int 3) ∧ last'.control = .resume (.int 3) ∧
      last.pending = below ∧ last'.pending = below := by
  refine Script.exists_compiled (fun script =>
    (script.code.after 17 (script.start .bare)).any fun one =>
      (script.code.call? one).any fun called =>
        2 ∉ script.code.declaringChain one.store called.1 ∧
        one.store.frames.get? 2 "x" = some (.int 10) ∧
        (script.code.ends? 11 called.2 one).any (Config.held ·.control = [.int 3]) ∧
        ∀ earlier < 11, (script.code.after earlier one).all fun before =>
          match script.code.step before with
          | .next middle => !middle.store.world.keepsBytes
          | _ => true)
    (by decide +kernel) fun script compiled passes => ?_
  obtain ⟨one, reached, passes⟩ := (Option.any_eq_true _ _).mp passes
  obtain ⟨⟨function, below⟩, called, passes⟩ := (Option.any_eq_true _ _).mp passes
  obtain ⟨unseen, bound, returned, flushed⟩ := of_decide_eq_true passes
  have same := Script.sameCall compiled ⟨17, reached⟩ called unseen "x" (.text "a")
  obtain ⟨last, ends, holds⟩ := (Option.any_eq_true _ _).mp returned
  obtain ⟨found, -, short, lasts⟩ := Code.of_ends? ends
  have control := Config.resume_of_held (of_decide_eq_true holds)
  have lasts : ∀ earlier < 10, _ := fun earlier early =>
    lasts (earlier + 1) (Nat.succ_lt_succ early)
  rcases Code.call_independent same lasts with apart | ⟨last, last', upper, found', found'', control',
    pending, pending', -⟩
  · exact absurd apart (Code.not_endApart flushed)
  · cases found.symm.trans found'
    have ended := same.left.pending_eq ends
    obtain rfl : upper = [] := List.self_eq_append_left.mp (ended.symm.trans pending)
    exact ⟨one, function, below, last, last', ⟨17, reached⟩, bound, same, found, found'', control,
      control'.trans control, pending, pending'⟩

/-- A text in which a function gives up the file it was called with, and its caller holds on to it. -/
def holding : String :=
  "\n".intercalate ["def f(w):", "  write(w, \"x\")", "  w = 0", "  return read(open(\"a\", \"r\"))",
    "end", "def g(k):", "  return f(k)", "end", "g(open(\"a\", \"w\"))", ""]

/-- **A call can depend on its caller**: what the function has written can be read where the caller
does not hold on to the file, and cannot where it does. -/
theorem Script.call_depends : ∃ script, Script.compile holding {} = .ok script ∧
    ∃ one function below last last', script.Reaches .bare one ∧
      script.code.SameCall function below below one (one.rebinding 2 "k" .none) ∧
      script.code.after 24 one = some last ∧
      script.code.after 24 (one.rebinding 2 "k" .none) = some last' ∧
      last.control = .resume .none ∧ last'.control = .resume (.text "x") ∧
      last.pending = below ∧ last'.pending = below := by
  refine Script.exists_compiled (fun script =>
    (script.code.after 17 (script.start .bare)).any fun one =>
      (script.code.call? one).any fun called =>
        2 ∉ script.code.declaringChain one.store called.1 ∧
        (script.code.ends? 24 called.2 one).any (Config.held ·.control = [.none]) ∧
        (script.code.ends? 24 called.2 (one.rebinding 2 "k" .none)).any
          (Config.held ·.control = [.text "x"]))
    (by decide +kernel) fun script compiled passes => ?_
  obtain ⟨one, reached, passes⟩ := (Option.any_eq_true _ _).mp passes
  obtain ⟨⟨function, below⟩, called, passes⟩ := (Option.any_eq_true _ _).mp passes
  obtain ⟨unseen, returned, returned'⟩ := of_decide_eq_true passes
  have same := Script.sameCall compiled ⟨17, reached⟩ called unseen "k" .none
  obtain ⟨last, ends, holds⟩ := (Option.any_eq_true _ _).mp returned
  obtain ⟨last', ends', holds'⟩ := (Option.any_eq_true _ _).mp returned'
  refine ⟨one, function, below, last, last', ⟨17, reached⟩, same, (Code.of_ends? ends).1,
    (Code.of_ends? ends').1, Config.resume_of_held (of_decide_eq_true holds),
    Config.resume_of_held (of_decide_eq_true holds'), ?_, ?_⟩
  · exact same.left.pending_eq ends
  · exact same.right.pending_eq ends'

end ScopedScript

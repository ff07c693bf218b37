/-
**What expressions do to frames.**

An expression can call functions and walk through arrays, and both make frames and write them. They
write no others: an assignment is a statement of the body of some function, and its variable belongs
to that call of the function:

* `Waiting.expr_or_deeper`: below the calls that an expression makes, only expressions are in progress;
* `Activation.Above`: the frames of those calls come after the ones that were there before;
* `Transition.above`, `Transition.assigned_above`: a step keeps this up, and assigns in such a call;
* `Confined`: a configuration on the way through an evaluation, with `Confined.next` for one step and
  `Confined.after` for many;
* `Script.evaluation_keeps_frames`: **evaluating an expression leaves all older frames as they were.**
-/

import ScopedScript.Proofs.Finality
import ScopedScript.Proofs.Lockstep

namespace ScopedScript

/-! ### Expressions and the calls they make -/

theorem Hole.part_of_expr {work : Pending} {expr : Expr} {offset : List ScopeStep} {part : Node}
    (hole : Hole work (.expr expr) offset part) : ∃ inner, part = .expr inner := by
  cases hole <;> exact ⟨_, rfl⟩

section Waiting

variable {program : Program} {policy : Redeclaration} {code : Code} {bottom : Bottom}
  {pending : List Pending} {steps : List ScopeStep} {node : Node} {callers : List Activation}

theorem Waiting.callers_le (waiting : Waiting program policy code bottom pending steps node callers) :
    bottom.callers.length ≤ callers.length := by
  induction waiting with
  | bottom => exact Nat.le_refl _
  | work _ _ ih | value _ ih => exact ih
  | call _ _ _ _ ih => exact Nat.le_succ_of_le ih

/-- While an expression is evaluated, an expression is in progress, or a function that it calls. -/
theorem Waiting.expr_or_deeper {expr : Expr} (whole : bottom.node = .expr expr)
    (waiting : Waiting program policy code bottom pending steps node callers) :
    (∃ inner, node = .expr inner) ∨ bottom.callers.length < callers.length := by
  induction waiting with
  | bottom => exact .inl ⟨expr, whole⟩
  | work hole _ ih =>
    rcases ih with ⟨inner, rfl⟩ | deeper
    · exact .inl hole.part_of_expr
    · exact .inr deeper
  | value => exact .inl ⟨_, rfl⟩
  | call below => exact .inr (Nat.lt_succ_of_le below.callers_le)

end Waiting

/-! ### The frames of calls in progress -/

/-- Activations above some callers: all but the first of them have their own frames after the frames
that were there before. -/
inductive Activation.Above (size : Nat) (callers : List Activation) : List Activation → Prop
  | here {act : Activation} : size ≤ act.frames.table.size → Above size callers (act :: callers)
  | call {act : Activation} {others : List Activation} : size ≤ act.base →
    Above size callers others → Above size callers (act :: others)

section Transition

open Activation

variable {promise : Promise} {final : DeclId → Prop} {size : Nat} {act next : Activation}
  {bottom callers callers' : List Activation} {event : Option Assignment} {made : Assignment}

theorem Activation.Above.le_size (above : Above size bottom (act :: callers))
    (fits : act.Fits promise) : size ≤ act.frames.table.size := by
  cases above with
  | here inside => exact inside
  | call newer => exact Nat.le_of_lt (Nat.lt_of_le_of_lt newer fits.based)

/-- A step that does not go below the callers keeps the frames of calls above them. -/
theorem Transition.above (transition : Transition promise final (act :: callers) event
      (next :: callers'))
    (sound : Sound promise (act :: callers)) (apart : (act.layers.map Layer.scope).Nodup)
    (above : Above size bottom (act :: callers)) (inside : size ≤ next.frames.table.size)
    (deep : bottom.length ≤ callers'.length) : Above size bottom (next :: callers') := by
  cases transition with
  | move move =>
    cases above with
    | here => exact .here inside
    | call newer above =>
      obtain ⟨base, -⟩ := move.below sound.fits apart
      exact .call (base ▸ newer) above
  | call calls =>
    have larger := above.le_size sound.fits
    cases calls with
    | mk => exact .call larger above
  | ended =>
    cases above with
    | here =>
      rw [List.length_cons] at deep
      omega
    | call _ above => exact above

/-- An assignment is to a frame of the activation in progress. -/
theorem Transition.base_le_assigned
    (transition : Transition promise final (act :: callers) (some made) callers')
    (fits : act.Fits promise) (apart : (act.layers.map Layer.scope).Nodup) :
    act.base ≤ made.number := by
  generalize whatever : some made = event at transition
  cases transition with
  | call | ended => cases whatever
  | move move =>
    cases move with
    | still | opened | begun | again | closed | defined => cases whatever
    | declared =>
      cases whatever
      exact fits.base_le
    | rebound name id value member own latest free place =>
      cases whatever
      obtain ⟨number, place', lies⟩ := fits.frame apart member
      cases place.symm.trans place'
      exact lies.1.mp own

/-- An assignment above the callers is to a frame that was not there before. -/
theorem Transition.assigned_above
    (transition : Transition promise final (act :: callers) (some made) callers')
    (fits : act.Fits promise) (apart : (act.layers.map Layer.scope).Nodup)
    (above : Above size bottom (act :: callers)) (deeper : bottom.length < callers.length) :
    size ≤ made.number := by
  cases above with
  | here => exact absurd deeper (Nat.lt_irrefl _)
  | call newer => exact Nat.le_trans newer (transition.base_le_assigned fits apart)

end Transition

/-! ### On the way through an evaluation -/

/-- Frames that may be looked at and not written, only added to. -/
def Terms.keeping (frames : Frames) : Terms :=
  ⟨frames.table.size, fun _ => True, fun _ => False, frames, frames⟩

theorem Frames.alike_keeping (frames : Frames) :
    frames.Alike (.keeping frames) frames.table.size frames where
  size_one := rfl
  size_two := rfl
  within := Nat.le_refl _
  outline := rfl
  fresh _ _ := rfl
  names _ _ _ := rfl
  closed _ _ _ _ := .inl trivial
  kept_one _ _ _ := rfl
  kept_two _ _ _ := rfl

/-- A configuration on the way through an evaluation that began with some frames. It goes along with
itself, which says that the frames of the work in progress come on top of those. -/
structure Confined (program : Program) (policy : Redeclaration) (code : Code) (bottom : Bottom)
    (frames : Frames) (act : Activation) (callers : List Activation) (config : Config) : Prop where
  standing : Standing program policy code .anything bottom act callers config
  above : Activation.Above frames.table.size bottom.callers (act :: callers)
  lock : Lockstep (.keeping frames) frames.table.size bottom.pending bottom.pending config config

namespace Confined

variable {program : Program} {policy : Redeclaration} {code : Code} {bottom : Bottom}
  {frames : Frames} {act : Activation} {callers : List Activation} {config : Config} {expr : Expr}

variable (confined : Confined program policy code bottom frames act callers config)

include confined

theorem kept :
    ∀ number < frames.table.size, config.store.frames.table[number]? = frames.table[number]? := by
  intro number older
  obtain ⟨upper, -, -, -, alike⟩ := confined.lock.exists_upper
  exact alike.frames.kept_one older not_false

theorem suffix : bottom.pending <:+ config.pending := by
  obtain ⟨upper, -, pending, -⟩ := confined.lock.exists_upper
  exact ⟨upper, pending.symm⟩

/-- When nothing of the evaluation is left to do, the frames are those it began with. -/
theorem frames_eq
    (last : config.pending = bottom.pending) : config.store.frames = frames := by
  obtain ⟨upper, -, pending, -, alike⟩ := confined.lock.exists_upper
  have size : config.store.frames.table.size = frames.table.size := by
    rw [alike.frames.size_one, List.self_eq_append_left.mp (last.symm.trans pending)]
    rfl
  refine congrArg Frames.mk (Array.ext_getElem? fun number => ?_)
  rcases Nat.lt_or_ge number frames.table.size with older | newer
  · exact confined.kept number older
  · rw [Array.getElem?_eq_none newer, Array.getElem?_eq_none (size ▸ newer)]

variable (setting : Setting program policy code .anything bottom)

include setting

/-- An assignment on the way is to a frame that the evaluation made. -/
theorem assigned
    (whole : bottom.node = .expr expr)
    (above : config.control.isOver = true → config.pending ≠ bottom.pending) {event : Assignment}
    (made : code.assignment? config = some event) : frames.table.size ≤ event.number := by
  have standing := confined.standing
  have apart := setting.apart standing
  obtain ⟨value, name, line, pending, store, resolution, rfl, -⟩ := Code.of_assignment? made
  -- an assignment that waits for its value is a statement, so a call is in progress
  have deeper : bottom.callers.length < callers.length := by
    cases standing.placed with
    | resume waiting =>
      obtain ⟨_, _, _, _, -, -, hole, waiting⟩ := waiting.hole (above rfl) nofun
      cases hole
      exact (waiting.expr_or_deeper whole).resolve_left nofun
  obtain ⟨act', callers', -, transition⟩ := setting.next standing above (fun _ _ => trivial) rfl
  rw [made] at transition
  exact transition.assigned_above standing.sound.fits apart confined.above deeper

/-- **One step on the way through an evaluation.** -/
theorem next {next : Config} (whole : bottom.node = .expr expr)
    (above : config.control.isOver = true → config.pending ≠ bottom.pending)
    (found : code.next? config = some next) :
    ∃ act' callers', Confined program policy code bottom frames act' callers' next := by
  have standing := confined.standing
  obtain ⟨act', callers', stands, transition⟩ :=
    setting.next standing above (fun _ _ => trivial) found
  have lock : Lockstep (.keeping frames) frames.table.size bottom.pending bottom.pending next
      next := by
    rcases confined.lock.next (Nat.le_refl _) (.inl trivial) above fun event made =>
        .inr (confined.assigned setting whole above made) with
      ⟨middle, middle', step, step', apart⟩ | ⟨one, two, found', found'', lock⟩
    · cases step.symm.trans step'
      exact absurd apart middle.not_endsApart
    · cases found.symm.trans found'
      cases found.symm.trans found''
      exact lock
  refine ⟨act', callers', stands, ?_, lock⟩
  refine transition.above standing.sound (setting.apart standing) confined.above ?_ ?_
  · obtain ⟨upper, -, -, -, alike⟩ := lock.exists_upper
    rw [← stands.frames, alike.frames.size_one]
    exact alike.frames.within
  · obtain ⟨_, _, waiting, -⟩ := stands.placed.scopes
    exact waiting.callers_le

/-- **All steps on the way through an evaluation.** -/
theorem after {steps : Nat} {last : Config} (whole : bottom.node = .expr expr)
    (above : code.Lasts steps config bottom.pending)
    (reached : code.after steps config = some last) :
    ∃ act' callers', Confined program policy code bottom frames act' callers' last := by
  refine Code.after_induction ⟨act, callers, confined⟩ ?_ reached
  rintro count early middle next before found ⟨act', callers', confined'⟩
  exact confined'.next setting whole (above count early middle before) found

end Confined

/-- **Evaluating an expression leaves older frames alone.** From any configuration that a run reaches
and that is about to evaluate an expression, for as long as the evaluation goes on, through all calls
and comprehensions in it: every frame that existed before is as it was, and the work that waits goes on
waiting. When the evaluation is over, with a value or a failure, there are no other frames. Until then,
whatever is assigned is assigned in a frame made since. -/
theorem Script.evaluation_keeps_frames {source : String} {options : Options} {script : Script}
    (compiled : Script.compile source options = .ok script) {host : Host}
    {config last : Config} {expr : Expr} {steps : Nat}
    (reached : script.Reaches host config) (starts : config.control = .eval expr)
    (lasts : ∀ earlier < steps, ∀ middle, script.code.after earlier config = some middle →
      middle.control.isOver = true → middle.pending ≠ config.pending)
    (further : script.code.after steps config = some last) :
    (∀ number < config.store.frames.table.size,
      last.store.frames.table[number]? = config.store.frames.table[number]?) ∧
    config.pending <:+ last.pending ∧
    (last.pending = config.pending → last.store.frames = config.store.frames) ∧
    ((last.control.isOver = true → last.pending ≠ config.pending) →
      ∀ event, script.code.assignment? last = some event →
        config.store.frames.table.size ≤ event.number) := by
  have setting := Script.setting compiled
  obtain ⟨act, callers, standing⟩ := Script.standing compiled reached
  obtain ⟨control, pending, store⟩ := config
  obtain rfl : control = .eval expr := starts
  cases standing.placed with
  | @eval _ _ place _ _ waiting here =>
    -- the work that waits for the expression is the bottom of what is done for it
    have inner : Setting script.program options.redeclaration script.code .anything
        ⟨pending, place, .expr expr, callers⟩ :=
      ⟨setting.of, setting.valid, waiting.within setting.inside⟩
    have begins : Confined script.program options.redeclaration script.code
        ⟨pending, place, .expr expr, callers⟩ store.frames act callers
        ⟨.eval expr, pending, store⟩ := by
      refine ⟨⟨standing.frames, standing.sound, .eval .bottom here⟩, .here ?_, ?_⟩
      · exact Nat.le_of_eq (congrArg (·.table.size) standing.frames)
      · exact .mk _ [] rfl ⟨store.frames.alike_keeping, rfl, rfl, rfl, rfl, fun _ => rfl⟩
    obtain ⟨act', callers', confined⟩ := begins.after inner rfl lasts further
    exact ⟨confined.kept, confined.suffix, confined.frames_eq, fun above event made =>
      confined.assigned inner rfl above made⟩

/-- A text with a variable whose name a function, and a comprehension in it, use for their own. -/
def shadowing : String :=
  "\n".intercalate ["x = 1", "def f(n):", "  x = [x + n for x in [n]]", "  if n > 0:",
    "    return f(n - 1)", "  end", "  return x[1]", "end", "f(1)", ""]

/-- Whether an expression was to be evaluated, and there is a failure now. -/
def Control.failsWith : Control → Control → Bool
  | .eval _, .unwind _ => true
  | _, _ => false

/-- A call that fails in a call leaves the variable of the caller alone. -/
theorem Script.evaluation_keeps_frames_failing : ∃ script, Script.compile shadowing {} = .ok script ∧
    ∃ config expr last fault, script.Reaches .bare config ∧ config.control = .eval expr ∧
      script.code.after 71 config = some last ∧ last.control = .unwind fault ∧
      config.store.frames.get? 1 "x" = some (.int 1) ∧
      last.store.frames = config.store.frames := by
  refine Script.exists_compiled (fun script =>
    (script.code.after 8 (script.start .bare)).any fun config =>
      config.store.frames.get? 1 "x" == some (.int 1) &&
      (script.code.ends? 71 config.pending config).any fun last =>
        config.control.failsWith last.control) (by decide +kernel) fun script compiled passes => ?_
  obtain ⟨config, reached, passes⟩ := (Option.any_eq_true _ _).mp passes
  obtain ⟨bound, passes⟩ := Bool.and_eq_true_iff.mp passes
  obtain ⟨last, ends, passes⟩ := (Option.any_eq_true _ _).mp passes
  obtain ⟨further, -, short, lasts⟩ := Code.of_ends? ends
  unfold Control.failsWith at passes
  split at passes
  · rename_i expr fault starts failed
    obtain ⟨-, suffix, kept, -⟩ :=
      Script.evaluation_keeps_frames compiled ⟨8, reached⟩ starts lasts further
    exact ⟨config, expr, last, fault, ⟨8, reached⟩, starts, further, failed, eq_of_beq bound,
      kept (suffix.eq_of_length short.symm).symm⟩
  · cases passes

end ScopedScript

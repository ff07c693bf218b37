/-
**Frames that agree.**

The frames of two runs have the same shape, and may differ in their bindings where neither run looks.
The frames that a run looks at are closed outward, those that it makes lie inside them, and it writes
no others:

* `Frames.outline`: the shape of frames, all that a search for the frame of a scope looks at;
* `Terms`: which frames the runs make, look at and may write;
* `Frames.Alike`, `Store.Alike`: what the two runs have made so far agrees on those terms, and goes on
  to agree under all that a step does to frames.
-/

import ScopedScript.Machine.Run
import ScopedScript.Proofs.Activation

set_option linter.unusedSectionVars false

namespace ScopedScript

/-! ### The shape of frames -/

namespace Frames

variable {frames others : Frames} {number other parent : Nat} {scope : ScopeId} {name key : String}
  {value : Value}

/-- What is known of a frame without its bindings: its scope and its parent. -/
def outline (frames : Frames) (number : Nat) : Option (ScopeId × Option Nat) :=
  frames.table[number]?.map fun frame => (frame.scope, frame.parent)

theorem links_eq_outline (frames : Frames) (number : Nat) :
    frames.links number = (frames.outline number).map Prod.snd := by
  rw [links, outline, Option.map_map]
  rfl

theorem outline_child : (frames.child parent scope).outline number =
    if number = frames.table.size then some (scope, some parent) else frames.outline number := by
  rw [outline, child, Array.getElem?_push]
  split <;> rfl

theorem outline_pop : frames.pop.outline number =
    if number < frames.newest then frames.outline number else none := by
  rw [outline, pop, Array.getElem?_pop]
  show Option.map _ (if number < frames.newest then _ else _) = _
  split <;> rfl

theorem outline_set : (frames.set other name value).outline = frames.outline := by
  funext number
  rw [outline, outline, set, Array.getElem?_modify]
  split
  · rw [Option.map_map]
    rfl
  · rfl

theorem get?_set : (frames.set other name value).get? number key =
    if other = number ∧ key = name then (frames.outline number).map fun _ => value
    else frames.get? number key := by
  rw [get?, get?, outline, set, Array.getElem?_modify]
  by_cases here : other = number
  · rw [if_pos here]
    cases frames.table[number]? with
    | none => simp
    | some frame =>
      by_cases same : key = name
      · subst same
        simp [here]
      · simp [same]
  · rw [if_neg here, if_neg fun both => here both.1]

theorem scope_of_outline (same : others.outline = frames.outline) (number : Nat) :
    others.scope number = frames.scope number := by
  have here := congrFun same number
  rw [outline, outline] at here
  rw [scope, scope, Array.getD_eq_getD_getElem?, Array.getD_eq_getD_getElem?]
  cases found : frames.table[number]? with
  | none => rw [found, Option.map_none, Option.map_eq_none_iff] at here; rw [here]
  | some frame =>
    rw [found, Option.map_some] at here
    obtain ⟨frame', found', same⟩ := Option.map_eq_some_iff.mp here
    rw [found']
    exact (Prod.mk.inj same).1

theorem search_of_outline (same : others.outline = frames.outline) (scope : ScopeId) (bound : Nat)
    (number : Nat) : others.search scope bound number = frames.search scope bound number := by
  induction bound generalizing number with
  | zero => rfl
  | succ bound ih =>
    have here := congrFun same number
    rw [outline, outline] at here
    rw [search, search]
    cases found : frames.table[number]? with
    | none =>
      rw [found, Option.map_none, Option.map_eq_none_iff] at here
      rw [here]
    | some frame =>
      rw [found, Option.map_some] at here
      obtain ⟨frame', found', same⟩ := Option.map_eq_some_iff.mp here
      obtain ⟨scopes, parents⟩ := Prod.mk.inj same
      simp only [found', scopes, parents, ih]

/-- The search for a frame looks at the shape of frames only. -/
theorem frameFor_of_outline (same : others.outline = frames.outline) (number : Nat) (scope : ScopeId) :
    others.frameFor number scope = frames.frameFor number scope :=
  search_of_outline same scope (number + 1) number

/-- A search stays among frames that are closed outward. -/
theorem frameFor_closed {seen : Nat → Prop}
    (closed : ∀ ⦃number parent⦄, seen number → frames.links number = some (some parent) → seen parent)
    (here : seen number) (found : frames.frameFor number scope = some other) : seen other := by
  rw [frameFor] at found
  generalize number + 1 = bound at found
  induction bound generalizing number with
  | zero => cases found
  | succ bound ih =>
    rw [search] at found
    split at found
    · cases found
    · rename_i frame known
      split at found
      · cases found
        exact here
      · split at found
        · cases found
        · rename_i parent up
          refine ih (closed here ?_) found
          rw [links, known, Option.map_some, up]

end Frames

/-! ### What two runs agree on -/

/-- What two runs have to do with frames. -/
structure Terms where
  /-- Frames from this number on are made by the runs. -/
  old : Nat
  /-- The older frames that the runs look at. -/
  shared : Nat → Prop
  /-- The older frames that the runs may write. -/
  writable : Nat → Prop
  /-- The frames at the beginning, of the one run and of the other. -/
  first : Frames
  second : Frames

namespace Terms

variable {terms : Terms} {origin frames : Frames} {number parent : Nat} {scope : ScopeId}
  {name : String} {value : Value}

/-- The runs look at this frame. -/
def Seen (terms : Terms) (number : Nat) : Prop := terms.shared number ∨ terms.old ≤ number

/-- The runs may write this frame. -/
def Writes (terms : Terms) (number : Nat) : Prop := terms.writable number ∨ terms.old ≤ number

/-- Older frames that the runs may not write are as they were. -/
def Keeps (terms : Terms) (origin frames : Frames) : Prop :=
  ∀ ⦃number⦄, number < terms.old → ¬ terms.writable number →
    frames.table[number]? = origin.table[number]?

theorem Keeps.child (keeps : terms.Keeps origin frames) (within : terms.old ≤ frames.table.size) :
    terms.Keeps origin (frames.child parent scope) := by
  intro number older other
  rw [Frames.table_child_old (Nat.lt_of_lt_of_le older within)]
  exact keeps older other

theorem Keeps.pop (keeps : terms.Keeps origin frames) (within : terms.old ≤ frames.newest) :
    terms.Keeps origin frames.pop := by
  intro number older other
  rw [Frames.table_pop (Nat.lt_of_lt_of_le older within)]
  exact keeps older other

theorem Keeps.set (keeps : terms.Keeps origin frames) (writes : terms.Writes number) :
    terms.Keeps origin (frames.set number name value) := by
  intro index older other
  have apart : number ≠ index := by
    rintro rfl
    rcases writes with writable | newer
    · exact other writable
    · exact Nat.not_le_of_gt older newer
  rw [Frames.table_set_other apart]
  exact keeps older other

end Terms

/-- Frames of two runs that agree: they have the same shape, and the same values in the frames that
the runs look at. -/
structure Frames.Alike (terms : Terms) (size : Nat) (one two : Frames) : Prop where
  size_one : one.table.size = size
  size_two : two.table.size = size
  within : terms.old ≤ size
  outline : two.outline = one.outline
  fresh : ∀ ⦃number⦄, terms.old ≤ number → two.table[number]? = one.table[number]?
  names : ∀ ⦃number⦄, terms.shared number → ∀ name, two.get? number name = one.get? number name
  closed : ∀ ⦃number parent⦄, terms.Seen number → one.links number = some (some parent) →
    terms.Seen parent
  kept_one : terms.Keeps terms.first one
  kept_two : terms.Keeps terms.second two

namespace Frames.Alike

variable {terms : Terms} {size number parent : Nat} {one two : Frames} {scope : ScopeId}
  {name : String} {value : Value}

variable (alike : one.Alike terms size two)

include alike

theorem newest : two.newest = one.newest := by
  rw [Frames.newest, Frames.newest, alike.size_one, alike.size_two]

omit alike in
theorem newest_eq (alike : one.Alike terms (size + 1) two) : one.newest = size := by
  rw [Frames.newest, alike.size_one, Nat.add_sub_cancel]

theorem get? (seen : terms.Seen number) (name : String) :
    two.get? number name = one.get? number name := by
  rcases seen with shared | newer
  · exact alike.names shared name
  · exact Frames.get?_congr (alike.fresh newer) name

theorem frameFor (number : Nat) (scope : ScopeId) :
    two.frameFor number scope = one.frameFor number scope :=
  Frames.frameFor_of_outline alike.outline number scope

theorem child (around : terms.Seen parent) :
    (one.child parent scope).Alike terms (size + 1) (two.child parent scope) where
  size_one := by rw [Frames.child, Array.size_push, alike.size_one]
  size_two := by rw [Frames.child, Array.size_push, alike.size_two]
  within := Nat.le_succ_of_le alike.within
  outline := by
    funext number
    rw [outline_child, outline_child, alike.size_one, alike.size_two, alike.outline]
  fresh number newer := by
    rw [Frames.child, Frames.child, Array.getElem?_push, Array.getElem?_push, alike.size_one,
      alike.size_two, alike.fresh newer]
  names number shared name := by
    rw [Frames.get?, Frames.get?, Frames.child, Frames.child, Array.getElem?_push,
      Array.getElem?_push, alike.size_one, alike.size_two]
    split
    · rfl
    · exact alike.names shared name
  closed number above seen link := by
    rw [links_eq_outline, outline_child] at link
    split at link
    · cases link
      exact around
    · rw [← links_eq_outline] at link
      exact alike.closed seen link
  kept_one := alike.kept_one.child (alike.size_one ▸ alike.within)
  kept_two := alike.kept_two.child (alike.size_two ▸ alike.within)

omit alike in
theorem pop (alike : one.Alike terms (size + 1) two) (within : terms.old ≤ size) :
    one.pop.Alike terms size two.pop where
  size_one := Frames.size_pop.trans alike.newest_eq
  size_two := Frames.size_pop.trans (alike.newest.trans alike.newest_eq)
  within := within
  outline := by
    funext number
    rw [outline_pop, outline_pop, alike.newest, alike.outline]
  fresh number newer := by
    rw [Frames.pop, Frames.pop, Array.getElem?_pop, Array.getElem?_pop, alike.size_one,
      alike.size_two, alike.fresh newer]
  names number shared name := by
    rw [Frames.get?, Frames.get?, Frames.pop, Frames.pop, Array.getElem?_pop, Array.getElem?_pop,
      alike.size_one, alike.size_two]
    split
    · exact alike.names shared name
    · rfl
  closed number above seen link := by
    rw [links_eq_outline, outline_pop] at link
    split at link
    · rw [← links_eq_outline] at link
      exact alike.closed seen link
    · cases link
  kept_one := alike.kept_one.pop (alike.newest_eq ▸ within)
  kept_two := alike.kept_two.pop (alike.newest.symm ▸ alike.newest_eq ▸ within)

/-- What is left with a frame that both runs made. -/
theorem valuesIn (newer : terms.old ≤ number) :
    two.valuesIn number = one.valuesIn number := by
  rw [Frames.valuesIn, Frames.valuesIn, alike.fresh newer]

/-- Both runs bind a name in a frame that they look at and may write. -/
theorem set (writes : terms.Writes number) :
    (one.set number name value).Alike terms size (two.set number name value) where
  size_one := Frames.size_set.trans alike.size_one
  size_two := Frames.size_set.trans alike.size_two
  within := alike.within
  outline := by rw [outline_set, outline_set, alike.outline]
  fresh other newer := by
    rw [Frames.set, Frames.set, Array.getElem?_modify, Array.getElem?_modify, alike.fresh newer]
  names other shared key := by
    rw [get?_set, get?_set, alike.names shared, alike.outline]
  closed other above seen link := by
    rw [links_set] at link
    exact alike.closed seen link
  kept_one := alike.kept_one.set writes
  kept_two := alike.kept_two.set writes

end Frames.Alike

/-- From now on two runs have the same orders for the frames that they leave. -/
def Orders.Alike (one two : Orders) : Prop :=
  ∀ later, two.places (two.left + later) = one.places (one.left + later)

namespace Orders.Alike

variable {one two : Orders}

theorem next (alike : one.Alike two) : two.next = one.next := alike 0

theorem rest (alike : one.Alike two) : one.rest.Alike two.rest := fun later => by
  have shift : ∀ orders : Orders, orders.rest.left + later = orders.left + (later + 1) :=
    fun orders => Nat.succ_add_eq_add_succ orders.left later
  rw [shift, shift]
  exact alike (later + 1)

end Orders.Alike

/-- What two runs have made so far agrees. -/
structure Store.Alike (terms : Terms) (size : Nat) (one two : Store) : Prop where
  frames : one.frames.Alike terms size two.frames
  depth : two.depth = one.depth
  returning : two.returning = one.returning
  world : two.world = one.world
  gone : two.gone = one.gone
  orders : one.orders.Alike two.orders

namespace Store.Alike

variable {terms : Terms} {size number parent : Nat} {one two : Store} {name : String} {value : Value}

variable (alike : one.Alike terms size two)

include alike

theorem current : two.current = one.current := alike.frames.newest

omit alike in
theorem current_eq (alike : one.Alike terms (size + 1) two) : one.current = size :=
  alike.frames.newest_eq

theorem reframed {frames frames' : Frames} {later : Nat}
    (same : frames.Alike terms later frames') :
    { one with frames := frames }.Alike terms later { two with frames := frames' } :=
  { alike with frames := same }

theorem drop (values : List Value) :
    (one.drop values).Alike terms size (two.drop values) :=
  { alike with gone := by rw [Store.drop, Store.drop, alike.gone] }

theorem push (around : terms.Seen parent) (scope : ScopeId) :
    (one.push parent scope).Alike terms (size + 1) (two.push parent scope) :=
  alike.reframed (alike.frames.child around)

omit alike in
theorem pop (alike : one.Alike terms (size + 1) two) (within : terms.old ≤ size) :
    one.pop.Alike terms size two.pop := by
  have values : two.frames.valuesIn two.current = one.frames.valuesIn one.current := by
    rw [alike.current]
    exact alike.frames.valuesIn (alike.current_eq ▸ within)
  rw [Store.pop, Store.pop, values, alike.orders.next]
  have popped : { one with frames := one.frames.pop, orders := one.orders.rest }.Alike terms size
      { two with frames := two.frames.pop, orders := two.orders.rest } :=
    ⟨alike.frames.pop within, alike.depth, alike.returning, alike.world, alike.gone,
      alike.orders.rest⟩
  exact popped.drop _

theorem bind (seen : terms.Seen number)
    (writes : terms.Writes number) :
    (one.bind number name value).Alike terms size (two.bind number name value) := by
  rw [Store.bind, Store.bind, alike.frames.get? seen]
  exact (alike.reframed (alike.frames.set writes)).drop _

omit alike in
theorem bindHere (alike : one.Alike terms (size + 1) two) (within : terms.old ≤ size) :
    (one.bindHere name value).Alike terms (size + 1) (two.bindHere name value) := by
  have newer : terms.old ≤ one.current := alike.current_eq ▸ within
  rw [Store.bindHere, Store.bindHere, alike.current]
  exact alike.bind (.inr newer) (.inr newer)

omit alike in
theorem bindParams (alike : one.Alike terms (size + 1) two) (within : terms.old ≤ size)
    (params : List Ident) (args : List Value) :
    (bindParams params args one).Alike terms (size + 1) (bindParams params args two) := by
  rw [ScopedScript.bindParams, ScopedScript.bindParams]
  induction params.zip args generalizing one two with
  | nil => exact alike
  | cons pair rest ih => exact ih (alike.bindHere within)

/-- An action on the world gives both runs the same. -/
theorem act {α : Type} (action : Action α) :
    ∃ outcome later later', one.act action = (outcome, later) ∧
      two.act action = (outcome, later') ∧ later.Alike terms size later' := by
  obtain ⟨frames, depth, returning, world, gone, orders⟩ := one
  obtain ⟨frames', depth', returning', world', gone', orders'⟩ := two
  obtain ⟨alike, rfl, rfl, rfl, rfl, same⟩ := alike
  simp only [Store.act]
  cases action world' with
  | ok | error => exact ⟨_, _, _, rfl, rfl, alike, rfl, rfl, rfl, rfl, same⟩

theorem scopeOf {code : Code} {node : NodeId} :
    code.scopeOf two node = code.scopeOf one node := by
  rw [Code.scopeOf, Code.scopeOf, alike.current, Frames.scope_of_outline alike.frames.outline]

theorem lookup {code : Code} {node : NodeId}
    (here : terms.Seen one.current) (name : String) :
    code.lookup two node name = code.lookup one node name := by
  have same : ∀ scope, (two.frames.frameFor two.current scope).bind (two.frames.get? · name) =
      (one.frames.frameFor one.current scope).bind (one.frames.get? · name) := by
    intro scope
    rw [alike.current, alike.frames.frameFor]
    cases found : one.frames.frameFor one.current scope with
    | none => rfl
    | some number =>
      exact alike.frames.get? (Frames.frameFor_closed alike.frames.closed here found) name
  rw [Code.lookup, Code.lookup]
  simp only [same]

end Store.Alike

end ScopedScript

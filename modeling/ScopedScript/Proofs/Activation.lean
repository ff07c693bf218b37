/-
**Activations.**

A call in progress, or the program itself, is an activation: the frames as it sees them, where its
own begin, and the layers of the place it has come to. Layers and frames go together, one by one,
from the innermost outward:

* `Promise`: which declarations have values in frames, and what values they may have;
* `Activation.Fits`: every layer has its frame, in which its names stand for allowed values;
* `Activation.Move`, `Activation.Calls`, `Transition`: all that a step of a run can do to activations;
* `Transition.sound`: whatever happens, layers and frames keep going together, and a caller finds its
  frames as it left them.
-/

import Mathlib.Data.List.Forall2
import Mathlib.Data.List.Nodup
import ScopedScript.Proofs.Layers

namespace ScopedScript

variable {final : DeclId → Prop} {event : Option Assignment} {layer : Layer} {next : Activation}
variable {rest : List Layer}

/-! ### Frames under their operations -/

namespace Frames

variable {frames : Frames} {number parent : Nat} {scope : ScopeId} {name : String} {value : Value}
variable {frame : Frame} {other : Frames}

theorem table_child_old (inside : number < frames.table.size) :
    (frames.child parent scope).table[number]? = frames.table[number]? := by
  rw [child, Array.getElem?_push, if_neg (Nat.ne_of_lt inside)]

theorem newest_child : (frames.child parent scope).newest = frames.table.size := by
  rw [newest, child, Array.size_push, Nat.add_sub_cancel]

theorem table_set_other {other : Nat} (different : number ≠ other) :
    (frames.set number name value).table[other]? = frames.table[other]? := by
  rw [set, Array.getElem?_modify, if_neg different]

theorem table_set_self (found : frames.table[number]? = some frame) :
    (frames.set number name value).table[number]? =
      some { frame with bindings := frame.bindings.set name value } := by
  rw [set, Array.getElem?_modify, if_pos rfl, found, Option.map_some]

theorem size_set : (frames.set number name value).table.size = frames.table.size := by
  rw [set, Array.size_modify]

theorem links_set : (frames.set number name value).links = frames.links := by
  funext other
  rw [links, links]
  by_cases same : number = other
  · subst same
    cases found : frames.table[number]? with
    | none => rw [set, Array.getElem?_modify, if_pos rfl, found, Option.map_none]
    | some frame => rw [table_set_self found, Option.map_some, Option.map_some]
  · rw [table_set_other same]

theorem table_pop (inside : number < frames.newest) :
    frames.pop.table[number]? = frames.table[number]? := by
  rw [pop, Array.getElem?_pop]
  exact if_pos inside

theorem size_pop : frames.pop.table.size = frames.newest := Array.size_pop ..

theorem links_congr (same : other.table[number]? = frames.table[number]?) :
    other.links number = frames.links number := by
  rw [links, links, same]

theorem get?_congr (same : other.table[number]? = frames.table[number]?) (name : String) :
    other.get? number name = frames.get? number name := by
  rw [get?, get?, same]

theorem lt_size_of_link {around : Option Nat} (link : frames.links number = some around) :
    number < frames.table.size := by
  obtain ⟨frame, found, -⟩ := Option.map_eq_some_iff.mp link
  obtain ⟨inside, -⟩ := Array.getElem?_eq_some_iff.mp found
  exact inside

section Pushed

variable {later : Frames} {frame : Frame} (table : later.table = frames.table.push frame)

include table

theorem pushed_old (inside : number < frames.table.size) :
    later.table[number]? = frames.table[number]? := by
  rw [table, Array.getElem?_push, if_neg (Nat.ne_of_lt inside)]

theorem pushed_new : later.table[frames.table.size]? = some frame := by
  rw [table, Array.getElem?_push, if_pos rfl]

theorem pushed_size : later.table.size = frames.table.size + 1 := by rw [table, Array.size_push]

theorem pushed_newest : later.newest = frames.table.size := by
  rw [newest, pushed_size table, Nat.add_sub_cancel]

theorem pushed_link (up : frame.parent = some parent) :
    later.links frames.table.size = some (some parent) := by
  rw [links, pushed_new table, Option.map_some, up]

theorem pushed_descend (descend : frames.links.Descend) (up : frame.parent = some parent)
    (inside : parent < frames.table.size) : later.links.Descend := by
  intro number around found
  have size := lt_size_of_link found
  rw [pushed_size table] at size
  rcases Nat.lt_or_ge number frames.table.size with before | after
  · rw [links_congr (pushed_old table before)] at found
    exact descend found
  · obtain rfl : number = frames.table.size := by omega
    rw [pushed_link table up] at found
    cases found
    exact inside

end Pushed

theorem set_newest {table : Array Frame} (shape : frames.table = table.push frame) :
    (frames.set frames.newest name value).table =
      table.push { frame with bindings := frame.bindings.set name value } := by
  have newest : frames.newest = table.size := by
    rw [newest, shape, Array.size_push, Nat.add_sub_cancel]
  refine Array.ext_getElem? fun other => ?_
  rw [set, newest, Array.getElem?_modify, shape, Array.getElem?_push, Array.getElem?_push]
  by_cases same : table.size = other
  · rw [if_pos same, if_pos same.symm, if_pos same.symm, Option.map_some]
  · rw [if_neg same, if_neg (Ne.symm same), if_neg (Ne.symm same)]

/-- A frame that was made and left again was never there. -/
theorem pop_child : (frames.child parent scope).pop = frames := by
  rw [pop, child, Array.pop_push]

end Frames

/-! ### Promises -/

/-- What is promised of declarations: which have values in frames, which are read by functions
further in, and what values they may have. -/
structure Promise where
  held : DeclId → Prop
  captured : DeclId → Prop
  allows : DeclId → Value → Prop

/-- A declaration that can still be read: by its own function it is the latest of its name, or a
function further in reads it. -/
def Layer.Readable (promise : Promise) (layer : Layer) (name : String) (id : DeclId) : Prop :=
  layer.own = true ∧ layer.names.lookup name = some id ∨ promise.captured id

/-- A frame holds the names of a layer. -/
structure Layer.Kept (promise : Promise) (layer : Layer) (frame : Frame) : Prop where
  scope : frame.scope = layer.scope
  bound : ∀ ⦃name id⦄, (name, id) ∈ layer.names → promise.held id →
    ∃ value, frame.bindings.get? name = some value ∧
      (layer.Readable promise name id → promise.allows id value)

namespace Layer

variable {promise : Promise} {layer next : Layer} {frame : Frame} {name : String} {value : Value}
variable {newer : DeclId}

/-- Putting a value under a name keeps all that is promised of the name. -/
def Admits (promise : Promise) (layer : Layer) (name : String) (value : Value) : Prop :=
  ∀ ⦃id⦄, (name, id) ∈ layer.names → promise.held id → layer.Readable promise name id →
    promise.allows id value

theorem admits_single {own : Bool} {scope : ScopeId} {id : DeclId}
    (allowed : promise.allows id value) :
    (⟨own, scope, [(name, id)]⟩ : Layer).Admits promise name value := by
  intro other named _ _
  obtain ⟨-, rfl⟩ := Prod.mk.inj (List.mem_singleton.mp named)
  exact allowed

/-- A newer name does not matter for the others. -/
theorem readable_named {other : String} {id : DeclId} (different : other ≠ name) :
    (layer.named name newer).Readable promise other id ↔ layer.Readable promise other id := by
  have apart : (other == name) = false := by simpa using different
  simp only [Readable, named, List.lookup_cons, apart]

namespace Kept

/-- A frame in which a name is bound holds a layer, if it held the other names of that layer. -/
theorem put (kept : layer.Kept promise frame) (scope : next.scope = layer.scope)
    (others : ∀ ⦃other id⦄, other ≠ name → (other, id) ∈ next.names →
      (other, id) ∈ layer.names ∧ (next.Readable promise other id → layer.Readable promise other id))
    (admits : next.Admits promise name value) :
    next.Kept promise { frame with bindings := frame.bindings.set name value } := by
  refine ⟨kept.scope.trans scope.symm, fun other id named held => ?_⟩
  by_cases same : other = name
  · subst same
    exact ⟨value, Bindings.get?_set_self _ _ _, admits named held⟩
  · obtain ⟨before, readable⟩ := others same named
    obtain ⟨old, found, allowed⟩ := kept.bound before held
    exact ⟨old, (Bindings.get?_set_other _ _ same).trans found, fun now => allowed (readable now)⟩

theorem set (kept : layer.Kept promise frame) (admits : layer.Admits promise name value) :
    layer.Kept promise { frame with bindings := frame.bindings.set name value } :=
  kept.put rfl (fun _ _ _ named => ⟨named, id⟩) admits

theorem declare (kept : layer.Kept promise frame)
    (admits : (layer.named name newer).Admits promise name value) :
    (layer.named name newer).Kept promise
      { frame with bindings := frame.bindings.set name value } := by
  refine kept.put rfl (fun other id different named => ⟨?_, (readable_named different).mp⟩) admits
  rcases List.mem_cons.mp named with same | before
  · exact absurd (Prod.mk.inj same).1 different
  · exact before

/-- A name without a value in frames asks nothing of a frame. -/
theorem define (kept : layer.Kept promise frame) (other : ¬ promise.held newer) :
    (layer.named name newer).Kept promise frame := by
  refine ⟨kept.scope, fun key id named held => ?_⟩
  rcases List.mem_cons.mp named with same | before
  · exact absurd ((Prod.mk.inj same).2 ▸ held) other
  · obtain ⟨value, found, allowed⟩ := kept.bound before held
    refine ⟨value, found, fun readable => allowed ?_⟩
    rcases readable with ⟨own, latest⟩ | captured
    · refine .inl ⟨own, ?_⟩
      change ((name, newer) :: layer.names).lookup key = some id at latest
      rw [List.lookup_cons] at latest
      split at latest
      · cases latest
        exact absurd held other
      · exact latest
    · exact .inr captured

theorem disowned {old new : Layer} (kept : new.Kept promise frame)
    (scope : new.scope = old.scope) (names : old.names <:+ new.names) :
    old.disowned.Kept promise frame := by
  refine ⟨kept.scope.trans scope, fun name id named held => ?_⟩
  obtain ⟨value, found, allowed⟩ := kept.bound (names.mem named) held
  refine ⟨value, found, fun readable => allowed ?_⟩
  rcases readable with ⟨own, -⟩ | captured
  · cases own
  · exact .inr captured

end Kept

end Layer

/-- A call in progress, or the program itself: from `base` on the frames are its own. -/
structure Activation where
  base : Nat
  frames : Frames
  layers : List Layer

/-- An assignment: the frame, the name, and the declaration that is assigned. -/
structure Assignment where
  number : Nat
  name : String
  decl : DeclId

namespace Activation

variable {promise : Promise} {act : Activation}
variable {others : Frames} {layers : List Layer}
variable {frames later : Frames} {base : Nat}

/-- A layer and the number of its frame. -/
def Lies (promise : Promise) (frames : Frames) (base number : Nat) (layer : Layer) : Prop :=
  (layer.own = true ↔ base ≤ number) ∧
    ∃ frame, frames.table[number]? = some frame ∧ layer.Kept promise frame

/-- Layers and frames go together. -/
structure Fits (promise : Promise) (act : Activation) : Prop where
  descend : act.frames.links.Descend
  based : act.base < act.frames.table.size
  stacked : ∀ ⦃number⦄, act.base < number → number < act.frames.table.size →
    act.frames.links number = some (some (number - 1))
  laid : ∃ numbers, Ascent act.frames.links act.frames.newest numbers ∧
    List.Forall₂ (Lies promise act.frames act.base) numbers act.layers

theorem Lies.scope {number : Nat} (lies : Lies promise frames base number layer) :
    frames.scope number = layer.scope := by
  obtain ⟨-, frame, found, kept⟩ := lies
  rw [← kept.scope, Frames.scope, Array.getD_eq_getD_getElem?, found, Option.getD_some]

/-- A layer lies where it did if its frame is as it was. -/
theorem Lies.congr {number : Nat} (lies : Lies promise frames base number layer)
    (same : others.table[number]? = frames.table[number]?) :
    Lies promise others base number layer := by
  obtain ⟨own, frame, found, kept⟩ := lies
  exact ⟨own, frame, same.trans found, kept⟩

theorem lies_congr {numbers : List Nat}
    (laid : List.Forall₂ (Lies promise frames base) numbers layers)
    (same : ∀ number ∈ numbers, others.table[number]? = frames.table[number]?) :
    List.Forall₂ (Lies promise others base) numbers layers :=
  ((List.forall₂_and_left numbers layers).mpr ⟨same, laid⟩).imp fun _ _ both => both.2.congr both.1

namespace Fits

variable (fits : act.Fits promise)

include fits

theorem newest_lt : act.frames.newest < act.frames.table.size := by
  have based := fits.based
  have newest : act.frames.newest = act.frames.table.size - 1 := rfl
  omega

theorem base_le : act.base ≤ act.frames.newest := by
  have based := fits.based
  have newest : act.frames.newest = act.frames.table.size - 1 := rfl
  omega

theorem lt_size {inside : Nat} {numbers : List Nat}
    (ascent : Ascent act.frames.links act.frames.newest numbers) (member : inside ∈ numbers) :
    inside < act.frames.table.size :=
  Nat.lt_of_le_of_lt (ascent.le fits.descend inside member) fits.newest_lt

theorem chain_scopes :
    ∃ numbers, Ascent act.frames.links act.frames.newest numbers ∧
      numbers.map act.frames.scope = act.layers.map Layer.scope := by
  obtain ⟨numbers, ascent, laid⟩ := fits.laid
  refine ⟨numbers, ascent, ?_⟩
  clear ascent
  generalize act.layers = layers at laid
  induction laid with
  | nil => rfl
  | cons lies _ ih => rw [List.map_cons, List.map_cons, lies.scope, ih]

/-- Every layer has a frame: the nearest one of its scope. -/
theorem frame (apart : (act.layers.map Layer.scope).Nodup) (member : layer ∈ act.layers) :
    ∃ number, act.frames.frameFor act.frames.newest layer.scope = some number ∧
      Lies promise act.frames act.base number layer := by
  obtain ⟨numbers, ascent, laid⟩ := fits.laid
  rw [Frames.frameFor_eq ascent fits.descend]
  clear ascent
  generalize act.layers = layers at laid member apart
  induction laid with
  | nil => cases member
  | @cons number here numbers rest lies _ ih =>
    rw [List.map_cons, List.nodup_cons] at apart
    rw [List.find?_cons, lies.scope]
    rcases List.mem_cons.mp member with rfl | member
    · exact ⟨number, by simp, lies⟩
    · have other : here.scope ≠ layer.scope := by
        intro same
        exact apart.1 (same ▸ List.mem_map_of_mem member)
      simp only [other, decide_false]
      exact ih member apart.2

theorem top (shape : act.layers = layer :: rest) :
    Lies promise act.frames act.base act.frames.newest layer := by
  obtain ⟨numbers, ascent, laid⟩ := fits.laid
  obtain ⟨others, rfl⟩ := ascent.cons_eq
  rw [shape] at laid
  cases laid with
  | cons lies _ => exact lies

end Fits

/-! ### What steps do -/

/-- What a step can do to the activation in progress, and the assignment it makes, if any. -/
inductive Move (promise : Promise) (final : DeclId → Prop) :
    Activation → Option Assignment → Activation → Prop
  | still (act : Activation) : Move promise final act none act
  /-- A block begins. -/
  | opened {base : Nat} {frames : Frames} {layers : List Layer} (scope : ScopeId) :
    Move promise final ⟨base, frames, layers⟩ none
      ⟨base, frames.child frames.newest scope, ⟨true, scope, []⟩ :: layers⟩
  /-- A loop begins, with its variable. -/
  | begun {base : Nat} {frames : Frames} {layers : List Layer} (scope : ScopeId) (name : String)
      (id : DeclId) (value : Value) (allowed : promise.allows id value) :
    Move promise final ⟨base, frames, layers⟩ none
      ⟨base, (frames.child frames.newest scope).set frames.table.size name value,
        ⟨true, scope, [(name, id)]⟩ :: layers⟩
  /-- A loop goes on, with the next value of its variable. -/
  | again {base : Nat} {frames : Frames} {rest : List Layer} {own : Bool} {scope : ScopeId}
      (name : String) (id : DeclId) (value : Value) (allowed : promise.allows id value)
      (free : ¬ final id) :
    Move promise final ⟨base, frames, ⟨own, scope, [(name, id)]⟩ :: rest⟩ none
      ⟨base, frames.set frames.newest name value, ⟨own, scope, [(name, id)]⟩ :: rest⟩
  /-- A block or a loop ends. -/
  | closed {base : Nat} {frames : Frames} {layer next : Layer} {rest : List Layer}
      (inner : next.own = true) :
    Move promise final ⟨base, frames, layer :: next :: rest⟩ none ⟨base, frames.pop, next :: rest⟩
  /-- A function is defined. -/
  | defined {base : Nat} {frames : Frames} {layer : Layer} {rest : List Layer} (name : String)
      (id : DeclId) (other : ¬ promise.held id) :
    Move promise final ⟨base, frames, layer :: rest⟩ none
      ⟨base, frames, layer.named name id :: rest⟩
  /-- A variable is declared by its assignment. -/
  | declared {base : Nat} {frames : Frames} {layer : Layer} {rest : List Layer} (name : String)
      (id : DeclId) (value : Value)
      (newer : ∀ entry ∈ layer.names, entry.2 < id)
      (admits : (layer.named name id).Admits promise name value) :
    Move promise final ⟨base, frames, layer :: rest⟩ (some ⟨frames.newest, name, id⟩)
      ⟨base, frames.set frames.newest name value,
        layer.named name id :: rest⟩
  /-- A variable of the same function is assigned again. -/
  | rebound {base : Nat} {frames : Frames} {layers : List Layer} {layer : Layer} {number : Nat}
      (name : String) (id : DeclId) (value : Value) (member : layer ∈ layers)
      (own : layer.own = true) (latest : layer.names.lookup name = some id) (free : ¬ final id)
      (place : frames.frameFor frames.newest layer.scope = some number)
      (admits : layer.Admits promise name value) :
    Move promise final ⟨base, frames, layers⟩ (some ⟨number, name, id⟩)
      ⟨base, frames.set number name value, layers⟩

/-! ### Moves keep layers and frames together -/

namespace Fits

variable {base : Nat} {frames : Frames} {layer next : Layer} {rest layers : List Layer}
  {name : String} {value : Value}

theorem push {frame : Frame} (fits : Fits promise ⟨base, frames, layers⟩)
    (table : later.table = frames.table.push frame) (parent : frame.parent = some frames.newest)
    (own : layer.own = true) (kept : layer.Kept promise frame) :
    Fits promise ⟨base, later, layer :: layers⟩ := by
  have size := Frames.pushed_size table
  have link := Frames.pushed_link table parent
  have based : base < frames.table.size := fits.based
  obtain ⟨numbers, ascent, laid⟩ := fits.laid
  refine ⟨?_, ?_, ?_, frames.table.size :: numbers, ?_, ?_⟩
  · exact Frames.pushed_descend table fits.descend parent fits.newest_lt
  · show base < later.table.size
    omega
  · intro number above inside
    change number < later.table.size at inside
    show later.links number = _
    rcases Nat.lt_or_ge number frames.table.size with before | after
    · rw [Frames.links_congr (Frames.pushed_old table before)]
      exact fits.stacked above before
    · obtain rfl : number = frames.table.size := by omega
      exact link
  · show Ascent later.links later.newest _
    rw [Frames.pushed_newest table]
    refine .next link (ascent.congr fun inside member => ?_)
    exact Frames.links_congr (Frames.pushed_old table (fits.lt_size ascent member))
  · refine .cons ⟨by simp [own]; omega, frame, Frames.pushed_new table, kept⟩ ?_
    exact lies_congr laid fun number member =>
      Frames.pushed_old table (fits.lt_size ascent member)

/-- The same frames with other bindings, for the same or other layers. -/
theorem relaid {layers' : List Layer} (fits : Fits promise ⟨base, frames, layers⟩)
    (links : later.links = frames.links) (size : later.table.size = frames.table.size)
    (relay : ∀ numbers, Ascent frames.links frames.newest numbers → List.Forall₂ (Lies promise
      frames base) numbers layers → List.Forall₂ (Lies promise later base) numbers layers') :
    Fits promise ⟨base, later, layers'⟩ := by
  have newest : later.newest = frames.newest := by rw [Frames.newest, size, Frames.newest]
  obtain ⟨numbers, ascent, laid⟩ := fits.laid
  refine ⟨?_, ?_, ?_, numbers, ?_, relay numbers ascent laid⟩
  · show later.links.Descend
    rw [links]
    exact fits.descend
  · show base < later.table.size
    rw [size]
    exact fits.based
  · intro number above inside
    change number < later.table.size at inside
    show later.links number = _
    rw [size] at inside
    rw [links]
    exact fits.stacked above inside
  · show Ascent later.links later.newest numbers
    rw [links, newest]
    exact ascent

/-- The innermost layer changes, and the newest frame with it. -/
theorem put (fits : Fits promise ⟨base, frames, layer :: rest⟩) (own : next.own = layer.own)
    (kept : ∀ frame, layer.Kept promise frame →
      next.Kept promise { frame with bindings := frame.bindings.set name value }) :
    Fits promise ⟨base, frames.set frames.newest name value, next :: rest⟩ := by
  refine fits.relaid Frames.links_set Frames.size_set fun numbers ascent laid => ?_
  have below := ascent.descending fits.descend
  obtain ⟨others, rfl⟩ := ascent.cons_eq
  rw [List.pairwise_cons] at below
  cases laid with
  | cons lies laid =>
    obtain ⟨mine, frame, found, before⟩ := lies
    refine .cons ⟨by rw [own]; exact mine, _, Frames.table_set_self found, kept frame before⟩ ?_
    exact lies_congr laid fun number member =>
      Frames.table_set_other (Nat.ne_of_gt (below.1 number member))

/-- The innermost layer gets a name that has no value in frames. -/
theorem define {id : DeclId} (fits : Fits promise ⟨base, frames, layer :: rest⟩)
    (other : ¬ promise.held id) : Fits promise ⟨base, frames, layer.named name id :: rest⟩ := by
  refine fits.relaid rfl rfl fun numbers _ laid => ?_
  cases laid with
  | cons lies laid =>
    obtain ⟨own, frame, found, kept⟩ := lies
    exact .cons ⟨own, frame, found, kept.define other⟩ laid

theorem rebind {number : Nat} (fits : Fits promise ⟨base, frames, layers⟩)
    (apart : (layers.map Layer.scope).Nodup) (member : layer ∈ layers)
    (place : frames.frameFor frames.newest layer.scope = some number)
    (admits : layer.Admits promise name value) :
    Fits promise ⟨base, frames.set number name value, layers⟩ := by
  obtain ⟨found, place', here⟩ := fits.frame apart member
  rw [place] at place'
  cases place'
  refine fits.relaid Frames.links_set Frames.size_set fun numbers ascent laid => ?_
  -- the layer that lies in the frame is the one that is meant, since scopes differ
  have each : List.Forall₂ (fun _ other => other ∈ layers) numbers layers := by
    exact List.forall₂_iff_zip.mpr ⟨laid.length_eq, fun paired => (List.of_mem_zip paired).2⟩
  refine each.mp (fun index other inside lies => ?_) laid
  by_cases same : number = index
  · subst same
    have scopes : other.scope = layer.scope := lies.scope.symm.trans here.scope
    obtain rfl := List.inj_on_of_nodup_map apart inside member scopes
    obtain ⟨own, frame, found, kept⟩ := lies
    exact ⟨own, _, Frames.table_set_self found, kept.set admits⟩
  · exact lies.congr (Frames.table_set_other same)

/-- The innermost layer and the newest frame go, if what remains is of the same function. -/
theorem pop (fits : Fits promise ⟨base, frames, layer :: next :: rest⟩) (inner : next.own = true) :
    Fits promise ⟨base, frames.pop, next :: rest⟩ := by
  obtain ⟨numbers, ascent, laid⟩ := fits.laid
  cases laid with
  | @cons newest _ _ _ lies laid =>
    cases laid with
    | @cons below _ others _ lies' laid =>
      cases ascent with
      | @next _ parent _ up further =>
        obtain ⟨_, same⟩ := further.cons_eq
        obtain ⟨rfl, -⟩ := List.cons.inj same
        -- both frames are of this function, so the one below is the one made before
        have mine : base ≤ below := lies'.1.mp inner
        have older : below < frames.newest := fits.descend up
        have inside : frames.newest < frames.table.size := fits.newest_lt
        have last : frames.newest = frames.table.size - 1 := rfl
        have size : frames.pop.table.size = frames.newest := Frames.size_pop
        have before : below = frames.newest - 1 := by
          have link := fits.stacked (Nat.lt_of_le_of_lt mine older) inside
          rw [show frames.links frames.newest = some (some below) from up] at link
          cases link
          rfl
        have newest : frames.pop.newest = below := by rw [Frames.newest, size, before]
        have old : ∀ ⦃number⦄, number < frames.newest →
            frames.pop.table[number]? = frames.table[number]? := fun _ => Frames.table_pop
        have le := further.le fits.descend
        refine ⟨?_, ?_, ?_, below :: others, ?_, .cons (lies'.congr (old older)) ?_⟩
        · intro number parent link
          change frames.pop.links number = some (some parent) at link
          have here := Frames.lt_size_of_link link
          rw [size] at here
          rw [Frames.links_congr (old here)] at link
          exact fits.descend link
        · show base < frames.pop.table.size
          omega
        · intro number above here
          change number < frames.pop.table.size at here
          rw [size] at here
          show frames.pop.links number = _
          rw [Frames.links_congr (old here)]
          exact fits.stacked above (by show number < frames.table.size; omega)
        · show Ascent frames.pop.links frames.pop.newest _
          rw [newest]
          exact further.congr fun number member =>
            Frames.links_congr (old (Nat.lt_of_le_of_lt (le number member) older))
        · exact lies_congr laid fun number member =>
            old (Nat.lt_of_le_of_lt (le number (List.mem_cons_of_mem _ member)) older)

end Fits

/-- **A move keeps layers and frames together.** -/
theorem Move.fits (move : Move promise final act event next) (fits : act.Fits promise)
    (apart : (act.layers.map Layer.scope).Nodup) : next.Fits promise := by
  cases move with
  | still => exact fits
  | opened scope => exact fits.push rfl rfl rfl ⟨rfl, nofun⟩
  | @begun base frames layers scope name id value allowed =>
    have opened : Fits promise
        ⟨base, frames.child frames.newest scope, ⟨true, scope, []⟩ :: layers⟩ :=
      fits.push rfl rfl rfl ⟨rfl, nofun⟩
    have filled : Fits promise ⟨base, (frames.child frames.newest scope).set
        (frames.child frames.newest scope).newest name value,
        ⟨true, scope, [(name, id)]⟩ :: layers⟩ :=
      opened.put rfl fun frame kept => kept.declare (Layer.admits_single allowed)
    rwa [Frames.newest_child] at filled
  | again name id value allowed free =>
    exact fits.put rfl fun frame kept => kept.set (Layer.admits_single allowed)
  | closed inner => exact fits.pop inner
  | defined name id other => exact fits.define other
  | declared name id value newer admits => exact fits.put rfl fun frame kept => kept.declare admits
  | rebound name id value member own latest free place admits =>
    exact fits.rebind apart member place admits

/-- A move leaves the frames of callers alone. -/
theorem Move.below (move : Move promise final act event next) (fits : act.Fits promise)
    (apart : (act.layers.map Layer.scope).Nodup) :
    next.base = act.base ∧
      ∀ number < act.base, next.frames.table[number]? = act.frames.table[number]? := by
  have based := fits.based
  have older := fits.base_le
  refine ⟨by cases move <;> rfl, fun number before => ?_⟩
  cases move with
  | still => rfl
  | opened scope => exact Frames.table_child_old (Nat.lt_trans before based)
  | begun scope name id value allowed =>
    have inside := Nat.lt_trans before based
    rw [Frames.table_set_other (Nat.ne_of_gt inside), Frames.table_child_old inside]
  | again | declared =>
    exact Frames.table_set_other (Nat.ne_of_gt (Nat.lt_of_lt_of_le before older))
  | closed inner => exact Frames.table_pop (Nat.lt_of_lt_of_le before older)
  | defined name id other => rfl
  | rebound name id value member own latest free place admits =>
    obtain ⟨found, place', lies⟩ := fits.frame apart member
    rw [place] at place'
    cases place'
    exact Frames.table_set_other (Nat.ne_of_gt (Nat.lt_of_lt_of_le before (lies.1.mp own)))

/-- A call: the parameters in a new frame, inside the frame of a layer of the caller. Of that layer
and those around it, the called function knows the names they had at its definition. -/
inductive Calls (promise : Promise) : Activation → Activation → Prop
  | mk {caller : Activation} {frames : Frames} {frame : Frame} {inner outer older : List Layer}
      {top layer : Layer} {parent : Nat} :
    caller.layers = inner ++ layer :: outer →
    caller.frames.frameFor caller.frames.newest layer.scope = some parent →
    List.Forall₂ (fun old new => new.scope = old.scope ∧ old.names <:+ new.names) older
      (layer :: outer) →
    frames.table = caller.frames.table.push frame → frame.parent = some parent →
    top.own = true → top.Kept promise frame →
      Calls promise caller
        ⟨caller.frames.table.size, frames, top :: older.map Layer.disowned⟩

theorem lies_disowned {base' : Nat} {numbers : List Nat} {older : List Layer}
    (laid : List.Forall₂ (Lies promise frames base) numbers layers)
    (matched : List.Forall₂ (fun old new => new.scope = old.scope ∧ old.names <:+ new.names) older
      layers)
    (same : ∀ number ∈ numbers, number < base' ∧ later.table[number]? = frames.table[number]?) :
    List.Forall₂ (Lies promise later base') numbers (older.map Layer.disowned) := by
  induction laid generalizing older with
  | nil =>
    cases matched
    exact .nil
  | @cons number layer numbers layers lies _ ih =>
    cases matched with
    | cons first matched =>
      obtain ⟨-, frame, found, kept⟩ := lies
      obtain ⟨before, kept'⟩ := same number List.mem_cons_self
      refine .cons ⟨⟨nofun, fun above => absurd above (by omega)⟩, frame, kept'.trans found, ?_⟩ ?_
      · exact kept.disowned first.1 first.2
      · exact ih matched fun other member => same other (List.mem_cons_of_mem _ member)

/-- **A call keeps layers and frames together.** -/
theorem Calls.fits {callee : Activation} (calls : Calls promise act callee) (fits : act.Fits promise)
    (apart : (act.layers.map Layer.scope).Nodup) : callee.Fits promise := by
  cases calls with
  | @mk frames frame inner outer older top layer parent around place matched table up own kept =>
    have member : layer ∈ act.layers := by
      rw [around]
      exact List.mem_append_right _ List.mem_cons_self
    obtain ⟨numbers, ascent, laid⟩ := fits.laid
    have scopes : (numbers.map act.frames.scope).Nodup := by
      obtain ⟨numbers', ascent', same⟩ := fits.chain_scopes
      rw [ascent.unique ascent', same]
      exact apart
    have inside : parent ∈ numbers := by
      rw [Frames.frameFor_eq ascent fits.descend] at place
      exact List.mem_of_find?_eq_some place
    -- the frame of the layer and those further out
    rw [around] at laid
    have rest := List.forall₂_drop_append _ _ _ laid
    have split := List.take_append_drop inner.length numbers
    generalize List.drop inner.length numbers = others at rest split
    cases rest with
    | @cons number _ others _ lies rest =>
      have here : number ∈ numbers := by
        rw [← split]
        exact List.mem_append_right _ List.mem_cons_self
      obtain rfl : parent = number := by
        have same : act.frames.scope parent = layer.scope := by
          rw [Frames.frameFor_eq ascent fits.descend] at place
          simpa using List.find?_some place
        exact List.inj_on_of_nodup_map scopes inside here (same.trans lies.scope.symm)
      have size := Frames.pushed_size table
      have known : ∀ other ∈ parent :: others, other < act.frames.table.size := by
        intro other member
        refine fits.lt_size ascent ?_
        rw [← split]
        exact List.mem_append_right _ member
      rw [← split] at ascent
      have outward := ascent.suffix
      refine ⟨?_, ?_, ?_, act.frames.table.size :: parent :: others, ?_, ?_⟩
      · exact Frames.pushed_descend table fits.descend up (known parent List.mem_cons_self)
      · show act.frames.table.size < frames.table.size
        omega
      · intro other above below
        change other < frames.table.size at below
        change act.frames.table.size < other at above
        omega
      · show Ascent frames.links frames.newest _
        rw [Frames.pushed_newest table]
        refine .next (Frames.pushed_link table up) (outward.congr fun other member => ?_)
        exact Frames.links_congr (Frames.pushed_old table (known other member))
      · refine .cons ⟨by simp [own], frame, Frames.pushed_new table, kept⟩ ?_
        exact lies_disowned (.cons lies rest) matched fun other member =>
          ⟨known other member, Frames.pushed_old table (known other member)⟩

end Activation

/-! ### Calls in progress -/

/-- An activation that leaves the frames of its caller alone. -/
structure Activation.Upon (act caller : Activation) : Prop where
  base : act.base = caller.frames.table.size
  below : ∀ number < act.base, act.frames.table[number]? = caller.frames.table[number]?

/-- The activation in progress and its callers: layers and frames of all of them go together. -/
inductive Sound (promise : Promise) : List Activation → Prop
  | last {act : Activation} : act.Fits promise → Sound promise [act]
  | call {act caller : Activation} {callers : List Activation} :
    act.Fits promise → act.Upon caller → Sound promise (caller :: callers) →
      Sound promise (act :: caller :: callers)

/-- What a step of a run can do to the activations. -/
inductive Transition (promise : Promise) (final : DeclId → Prop) :
    List Activation → Option Assignment → List Activation → Prop
  | move {act next : Activation} {event : Option Assignment} {callers : List Activation} :
    act.Move promise final event next → Transition promise final (act :: callers) event
      (next :: callers)
  | call {caller callee : Activation} {callers : List Activation} :
    caller.Calls promise callee →
      Transition promise final (caller :: callers) none (callee :: caller :: callers)
  /-- A call ends, and the caller is in progress again. -/
  | ended {act caller : Activation} {callers : List Activation} {layer next : Layer}
      {rest : List Layer} (shape : act.layers = layer :: next :: rest)
      (outer : next.own = false) :
    Transition promise final (act :: caller :: callers) none (caller :: callers)

namespace Sound

variable {promise : Promise} {act caller : Activation} {callers : List Activation}

theorem fits (sound : Sound promise (act :: callers)) : act.Fits promise := by
  cases sound with
  | last fits => exact fits
  | call fits => exact fits

theorem replace (sound : Sound promise (act :: callers)) (fits : next.Fits promise)
    (base : next.base = act.base)
    (below : ∀ number < act.base, next.frames.table[number]? = act.frames.table[number]?) :
    Sound promise (next :: callers) := by
  cases sound with
  | last => exact .last fits
  | call _ upon callers =>
    refine .call fits ⟨base.trans upon.base, fun number before => ?_⟩ callers
    rw [base] at before
    rw [below number before, upon.below number before]

/-- When only the parameters are left, the frames below are those of the caller. -/
theorem pop_eq {next : Layer} (sound : Sound promise (act :: caller :: callers))
    (shape : act.layers = layer :: next :: rest) (outer : next.own = false) :
    act.frames.pop = caller.frames := by
  cases sound with
  | call fits upon _ =>
    obtain ⟨numbers, ascent, laid⟩ := fits.laid
    rw [shape] at laid
    cases laid with
    | cons lies laid =>
      cases laid with
      | @cons below _ _ _ lies' _ =>
        cases ascent with
        | next up further =>
          obtain ⟨_, same⟩ := further.cons_eq
          obtain ⟨rfl, -⟩ := List.cons.inj same
          have theirs : ¬ act.base ≤ below := fun mine => by
            rw [lies'.1.mpr mine] at outer
            cases outer
          have least : ¬ act.base < act.frames.newest := by
            intro above
            have link := fits.stacked above fits.newest_lt
            rw [up] at link
            cases link
            omega
          have single : act.frames.newest = act.base := by
            have := fits.base_le
            omega
          have size : act.frames.pop.table.size = caller.frames.table.size := by
            rw [Frames.size_pop, single, upon.base]
          have table : act.frames.pop.table = caller.frames.table := by
            refine Array.ext_getElem? fun number => ?_
            rcases Nat.lt_or_ge number act.base with before | after
            · rw [Frames.table_pop (single ▸ before), upon.below number before]
            · have outside : caller.frames.table.size ≤ number := upon.base ▸ after
              rw [Array.getElem?_eq_none outside, Array.getElem?_eq_none (size ▸ outside)]
          exact congrArg Frames.mk table

end Sound

/-- **Every step keeps layers and frames together**, for all calls in progress. -/
theorem Transition.sound {promise : Promise} {act : Activation} {callers later : List Activation}
    (transition : Transition promise final (act :: callers) event later)
    (sound : Sound promise (act :: callers)) (apart : (act.layers.map Layer.scope).Nodup) :
    Sound promise later := by
  cases transition with
  | move move =>
    obtain ⟨base, below⟩ := move.below sound.fits apart
    exact sound.replace (move.fits sound.fits apart) base below
  | call calls =>
    refine .call (calls.fits sound.fits apart) ?_ sound
    cases calls with
    | mk _ _ _ table => exact ⟨rfl, fun number before => Frames.pushed_old table before⟩
  | ended =>
    cases sound with
    | call _ _ sound => exact sound

end ScopedScript

/-
**Frames.**

A frame holds the values of the names of one scope for one activation of it. Frames are numbered in
the order they were made, and each one but the first has a parent made before it:

* `Frames.child`: a new frame inside another;
* `Frames.frameFor`: the nearest frame of a scope, from a frame outward;
* `Frames.get?`, `Frames.set`: the names of one frame;
* `Orders`: in which order the frames that are left give up their values. No order is set for the
  names of a frame, so every frame has its own, and `exists_arrange` says that each one is possible.
-/

import ScopedScript.Bindings
import ScopedScript.Value

namespace ScopedScript

/-- One activation of a scope. -/
structure Frame where
  scope : ScopeId
  parent : Option Nat
  bindings : Bindings Value

instance : Inhabited Frame := ⟨⟨0, none, .empty⟩⟩

structure Frames where
  table : Array Frame

namespace Frames

def root (scope : ScopeId) : Frames := ⟨#[⟨scope, none, .empty⟩]⟩

def newest (frames : Frames) : Nat := frames.table.size - 1

def child (frames : Frames) (parent : Nat) (scope : ScopeId) : Frames :=
  ⟨frames.table.push ⟨scope, some parent, .empty⟩⟩

def pop (frames : Frames) : Frames := ⟨frames.table.pop⟩

def scope (frames : Frames) (number : Nat) : ScopeId := (frames.table.getD number default).scope

/-- The frames from a frame outward, at most `bound` of them. -/
def climb (frames : Frames) : Nat → Nat → List Nat
  | 0, _ => []
  | bound + 1, number =>
    match frames.table[number]? with
    | none => []
    | some frame =>
      match frame.parent with
      | none => [number]
      | some parent => number :: climb frames bound parent

/-- The frames from a frame outward. Parents are older, so a frame's number bounds their count. -/
def chain (frames : Frames) (number : Nat) : List Nat := frames.climb (number + 1) number

/-- Walks outward to a frame of a scope. -/
def search (frames : Frames) (scope : ScopeId) : Nat → Nat → Option Nat
  | 0, _ => none
  | bound + 1, number =>
    match frames.table[number]? with
    | none => none
    | some frame =>
      if frame.scope = scope then some number
      else
        match frame.parent with
        | none => none
        | some parent => search frames scope bound parent

/-- The nearest frame of a scope, from a frame outward. -/
def frameFor (frames : Frames) (number : Nat) (scope : ScopeId) : Option Nat :=
  frames.search scope (number + 1) number

def get? (frames : Frames) (number : Nat) (name : String) : Option Value :=
  (frames.table[number]?).bind fun frame => frame.bindings.get? name

def set (frames : Frames) (number : Nat) (name : String) (value : Value) : Frames :=
  ⟨frames.table.modify number fun frame =>
    { frame with bindings := frame.bindings.set name value }⟩

def valuesIn (frames : Frames) (number : Nat) : List Value :=
  match frames.table[number]? with
  | some frame => frame.bindings.values
  | none => []

/-- All values bound in frames, from the oldest frame on. -/
def values (frames : Frames) : List Value :=
  frames.table.toList.flatMap fun frame => frame.bindings.values

/-- Whether some value bound in a frame passes a test. -/
def any (frames : Frames) (test : Value → Bool) : Bool :=
  frames.table.any fun frame => frame.bindings.entries.any fun entry => test entry.2

/-- The nearest frame of a scope is the first of that scope on the chain. -/
theorem search_eq_find? (frames : Frames) (scope : ScopeId) (bound number : Nat) :
    frames.search scope bound number =
      (frames.climb bound number).find? fun index => frames.scope index = scope := by
  induction bound generalizing number with
  | zero => rfl
  | succ bound ih =>
    simp only [search, climb]
    cases found : frames.table[number]? with
    | none => rfl
    | some frame =>
      have here : frames.scope number = frame.scope := by
        simp [Frames.scope, Array.getD_eq_getD_getElem?, found]
      cases up : frame.parent with
      | none =>
        by_cases same : frame.scope = scope <;> simp [same, here, up]
      | some parent =>
        by_cases same : frame.scope = scope <;> simp [same, here, up, ih]

end Frames

/-! ### Orders -/

/-- A list in another order: each item stands behind so many of the later ones as `places` says. -/
def arrange {α : Type} : List Nat → List α → List α
  | _, [] => []
  | places, item :: rest =>
    let others := arrange places.tail rest
    others.take (places.headD 0) ++ item :: others.drop (places.headD 0)

theorem arrange_perm {α : Type} (places : List Nat) (items : List α) :
    (arrange places items).Perm items := by
  induction items generalizing places with
  | nil => exact .nil
  | cons item rest ih =>
    refine List.perm_middle.trans (.cons item ?_)
    rw [List.take_append_drop]
    exact ih places.tail

/-- Every order of a list is given by some places. -/
theorem exists_arrange {α : Type} {items other : List α} (perm : other.Perm items) :
    ∃ places, arrange places items = other := by
  induction items generalizing other with
  | nil => exact ⟨[], perm.eq_nil.symm⟩
  | cons item rest ih =>
    obtain ⟨front, back, rfl⟩ := List.append_of_mem (perm.symm.mem_iff.mp List.mem_cons_self)
    obtain ⟨places, arranged⟩ := ih (List.perm_middle.symm.trans perm).cons_inv
    exact ⟨front.length :: places, by simp [arrange, arranged]⟩

theorem arrange_map {α β : Type} (f : α → β) (places : List Nat) (items : List α) :
    arrange places (items.map f) = (arrange places items).map f := by
  induction items generalizing places with
  | nil => rfl
  | cons item rest ih => simp [arrange, ih, List.map_take, List.map_drop]

/-- The orders in which frames give up their values, for one frame left after another. -/
structure Orders where
  places : Nat → List Nat
  /-- How many frames were left so far. -/
  left : Nat

namespace Orders

def next (orders : Orders) : List Nat := orders.places orders.left

def rest (orders : Orders) : Orders := { orders with left := orders.left + 1 }

end Orders

end ScopedScript

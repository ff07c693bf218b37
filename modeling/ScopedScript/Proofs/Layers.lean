/-
**Layers.**

The layers of a place in a program are the scopes around it with the names they have by then. Those
up to the parameters of the enclosing function are its own, and only those can be assigned:

* `Resolver.layers`: the layers, innermost first, and the effect of the steps on them;
* `Resolver.lookup_layers`, `Resolver.assignable_layers`: what lookups find among the layers;
* `Resolver.layers_older`: a scope that is still around keeps its names behind newer ones.
-/

import ScopedScript.Proofs.Stack

namespace ScopedScript

open Resolver

variable {policy : Redeclaration}
variable {name : String} {id : DeclId} {stack : List (ScopeId × Scope)}

/-- A scope as seen from inside: whether it belongs to the function around, and its names, latest
first. -/
structure Layer where
  own : Bool
  scope : ScopeId
  names : List (String × DeclId)

theorem Layer.mem_of_lookup {layer : Layer} (latest : layer.names.lookup name = some id) :
    (name, id) ∈ layer.names := by
  obtain ⟨newer, older, split, -⟩ := List.lookup_eq_some_iff.mp latest
  rw [split]
  exact List.mem_append_right _ List.mem_cons_self

/-- A layer with one more name. -/
def Layer.named (layer : Layer) (name : String) (id : DeclId) : Layer :=
  { layer with names := (name, id) :: layer.names }

/-- The layer of a function further out. -/
def Layer.disowned (layer : Layer) : Layer := { layer with own := false }

/-- Scopes as layers, the first `own` or not; what is outside a function scope is not. -/
def layersOf : Bool → List (ScopeId × Scope) → List Layer
  | _, [] => []
  | own, (scope, entry) :: rest =>
    ⟨own, scope, entry.names⟩ :: layersOf (own && entry.kind != .function) rest

theorem layersOf_scopes (own : Bool) (stack : List (ScopeId × Scope)) :
    (layersOf own stack).map Layer.scope = stack.map Prod.fst := by
  induction stack generalizing own with
  | nil => rfl
  | cons first rest ih => rw [layersOf, List.map_cons, List.map_cons, ih]

theorem layersOf_false (own : Bool) (stack : List (ScopeId × Scope)) :
    layersOf false stack = (layersOf own stack).map Layer.disowned := by
  induction stack generalizing own with
  | nil => rfl
  | cons first rest ih =>
    rw [layersOf, layersOf, List.map_cons, Bool.false_and, ih]
    rfl

theorem layersOf_split {own : Bool} {inner outer : List Layer} {layer : Layer}
    (split : layersOf own stack = inner ++ layer :: outer) :
    ∃ before entry after, stack = before ++ (layer.scope, entry) :: after ∧
      layer.names = entry.names ∧ ∃ own', outer = layersOf own' after := by
  induction stack generalizing own inner with
  | nil => cases inner <;> cases split
  | cons first rest ih =>
    obtain ⟨scope, entry⟩ := first
    cases inner with
    | nil =>
      obtain ⟨rfl, rfl⟩ := List.cons.inj split
      exact ⟨[], entry, rest, rfl, rfl, _, rfl⟩
    | cons head inner =>
      obtain ⟨-, split⟩ := List.cons.inj split
      obtain ⟨before, entry', after, rfl, facts⟩ := ih split
      exact ⟨_ :: before, entry', after, rfl, facts⟩

namespace Resolver

variable {resolver : Resolver}
variable {scope : ScopeId}

/-- The current scope and what is around it. -/
def layers (resolver : Resolver) : List Layer := layersOf true resolver.stack

theorem Quiet.layers {steps : List ScopeStep} (quiet : Quiet policy steps)
    (formed : resolver.Formed) : (resolver.follow policy steps).layers = resolver.layers := by
  rw [Resolver.layers, quiet resolver formed, Resolver.layers]

section

variable (formed : resolver.Formed)

include formed

theorem Formed.layers_cons :
    ∃ names rest, resolver.layers = ⟨true, resolver.current, names⟩ :: rest := by
  obtain ⟨entry, rest, shape⟩ := formed.stack_cons
  exact ⟨entry.names, _, by rw [layers, shape, layersOf]⟩

theorem Formed.layers_ascent :
    Ascent resolver.tree.links resolver.current (resolver.layers.map Layer.scope) := by
  rw [layers, layersOf_scopes]
  exact ScopeTree.stack_ascent formed.tree formed.current

theorem layers_declare (name : Ident) (kind : DeclKind) {layer : Layer}
    {rest : List Layer} (shape : resolver.layers = layer :: rest) :
    (resolver.declare name kind).layers =
      layer.named name.name resolver.tree.decls.size :: rest := by
  obtain ⟨entry, others, stacked⟩ := formed.stack_cons
  rw [layers, stacked, layersOf] at shape
  obtain ⟨rfl, rfl⟩ := List.cons.inj shape
  rw [layers, stack_declare formed stacked, layersOf]
  rfl

theorem layers_enter (kind : ScopeKind) (owner : NodeId) :
    (resolver.enter kind owner).layers = ⟨true, resolver.tree.scopes.size, []⟩ ::
      if kind = .function then resolver.layers.map Layer.disowned else resolver.layers := by
  rw [layers, stack_enter formed, layersOf, layers]
  by_cases function : kind = .function
  · subst function
    rw [if_pos rfl, ← layersOf_false]
    rfl
  · have other : (true && kind != .function) = true := by simpa using function
    rw [if_neg function, other]

end

theorem entry_of_layer {layer : Layer} (member : layer ∈ resolver.layers) :
    ∃ entry, resolver.tree.scopes[layer.scope]? = some entry ∧ layer.names = entry.names := by
  obtain ⟨inner, outer, split⟩ := List.append_of_mem member
  obtain ⟨before, entry, after, stacked, same, -⟩ := layersOf_split split
  have here : (layer.scope, entry) ∈ resolver.tree.stack resolver.current := by
    rw [show resolver.tree.stack resolver.current = _ from stacked]
    exact List.mem_append_right _ List.mem_cons_self
  exact ⟨entry, ScopeTree.mem_stack here, same⟩

/-- Every name of a layer is declared in its scope. -/
theorem Formed.listed (formed : resolver.Formed) {layer : Layer} (member : layer ∈ resolver.layers)
    (named : (name, id) ∈ layer.names) :
    ∃ decl, resolver.tree.decls[id]? = some decl ∧ decl.name = name ∧ decl.scope = layer.scope := by
  obtain ⟨entry, found, same⟩ := entry_of_layer member
  rw [same] at named
  exact formed.tree.listed found named

/-- Later names of a layer have greater numbers. -/
theorem Formed.latest (formed : resolver.Formed) {layer : Layer} (member : layer ∈ resolver.layers) :
    layer.names.Pairwise fun later earlier => earlier.2 < later.2 := by
  obtain ⟨entry, found, same⟩ := entry_of_layer member
  rw [same]
  exact formed.tree.latest found

/-- Where later names come first, what a name finds is the latest of that name. -/
theorem le_of_lookup {names : List (String × DeclId)} {other : DeclId}
    (ordered : names.Pairwise fun later earlier => earlier.2 < later.2)
    (latest : names.lookup name = some id) (named : (name, other) ∈ names) : other ≤ id := by
  obtain ⟨newer, older, split, different⟩ := List.lookup_eq_some_iff.mp latest
  rw [split] at named ordered
  rcases List.mem_append.mp named with before | after
  · exact absurd (different _ before) (by simp)
  · rcases List.mem_cons.mp after with same | further
    · exact Nat.le_of_eq (Prod.mk.inj same).2
    · have later := (List.pairwise_append.mp ordered).2.1
      exact Nat.le_of_lt ((List.pairwise_cons.mp later).1 _ further)

/-! ### Lookups -/

theorem getIn?_eq {tree : ScopeTree} {entry : Scope} (found : tree.scopes[scope]? = some entry)
    (name : String) : tree.getIn? scope name = entry.names.lookup name := by
  rw [ScopeTree.getIn?, found]
  rfl

/-- The names of the current scope after a declaration. -/
theorem getIn?_declare {name : Ident} {kind : DeclKind}
    (inside : resolver.current < resolver.tree.scopes.size) (other : String) :
    (resolver.declare name kind).tree.getIn? resolver.current other =
      if other = name.name then some resolver.tree.decls.size
      else resolver.tree.getIn? resolver.current other := by
  obtain ⟨entry, found⟩ : ∃ entry, resolver.tree.scopes[resolver.current]? = some entry :=
    ⟨_, Array.getElem?_eq_getElem inside⟩
  have after : (resolver.declare name kind).tree.scopes[resolver.current]? =
      some (ScopeTree.declared entry name.name resolver.tree.decls.size) := by
    show (resolver.tree.declare _ _ _ _).2.scopes[resolver.current]? = _
    rw [ScopeTree.scopes_declare, if_pos rfl, found, Option.map_some]
  rw [getIn?_eq after, getIn?_eq found]
  by_cases same : other = name.name
  · simp [ScopeTree.declared, same]
  · simp [ScopeTree.declared, List.lookup_cons, same, beq_false_of_ne same]

theorem Formed.ancestors_eq (formed : resolver.Formed) :
    resolver.tree.ancestors resolver.current = resolver.stack.map Prod.fst :=
  ScopeTree.ancestors_eq (ScopeTree.stack_ascent formed.tree formed.current) formed.tree.descend

/-- What is found first among scopes stands in the first layer that has the name. -/
theorem find?_layersOf {tree : ScopeTree} (own : Bool)
    (stored : ∀ place ∈ stack, tree.scopes[place.1]? = some place.2)
    (found : tree.find? name (stack.map Prod.fst) = some (scope, id)) :
    ∃ inner layer outer, layersOf own stack = inner ++ layer :: outer ∧ layer.scope = scope ∧
      layer.names.lookup name = some id ∧ ∀ nearer ∈ inner, nearer.names.lookup name = none := by
  induction stack generalizing own with
  | nil => cases found
  | cons first rest ih =>
    obtain ⟨here, entry⟩ := first
    rw [List.map_cons, ScopeTree.find?,
      getIn?_eq (stored (here, entry) List.mem_cons_self)] at found
    split at found
    · rename_i last latest
      cases found
      exact ⟨[], _, _, rfl, rfl, latest, List.forall_mem_nil _⟩
    · rename_i absent
      obtain ⟨inner, layer, outer, split, facts, latest, nearer⟩ :=
        ih (own && entry.kind != .function)
          (fun place member => stored place (List.mem_cons_of_mem _ member)) found
      refine ⟨_ :: inner, layer, outer, by rw [layersOf, split]; rfl, facts, latest, ?_⟩
      intro layer' member
      rcases List.mem_cons.mp member with rfl | member
      · exact absent
      · exact nearer layer' member

theorem lookup_layers (formed : resolver.Formed)
    (found : resolver.tree.lookup resolver.current name = some (scope, id)) :
    ∃ inner layer outer, resolver.layers = inner ++ layer :: outer ∧ layer.scope = scope ∧
      layer.names.lookup name = some id ∧ ∀ nearer ∈ inner, nearer.names.lookup name = none := by
  rw [ScopeTree.lookup_eq_find?, formed.ancestors_eq] at found
  exact find?_layersOf true (fun place member => ScopeTree.mem_stack member) found

/-- An assignment reaches own layers only. -/
theorem assignable_layers (formed : resolver.Formed)
    (found : resolver.tree.lookupAssignable resolver.current name = some (scope, id)) :
    ∃ inner layer outer, resolver.layers = inner ++ layer :: outer ∧ layer.own = true ∧
      layer.scope = scope ∧ layer.names.lookup name = some id := by
  rw [ScopeTree.lookupAssignable_eq_find?, formed.ancestors_eq] at found
  have stored : ∀ place ∈ resolver.stack, resolver.tree.scopes[place.1]? = some place.2 :=
    fun place member => ScopeTree.mem_stack member
  rw [layers]
  generalize resolver.stack = stack at found stored
  induction stack with
  | nil => cases found
  | cons first rest ih =>
    obtain ⟨here, entry⟩ := first
    have place := stored (here, entry) List.mem_cons_self
    have kind : resolver.tree.kind? here = some entry.kind := by
      rw [ScopeTree.kind?, place]
      rfl
    rw [List.map_cons, ScopeTree.untilFunction, kind] at found
    by_cases function : some entry.kind = some .function
    · rw [if_pos function, ScopeTree.find?, getIn?_eq place] at found
      split at found
      · cases found
        exact ⟨[], _, _, rfl, rfl, rfl, ‹_›⟩
      · cases found
    · rw [if_neg function, ScopeTree.find?, getIn?_eq place] at found
      split at found
      · cases found
        exact ⟨[], _, _, rfl, rfl, rfl, ‹_›⟩
      · obtain ⟨inner, layer, outer, split, facts⟩ :=
          ih found fun place member => stored place (List.mem_cons_of_mem _ member)
        have other : (true && entry.kind != .function) = true := by simpa using function
        exact ⟨_ :: inner, layer, outer, by rw [layersOf, other, split]; rfl, facts⟩

theorem layersOf_older (own own' : Bool) {later : List (ScopeId × Scope)}
    (older : List.Forall₂ (fun old new => new.1 = old.1 ∧ old.2.Older new.2) stack later) :
    List.Forall₂ (fun old new => new.scope = old.scope ∧ old.names <:+ new.names)
      (layersOf own stack) (layersOf own' later) := by
  induction older generalizing own own' with
  | nil => exact .nil
  | cons first _ ih => exact .cons ⟨first.1, first.2.names⟩ (ih _ _)

/-- Where an earlier scope is still around, its layers are still there, with newer names before the
names they had. -/
theorem layers_older {steps : List ScopeStep} {inner outer : List Layer} {layer : Layer}
    (formed : resolver.Formed)
    (split : (resolver.follow policy steps).layers = inner ++ layer :: outer)
    (same : layer.scope = resolver.current) :
    List.Forall₂ (fun old new => new.scope = old.scope ∧ old.names <:+ new.names)
      resolver.layers (layer :: outer) := by
  have later : (resolver.follow policy steps).Formed := formed.follow steps
  have grows : resolver.tree.Grows (resolver.follow policy steps).tree := grows_follow steps
  obtain ⟨before, entry, after, stacked, names, own, rfl⟩ := layersOf_split split
  have older := grows.stack formed.tree later.tree formed.current
  rw [← same, ScopeTree.stack_suffix later.tree later.current stacked] at older
  rw [layers, stack, ← same]
  generalize resolver.tree.stack layer.scope = stack at older
  cases older with
  | cons first rest =>
    refine .cons ⟨first.1, ?_⟩ (layersOf_older _ _ rest)
    rw [names]
    exact first.2.names

end Resolver

end ScopedScript

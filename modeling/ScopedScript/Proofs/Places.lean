/-
**The layers of places.**

What the layers of a place in a program are, seen from the layers of a place nearby:

* `Program.before_quiet`: expressions and blocks make no difference;
* `Program.inside_layers`: a scope that opens is a layer on top;
* `Program.Accepted.opening_layers`: with the variable of a loop or a comprehension;
* `Program.Accepted.function_layers`: with the parameters of a function, whose body sees the layers
  around its definition as those of others.
-/

import ScopedScript.Proofs.Functions

namespace ScopedScript

namespace Program

variable {program : Program} {policy : Redeclaration} {steps : List ScopeStep}

theorem before_quiet {more : List ScopeStep} (quiet : Resolver.Quiet policy more) :
    (program.before policy (steps ++ more)).layers = (program.before policy steps).layers := by
  rw [before_append]
  exact quiet.layers (program.formed_before policy steps)

/-- No scope occurs twice among the layers. -/
theorem layers_apart (program : Program) (policy : Redeclaration) (steps : List ScopeStep) :
    ((program.before policy steps).layers.map Layer.scope).Nodup := by
  have formed := program.formed_before policy steps
  exact formed.layers_ascent.nodup formed.tree.descend

theorem layers_cons (program : Program) (policy : Redeclaration) (steps : List ScopeStep) :
    ∃ layer rest, (program.before policy steps).layers = layer :: rest ∧ layer.own = true := by
  obtain ⟨names, rest, shape⟩ := (program.formed_before policy steps).layers_cons
  exact ⟨_, rest, shape, rfl⟩

/-- A scope that opens is a layer on top, whatever is declared in it. -/
theorem inside_layers {kind : ScopeKind} {inner : List ScopeStep} (owner : NodeId)
    (other : kind ≠ .function) (isLocal : Resolver.Local policy inner) :
    ∃ names, (program.before policy (steps ++ .enter kind owner :: inner)).layers =
      ⟨true, (program.before policy steps).tree.scopes.size, names⟩ ::
        (program.before policy steps).layers := by
  have formed := program.formed_before policy steps
  obtain ⟨entry, older, stacked⟩ :=
    isLocal _ formed.enter _ _ _ (Resolver.stack_enter formed kind owner)
  refine ⟨entry.names, ?_⟩
  rw [before_append, Resolver.follow_cons]
  show layersOf true (((program.before policy steps).enter kind owner).follow policy inner).stack = _
  have plain : (true && entry.kind != .function) = true := by
    rw [older.kind]
    simpa using other
  rw [stacked, layersOf, plain]
  rfl

namespace Accepted

variable (accepted : program.Accepted policy)

include accepted

/-- The layer of a loop or a comprehension has its variable. -/
theorem opening_layers {kind : ScopeKind} {owner : NodeId} {binder : Ident} {declared : DeclKind}
    (other : kind ≠ .function)
    (within : steps ++ [.enter kind owner, .declare binder declared] <+: program.scopeSteps) :
    ∃ id decl, (program.before policy
        (steps ++ [.enter kind owner, .declare binder declared])).layers =
        ⟨true, (program.before policy steps).tree.scopes.size, [(binder.name, id)]⟩ ::
          (program.before policy steps).layers ∧
      (program.resolve policy).tree.decls[id]? = some decl ∧ declared.Older decl.kind ∧
      (program.resolve policy).tree.scopeOf? owner =
        some (program.before policy steps).tree.scopes.size := by
  have formed := program.formed_before policy steps
  have split : steps ++ [.enter kind owner, .declare binder declared] =
      (steps ++ [.enter kind owner]) ++ [.declare binder declared] := by simp
  rw [split] at within ⊢
  obtain ⟨decl, stored, -, older, -⟩ := Accepted.declared within rfl
  refine ⟨_, decl, ?_, stored, older, accepted.opened ((List.prefix_append _ _).trans within)⟩
  have entered : (program.before policy (steps ++ [.enter kind owner])).layers =
      ⟨true, (program.before policy steps).tree.scopes.size, []⟩ ::
        (program.before policy steps).layers := by
    rw [before_concat]
    exact (Resolver.layers_enter formed kind owner).trans (by rw [if_neg other])
  rw [before_concat]
  exact Resolver.layers_declare (program.formed_before policy _) binder declared entered

/-- The layer of a function has its parameters, and what is around its definition is not its own. -/
theorem function_layers {tag : Tag} {name : Ident} {params : List Ident}
    (within : steps ++ functionOpening tag name params <+: program.scopeSteps) :
    ∃ scope names, (program.before policy (steps ++ functionOpening tag name params)).layers =
        ⟨true, scope, names⟩ ::
          (program.before policy
            (steps ++ [.define name tag.id params.length])).layers.map Layer.disowned ∧
      (program.resolve policy).tree.scopeOf? tag.id = some scope ∧
      (program.resolve policy).tree.parent? scope = some (program.before policy steps).current ∧
      ∀ entry ∈ names, entry.1 ∈ params.map Ident.name ∧
        ∃ decl index, (program.resolve policy).tree.decls[entry.2]? = some decl ∧
          decl.kind = .parameter index := by
  have split : steps ++ functionOpening tag name params =
      (steps ++ [.define name tag.id params.length]) ++ [.enter .function tag.id] ++
        paramSteps params := by
    simp [functionOpening]
  rw [split] at within ⊢
  have entered := (List.prefix_append _ _).trans within
  have defined := (List.prefix_append _ _).trans entered
  have formed := program.formed_before policy (steps ++ [.define name tag.id params.length])
  have shape : (program.before policy ((steps ++ [.define name tag.id params.length]) ++
      [.enter .function tag.id])).layers =
      ⟨true, (program.before policy
        (steps ++ [.define name tag.id params.length])).tree.scopes.size, []⟩ ::
        (program.before policy
          (steps ++ [.define name tag.id params.length])).layers.map Layer.disowned := by
    rw [before_concat]
    exact (Resolver.layers_enter formed .function tag.id).trans (by rw [if_pos rfl])
  obtain ⟨names, layers, known⟩ := accepted.params_layers within shape
  refine ⟨_, names, layers, accepted.opened entered, ?_, known⟩
  rw [parent_opened entered, before_concat, accepted.define defined]
  rfl

end Accepted

end Program

end ScopedScript

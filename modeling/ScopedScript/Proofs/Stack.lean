/-
**The stack of scopes.**

While names are resolved, the current scope and what is around it make up a stack:

* `Resolver.follow`: steps taken one after another; `Resolver.take_induction` is what a step can do;
* `Resolver.stack_enter`, `Resolver.stack_leave`, `Resolver.stack_declare`: the effect of the steps
  that have one on the stack;
* `Expr.quiet`, `Block.quiet`, `Stmt.isLocal`: behind an expression and behind a block the stack is
  as before, behind a statement as well, but for new names in the current scope.
-/

import Mathlib.Data.List.Induction
import ScopedScript.Proofs.Growth
import ScopedScript.Scope.Resolve

namespace ScopedScript

/-- A problem with a declaration or an assignment, which is found at once. -/
def Problem.isImmediate : Problem → Bool
  | .finalAssigned _ | .builtinAssigned _ | .functionRepeated _ | .functionIsBuiltin _
  | .parameterRepeated _ => true
  | _ => false

/-- A step declares a name, if it can. -/
inductive ScopeStep.Declares : ScopeStep → Ident → DeclKind → Prop
  | declare (name : Ident) (kind : DeclKind) : Declares (.declare name kind) name kind
  | parameter (name : Ident) (index : Nat) : Declares (.parameter name index) name (.parameter index)
  | define (name : Ident) (node : NodeId) (arity : Nat) :
    Declares (.define name node arity) name (.function node arity)
  | assign (name : Ident) (node : NodeId) (final : Bool) :
    Declares (.assign name node final) name (.assigned final node false)

namespace Resolver

variable {policy : Redeclaration} {resolver : Resolver}
variable {step : ScopeStep} {first second : List ScopeStep}
variable {steps : List ScopeStep}

/-! ### Steps one after another -/

/-- Takes steps one after another. -/
def follow (policy : Redeclaration) (resolver : Resolver) (steps : List ScopeStep) : Resolver :=
  steps.foldl (take policy) resolver

@[simp] theorem follow_nil : resolver.follow policy [] = resolver := rfl

@[simp] theorem follow_cons (step : ScopeStep) (steps : List ScopeStep) :
    resolver.follow policy (step :: steps) = (resolver.take policy step).follow policy steps := rfl

@[simp] theorem follow_append (first second : List ScopeStep) :
    resolver.follow policy (first ++ second) =
      (resolver.follow policy first).follow policy second :=
  List.foldl_append

/-- The tree is well formed and has the current scope. -/
structure Formed (resolver : Resolver) : Prop where
  tree : resolver.tree.Formed
  current : resolver.current < resolver.tree.scopes.size

namespace Formed

variable {name : Ident} {kind : DeclKind}

variable (formed : resolver.Formed)

include formed

theorem complain (problem : Problem) :
    (resolver.complain problem name).Formed := ⟨formed.tree, formed.current⟩

theorem bind (resolution : Resolution) :
    (resolver.bind name resolution).Formed := ⟨formed.tree, formed.current⟩

theorem declare : (resolver.declare name kind).Formed := by
  refine ⟨formed.tree.declare _ _ _ _, ?_⟩
  show resolver.current < (resolver.tree.scopes.modify _ _).size
  rw [Array.size_modify]
  exact formed.current

theorem enter {kind : ScopeKind} {owner : NodeId} :
    (resolver.enter kind owner).Formed := by
  refine ⟨formed.tree.push formed.current _ _, ?_⟩
  show resolver.tree.scopes.size < (resolver.tree.scopes.push _).size
  rw [Array.size_push]
  exact Nat.lt_succ_self _

theorem entry :
    ∃ entry, resolver.tree.scopes[resolver.current]? = some entry :=
  ⟨_, Array.getElem?_eq_getElem formed.current⟩

theorem leave : resolver.leave.Formed := by
  refine ⟨formed.tree, ?_⟩
  show (resolver.tree.parent? resolver.current).getD ScopeTree.root < resolver.tree.scopes.size
  obtain ⟨entry, found⟩ := formed.entry
  rw [ScopeTree.parent?, found, Option.bind_some]
  cases up : entry.parent with
  | none => exact Nat.zero_lt_of_lt formed.current
  | some parent => exact Nat.lt_trans (formed.tree.parent_lt found up) formed.current

end Formed

/-! ### What every step does -/

variable {name : Ident} {kind : DeclKind}

/-- A use is bound to what is found, or put off. -/
theorem use_cases (resolver : Resolver) (name : Ident) :
    (∃ scope id, resolver.tree.lookup resolver.current name.name = some (scope, id) ∧
      resolver.use name = resolver.bind name ⟨scope, id⟩) ∨
    resolver.use name =
      { resolver with
        deferred := resolver.deferred ++ [⟨name.name, resolver.current, name.position⟩] } := by
  unfold use
  split
  · exact .inl ⟨_, _, ‹_›, rfl⟩
  · exact .inr rfl

/-- An assignment declares a variable, or assigns what it reaches, which is a variable and not
final, or is refused. -/
theorem assign_cases (resolver : Resolver) (name : Ident) (node : NodeId) (final : Bool) :
    (∃ problem : Problem, problem.isImmediate = true ∧
      resolver.assign name node final = resolver.complain problem name) ∨
    resolver.assign name node final = resolver.declare name (.assigned final node false) ∨
    ∃ scope id decl,
      resolver.tree.lookupAssignable resolver.current name.name = some (scope, id) ∧
      resolver.tree.decls[id]? = some decl ∧
      (decl.isBuiltin = false ∧ decl.isFinal = false ∧ decl.isFunction = false) ∧
      resolver.assign name node final =
        { resolver with tree := resolver.tree.markRebound id }.bind name ⟨scope, id⟩ := by
  unfold assign
  split
  · exact .inr (.inl rfl)
  · rename_i scope id found
    split
    · exact .inr (.inl rfl)
    · rename_i decl stored
      split
      · exact .inl ⟨_, rfl, rfl⟩
      · rename_i provided
        split
        · exact .inl ⟨_, rfl, rfl⟩
        · rename_i fixed
          split
          · exact .inr (.inl rfl)
          · rename_i plain
            simp only [Bool.or_eq_true, not_or, Bool.not_eq_true] at provided fixed plain
            exact .inr (.inr ⟨scope, id, decl, found, stored, ⟨provided, fixed, plain.2⟩, rfl⟩)

/-- A definition declares its function, or is refused. -/
theorem define_cases (policy : Redeclaration) (resolver : Resolver) (name : Ident) (node : NodeId)
    (arity : Nat) :
    (∃ problem : Problem, problem.isImmediate = true ∧
      resolver.define policy name node arity = resolver.complain problem name) ∨
    resolver.define policy name node arity = resolver.declare name (.function node arity) := by
  unfold define
  split
  · split
    · exact .inl ⟨_, rfl, rfl⟩
    · exact .inl ⟨_, rfl, rfl⟩
  · exact .inr rfl

/-- A parameter is declared, with or without a complaint. -/
theorem parameter_cases (resolver : Resolver) (name : Ident) (index : Nat) :
    (∃ problem : Problem, problem.isImmediate = true ∧ resolver.parameter name index =
      (resolver.complain problem name).declare name (.parameter index)) ∨
    resolver.parameter name index = resolver.declare name (.parameter index) := by
  unfold parameter
  split
  · exact .inl ⟨_, rfl, rfl⟩
  · exact .inr rfl

/-- What a step leads to. -/
inductive Took (resolver : Resolver) : ScopeStep → Resolver → Prop
  | enter (kind : ScopeKind) (owner : NodeId) :
    Took resolver (.enter kind owner) (resolver.enter kind owner)
  | leave : Took resolver .leave resolver.leave
  | bound {name : Ident} {scope : ScopeId} {id : DeclId} :
    resolver.tree.lookup resolver.current name.name = some (scope, id) →
      Took resolver (.use name) (resolver.bind name ⟨scope, id⟩)
  | deferred (name : Ident) : Took resolver (.use name) { resolver with
      deferred := resolver.deferred ++ [⟨name.name, resolver.current, name.position⟩] }
  | declared {step : ScopeStep} {name : Ident} {kind : DeclKind} : step.Declares name kind →
    Took resolver step (resolver.declare name kind)
  | repeated {problem : Problem} (name : Ident) (index : Nat) : problem.isImmediate = true →
    Took resolver (.parameter name index)
      ((resolver.complain problem name).declare name (.parameter index))
  | refused {step : ScopeStep} {name : Ident} {kind : DeclKind} {problem : Problem} :
    step.Declares name kind → problem.isImmediate = true →
      Took resolver step (resolver.complain problem name)
  | assigned {name : Ident} {node : NodeId} {final : Bool} {scope : ScopeId} {id : DeclId} {decl : Decl} :
    resolver.tree.lookupAssignable resolver.current name.name = some (scope, id) →
    resolver.tree.decls[id]? = some decl →
      Took resolver (.assign name node final)
        ({ resolver with tree := resolver.tree.markRebound id }.bind name ⟨scope, id⟩)

/-- **What a step does.** -/
theorem took (policy : Redeclaration) (resolver : Resolver) (step : ScopeStep) :
    resolver.Took step (resolver.take policy step) := by
  cases step with
  | enter kind owner => exact .enter kind owner
  | leave => exact .leave
  | use name =>
    show Took _ _ (resolver.use name)
    rcases use_cases resolver name with ⟨scope, id, found, same⟩ | same
    · rw [same]
      exact .bound found
    · rw [same]
      exact .deferred name
  | declare name kind => exact .declared (.declare name kind)
  | parameter name index =>
    show Took _ _ (resolver.parameter name index)
    rcases parameter_cases resolver name index with ⟨problem, immediate, same⟩ | same
    · rw [same]
      exact .repeated name index immediate
    · rw [same]
      exact .declared (.parameter name index)
  | define name node arity =>
    show Took _ _ (resolver.define policy name node arity)
    rcases define_cases policy resolver name node arity with ⟨problem, immediate, same⟩ | same
    · rw [same]
      exact .refused (.define name node arity) immediate
    · rw [same]
      exact .declared (.define name node arity)
  | assign name node final =>
    show Took _ _ (resolver.assign name node final)
    rcases assign_cases resolver name node final with
      ⟨problem, immediate, same⟩ | same | ⟨scope, id, decl, found, stored, -, same⟩
    · rw [same]
      exact .refused (.assign name node final) immediate
    · rw [same]
      exact .declared (.assign name node final)
    · rw [same]
      exact .assigned found stored

/-- A property that plain operations keep is kept by every step. -/
theorem take_induction {motive : Resolver → Prop} (step : ScopeStep) (before : motive resolver)
    (complains : ∀ r problem name, motive r → motive (r.complain problem name))
    (binds : ∀ r name resolution, motive r → motive (r.bind name resolution))
    (defers : ∀ (r : Resolver) late, motive r → motive { r with deferred := r.deferred ++ [late] })
    (declares : ∀ r name kind, motive r → motive (r.declare name kind))
    (rebinds : ∀ (r : Resolver) id, motive r → motive { r with tree := r.tree.markRebound id })
    (enters : ∀ r kind owner, motive r → motive (r.enter kind owner))
    (leaves : ∀ r, motive r → motive r.leave) : motive (resolver.take policy step) := by
  have took := took policy resolver step
  generalize resolver.take policy step = later at took
  cases took with
  | enter => exact enters _ _ _ before
  | leave => exact leaves _ before
  | bound => exact binds _ _ _ before
  | deferred => exact defers _ _ before
  | declared => exact declares _ _ _ before
  | repeated => exact declares _ _ _ (complains _ _ _ before)
  | refused => exact complains _ _ _ before
  | assigned => exact binds _ _ _ (rebinds _ _ before)

/-! ### What steps keep -/

theorem built_initial (owner : NodeId) :
    (initial owner).tree.Built ∧ (initial owner).tree.scopes.size = 1 := by
  rw [initial, builtins]
  have started : (ScopeTree.new owner).Built ∧ (ScopeTree.new owner).scopes.size = 1 :=
    ⟨.new owner, rfl⟩
  generalize ScopeTree.new owner = tree at started
  induction Export.standard generalizing tree with
  | nil => exact started
  | cons entry rest ih =>
    obtain ⟨built, single⟩ := started
    refine ih _ ⟨.declare _ _ _ built (single ▸ Nat.one_pos), ?_⟩
    show (tree.scopes.modify _ _).size = 1
    rw [Array.size_modify, single]

theorem formed_initial (owner : NodeId) : (initial owner).Formed := by
  obtain ⟨built, single⟩ := built_initial owner
  refine ⟨built.formed, ?_⟩
  rw [single]
  exact Nat.one_pos

theorem Formed.take (formed : resolver.Formed) (step : ScopeStep) :
    (resolver.take policy step).Formed :=
  take_induction (motive := Formed) step formed (fun _ problem _ formed => formed.complain problem)
    (fun _ _ resolution formed => formed.bind resolution)
    (fun _ _ formed => ⟨formed.tree, formed.current⟩) (fun _ _ _ formed => formed.declare)
    (fun _ _ formed => ⟨formed.tree.markRebound, formed.current⟩) (fun _ _ _ formed => formed.enter)
    (fun _ formed => formed.leave)

theorem built_take (formed : resolver.Formed) (built : resolver.tree.Built) (step : ScopeStep) :
    (resolver.take policy step).tree.Built :=
  (take_induction (motive := fun later => later.Formed ∧ later.tree.Built) step ⟨formed, built⟩
    (fun _ problem _ facts => ⟨facts.1.complain problem, facts.2⟩)
    (fun _ _ resolution facts => ⟨facts.1.bind resolution, facts.2⟩)
    (fun _ _ facts => ⟨⟨facts.1.tree, facts.1.current⟩, facts.2⟩)
    (fun _ _ _ facts => ⟨facts.1.declare, .declare _ _ _ facts.2 facts.1.current⟩)
    (fun _ _ facts => ⟨⟨facts.1.tree.markRebound, facts.1.current⟩, .rebound _ facts.2⟩)
    (fun _ _ _ facts => ⟨facts.1.enter, .push _ _ facts.2 facts.1.current⟩)
    (fun _ facts => ⟨facts.1.leave, facts.2⟩)).2

theorem Formed.follow (formed : resolver.Formed) (steps : List ScopeStep) :
    (resolver.follow policy steps).Formed := by
  induction steps generalizing resolver with
  | nil => exact formed
  | cons step rest ih => exact ih (formed.take step)

theorem grows_take (step : ScopeStep) : resolver.tree.Grows (resolver.take policy step).tree :=
  take_induction (motive := fun later => resolver.tree.Grows later.tree) step (.refl _)
    (fun _ _ _ grows => grows) (fun _ _ _ grows => grows) (fun _ _ grows => grows)
    (fun _ _ _ grows => grows.trans ScopeTree.grows_declare)
    (fun _ _ grows => grows.trans ScopeTree.grows_markRebound)
    (fun _ _ _ grows => grows.trans ScopeTree.grows_push) (fun _ grows => grows)

theorem grows_follow (steps : List ScopeStep) :
    resolver.tree.Grows (resolver.follow policy steps).tree := by
  induction steps generalizing resolver with
  | nil => exact .refl _
  | cons step rest ih => exact (grows_take step).trans ih

/-- Without problems and without names put off. -/
def Clean (resolver : Resolver) : Prop := resolver.problems = [] ∧ resolver.deferred = []

theorem clean_of_take (clean : (resolver.take policy step).Clean) : resolver.Clean := by
  refine take_induction (motive := fun later => later.Clean → resolver.Clean) step id
    ?_ (fun _ _ _ before => before) ?_ (fun _ _ _ before => before) (fun _ _ before => before)
    (fun _ _ _ before => before) (fun _ before => before) clean
  · intro later problem name _ noted
    exact absurd noted.1 (by simp [complain])
  · intro later late _ noted
    exact absurd noted.2 (by simp)

theorem clean_of_follow (clean : (resolver.follow policy steps).Clean) : resolver.Clean := by
  induction steps generalizing resolver with
  | nil => exact clean
  | cons step rest ih => exact clean_of_take (ih clean)

/-! ### The stack -/

/-- The current scope with what is around it. -/
def stack (resolver : Resolver) : List (ScopeId × Scope) := resolver.tree.stack resolver.current

section

variable (formed : resolver.Formed)

include formed

theorem Formed.stack_cons :
    ∃ entry rest, resolver.stack = (resolver.current, entry) :: rest := by
  obtain ⟨entry, found⟩ := formed.entry
  exact ⟨entry, _, ScopeTree.stack_eq formed.tree found⟩

theorem stack_enter (kind : ScopeKind) (owner : NodeId) :
    (resolver.enter kind owner).stack =
      (resolver.tree.scopes.size, ⟨kind, some resolver.current, owner, [], #[]⟩) ::
        resolver.stack := by
  show (resolver.tree.push kind resolver.current owner).2.stack resolver.tree.scopes.size = _
  have formed' := formed.tree.push formed.current kind owner
  rw [ScopeTree.stack_eq formed' ScopeTree.scopes_push_new]
  refine congrArg (List.cons _) (ScopeTree.stack_congr formed.tree formed' formed.current ?_)
  intro id le
  exact ScopeTree.scopes_push_old (Nat.lt_of_le_of_lt le formed.current)

theorem stack_leave {top : ScopeId × Scope}
    {rest : List (ScopeId × Scope)} (shape : resolver.stack = top :: rest) (inner : rest ≠ []) :
    resolver.leave.stack = rest := by
  obtain ⟨entry, found⟩ := formed.entry
  rw [stack, ScopeTree.stack_eq formed.tree found, List.cons.injEq] at shape
  show resolver.tree.stack ((resolver.tree.parent? resolver.current).getD ScopeTree.root) = rest
  rw [ScopeTree.parent?, found, Option.bind_some]
  cases up : entry.parent with
  | none =>
    rw [up] at shape
    exact absurd shape.2.symm inner
  | some parent =>
    rw [up] at shape
    exact shape.2

theorem stack_declare {scope : ScopeId} {entry : Scope}
    {rest : List (ScopeId × Scope)} (shape : resolver.stack = (scope, entry) :: rest) :
    (resolver.declare name kind).stack =
      (scope, ScopeTree.declared entry name.name resolver.tree.decls.size) :: rest := by
  show (resolver.tree.declare resolver.current name.name kind name.position).2.stack
    resolver.current = _
  obtain ⟨entry', found⟩ := formed.entry
  have formed' := formed.tree.declare resolver.current name.name kind name.position
  rw [stack, ScopeTree.stack_eq formed.tree found, List.cons.injEq, Prod.mk.injEq] at shape
  obtain ⟨⟨rfl, rfl⟩, rfl⟩ := shape
  have found' : (resolver.tree.declare resolver.current name.name kind
      name.position).2.scopes[resolver.current]? =
        some (ScopeTree.declared entry' name.name resolver.tree.decls.size) := by
    rw [ScopeTree.scopes_declare, if_pos rfl, found, Option.map_some]
  rw [ScopeTree.stack_eq formed' found']
  refine congrArg (List.cons _) ?_
  have outer : (ScopeTree.declared entry' name.name resolver.tree.decls.size).parent =
      entry'.parent := rfl
  rw [outer]
  cases up : entry'.parent with
  | none => rfl
  | some parent =>
    have below := formed.tree.parent_lt found up
    refine ScopeTree.stack_congr formed.tree formed' (Nat.lt_trans below formed.current) ?_
    intro id le
    rw [ScopeTree.scopes_declare, if_neg]
    exact Nat.ne_of_gt (Nat.lt_of_le_of_lt le below)

theorem stack_rebound (id : DeclId) :
    { resolver with tree := resolver.tree.markRebound id }.stack = resolver.stack :=
  ScopeTree.stack_congr formed.tree formed.tree.markRebound formed.current fun _ _ => rfl

end

/-! ### What constructs leave as it was -/

/-- Steps behind which the stack is as it was. -/
def Quiet (policy : Redeclaration) (steps : List ScopeStep) : Prop :=
  ∀ resolver : Resolver, resolver.Formed → (resolver.follow policy steps).stack = resolver.stack

/-- Steps behind which the stack is as it was, but for new names in the current scope. -/
def Local (policy : Redeclaration) (steps : List ScopeStep) : Prop :=
  ∀ resolver : Resolver, resolver.Formed → ∀ scope entry rest,
    resolver.stack = (scope, entry) :: rest →
      ∃ entry', entry.Older entry' ∧ (resolver.follow policy steps).stack = (scope, entry') :: rest

theorem Quiet.nil : Quiet policy [] := fun _ _ => rfl

theorem Quiet.append (before : Quiet policy first) (after : Quiet policy second) :
    Quiet policy (first ++ second) := by
  intro resolver formed
  rw [follow_append, after _ (formed.follow first), before resolver formed]

theorem Quiet.local (quiet : Quiet policy steps) : Local policy steps := by
  intro resolver formed scope entry rest shape
  exact ⟨entry, .refl entry, (quiet resolver formed).trans shape⟩

theorem Local.append (before : Local policy first) (after : Local policy second) :
    Local policy (first ++ second) := by
  intro resolver formed scope entry rest shape
  obtain ⟨middle, older, shape⟩ := before resolver formed scope entry rest shape
  obtain ⟨last, newer, shape⟩ := after _ (formed.follow first) scope middle rest shape
  exact ⟨last, older.trans newer, by rw [follow_append, shape]⟩

theorem Local.enclosed (inner : Local policy steps) (kind : ScopeKind) (owner : NodeId) :
    Quiet policy (.enter kind owner :: (steps ++ [.leave])) := by
  intro resolver formed
  rw [follow_cons, follow_append, follow_cons, follow_nil]
  obtain ⟨entry, rest, shape⟩ := formed.stack_cons
  have opened := stack_enter formed kind owner
  obtain ⟨last, -, filled⟩ := inner _ formed.enter _ _ _ opened
  exact stack_leave (formed.enter.follow steps) filled (by rw [shape]; exact List.cons_ne_nil _ _)

theorem quiet_use (name : Ident) : Quiet policy [.use name] := by
  intro resolver formed
  show (resolver.use name).stack = resolver.stack
  rcases use_cases resolver name with ⟨scope, id, -, same⟩ | same
  · rw [same]
    rfl
  · rw [same]
    rfl

theorem Local.of_declares (declares : step.Declares name kind) : Local policy [step] := by
  intro resolver formed scope entry rest shape
  have took := took policy resolver step
  show ∃ entry', _ ∧ (resolver.take policy step).stack = _
  generalize resolver.take policy step = later at took
  cases took with
  | enter | leave | bound | deferred => cases declares
  | declared => exact ⟨_, ScopeTree.older_declared _ _ _, stack_declare formed shape⟩
  | repeated =>
    exact ⟨_, ScopeTree.older_declared _ _ _, stack_declare (formed.complain _) shape⟩
  | refused => exact ⟨entry, .refl entry, shape⟩
  | assigned => exact ⟨entry, .refl entry, (stack_rebound formed _).trans shape⟩

theorem local_params (params : List Ident) : Local policy (paramSteps params) := by
  rw [paramSteps]
  induction params using List.reverseRecOn with
  | nil => exact Quiet.nil.local
  | append_singleton before last ih =>
    rw [List.mapIdx_append]
    exact ih.append (.of_declares (.parameter last _))

end Resolver

open Resolver

variable {policy : Redeclaration}

mutual

theorem Expr.quiet : ∀ expr : Expr, Quiet policy expr.scopeSteps
  | .int _ _ | .bool _ _ | .text _ _ | .none _ => .nil
  | .name _ _ => quiet_use _
  | .binary _ _ left right => left.quiet.append right.quiet
  | .unary _ _ operand => operand.quiet
  | .index _ base index => base.quiet.append index.quiet
  | .array _ items => exprs_quiet items
  | .sized _ size => size.quiet
  | .map _ entries => entries_quiet entries
  | .comprehension tag element binder source filter => by
    have inner : Local policy ([.declare binder (.comprehensionVariable tag.id)] ++
        (optionSteps filter ++ element.scopeSteps)) :=
      (Local.of_declares (.declare _ _)).append ((option_quiet filter).append element.quiet).local
    have whole := source.quiet.append (inner.enclosed .comprehension tag.id)
    simpa only [Expr.scopeSteps, List.append_assoc, List.cons_append, List.nil_append] using whole
  | .call _ callee args => (quiet_use callee).append (exprs_quiet args)

theorem exprs_quiet : ∀ exprs : List Expr, Quiet policy (exprsSteps exprs)
  | [] => .nil
  | first :: rest => first.quiet.append (exprs_quiet rest)

theorem entries_quiet : ∀ entries : List (Expr × Expr), Quiet policy (entriesSteps entries)
  | [] => .nil
  | (key, value) :: rest => (key.quiet.append value.quiet).append (entries_quiet rest)

theorem option_quiet : ∀ option : Option Expr, Quiet policy (optionSteps option)
  | none => .nil
  | some expr => expr.quiet

end

theorem assign_local (tag : Tag) (target : Target) (value : Expr) (final : Bool) :
    Local policy (assignSteps tag target value final) := by
  cases target with
  | name ident => exact value.quiet.local.append (.of_declares (.assign _ _ _))
  | element slot base index => exact (value.quiet.append (base.quiet.append index.quiet)).local

theorem each_quiet (tag : Tag) (binder : Ident) (source : Expr) {body : Block}
    (quiet : Quiet policy body.scopeSteps) :
    Quiet policy (Stmt.each tag binder source body).scopeSteps := by
  have inner : Local policy ([.declare binder (.loopVariable tag.id)] ++ body.scopeSteps) :=
    (Local.of_declares (.declare _ _)).append quiet.local
  have whole := source.quiet.append (inner.enclosed .loop tag.id)
  simpa only [Stmt.scopeSteps, List.append_assoc, List.cons_append, List.nil_append] using whole

mutual

/-- Behind a statement everything is as before, but for new names in the current scope. -/
theorem Stmt.isLocal : ∀ stmt : Stmt, Local policy stmt.scopeSteps
  | .expr value => value.quiet.local
  | .assign tag target value final => assign_local tag target value final
  | .cond _ condition body branches =>
    ((condition.quiet.append body.quiet).append (branches_quiet branches)).local
  | .loop _ condition body => (condition.quiet.append body.quiet).local
  | .each tag binder source body => (each_quiet tag binder source body.quiet).local
  | .define tag name params body => by
    have inner : Local policy (paramSteps params ++ body.scopeSteps) :=
      (local_params params).append body.quiet.local
    have whole := (Local.of_declares (.define name tag.id params.length)).append
      (inner.enclosed .function tag.id).local
    simpa only [Stmt.scopeSteps, List.append_assoc, List.cons_append, List.nil_append] using whole
  | .ret _ value => (option_quiet value).local

theorem Block.quiet : ∀ block : Block, Quiet policy block.scopeSteps
  | .mk tag stmts => (stmts_local stmts).enclosed .block tag.id

theorem stmts_local : ∀ stmts : List Stmt, Local policy (stmtsSteps stmts)
  | [] => Quiet.nil.local
  | first :: rest => first.isLocal.append (stmts_local rest)

theorem branches_quiet : ∀ branches : List Branch, Quiet policy (branchesSteps branches)
  | [] => .nil
  | .mk _ condition body :: rest =>
    ((option_quiet condition).append body.quiet).append (branches_quiet rest)

end

end ScopedScript

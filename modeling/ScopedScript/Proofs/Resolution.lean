/-
**Where names lead.**

In a program without problems, whose numbers differ, what a step of resolution notes is never noted
again, so the outcome of resolution says what each step saw:

* `Counted`, `Node.counted`: the numbers that the steps of a program use up are among its numbers;
* `Program.Accepted`: a program without problems with distinct numbers; `Program.before` is the state
  of resolution before a place in it;
* `Program.Accepted.use`, `Program.Accepted.assign`, `Program.Accepted.opened` and others: the
  outcome of each kind of step.
-/

import ScopedScript.Proofs.Layers
import ScopedScript.Proofs.Node
import ScopedScript.Script

namespace ScopedScript

variable {step : ScopeStep} {name : Ident} {kind : DeclKind} {used : ScopeStep → List NodeId}
  {steps : List ScopeStep} {resolution : Resolution}

/-! ### The numbers that steps use up -/

/-- Each number occurs at most as often in what the steps use up as in a list. -/
def Counted (used : ScopeStep → List NodeId) (steps : List ScopeStep) (ids : List NodeId) : Prop :=
  ∀ id, (steps.flatMap used).count id ≤ ids.count id

/-- What steps may use up: their own numbers, once. -/
structure Frugal (used : ScopeStep → List NodeId) : Prop where
  leave : used .leave = []
  use : ∀ name : Ident, Counted used [.use name] [name.id]
  assign : ∀ (name : Ident) (node : NodeId) (final : Bool),
    Counted used [.assign name node final] [node, name.id]
  block : ∀ owner, Counted used [.enter .block owner] [owner]
  comprehension : ∀ (tag : Tag) (binder : Ident),
    Counted used (comprehensionOpening tag binder) [tag.id, binder.id]
  loop : ∀ (tag : Tag) (binder : Ident), Counted used (loopOpening tag binder) [tag.id, binder.id]
  function : ∀ (tag : Tag) (name : Ident) (params : List Ident),
    Counted used (functionOpening tag name params) (tag.id :: name.id :: params.map Ident.id)

section Counting

variable {used : ScopeStep → List NodeId} (frugal : Frugal used)
variable {ids : List NodeId}

theorem Counted.append {first second : List ScopeStep} {ids' : List NodeId}
    (before : Counted used first ids) (after : Counted used second ids') :
    Counted used (first ++ second) (ids ++ ids') := by
  intro id
  rw [List.flatMap_append, List.count_append, List.count_append]
  exact Nat.add_le_add (before id) (after id)

theorem Counted.weaken (more : List NodeId) (counted : Counted used steps ids) :
    Counted used steps (more ++ ids) := by
  intro id
  rw [List.count_append]
  exact Nat.le_trans (counted id) (Nat.le_add_left _ _)

theorem Counted.nil : Counted used [] [] := fun _ => Nat.le_refl _

include frugal

theorem Frugal.closed (counted : Counted used steps ids) :
    Counted used (steps ++ [.leave]) ids := by
  intro id
  rw [List.flatMap_append, List.flatMap_singleton, frugal.leave, List.append_nil]
  exact counted id

/-- The steps of a node's own use up its own numbers. -/
theorem Node.counted_own (node : Node) : Counted used node.ownSteps node.own := by
  cases node with
  | expr e =>
    cases e with
    | name => exact frugal.use _
    | comprehension tag _ binder => exact frugal.closed (frugal.comprehension tag binder)
    | call tag callee => exact (frugal.use callee).weaken [tag.id]
    | _ => exact fun _ => Nat.zero_le _
  | stmt s =>
    cases s with
    | assign tag target _ final =>
      cases target with
      | name ident => exact frugal.assign ident tag.id final
      | element => exact fun _ => Nat.zero_le _
    | each tag binder => exact frugal.closed (frugal.loop tag binder)
    | define tag name params => exact frugal.closed (frugal.function tag name params)
    | _ => exact fun _ => Nat.zero_le _
  | block b => exact frugal.closed (frugal.block b.id)

/-- The steps of a node use up its numbers. -/
theorem Node.counted (node : Node) : Counted used node.scopeSteps node.ids := by
  induction node using Node.induction with
  | step node ih =>
    have parts : Counted used (gathered scopeSteps node.parts) (gathered Node.ids node.parts) := by
      generalize node.parts = parts at ih
      induction parts with
      | nil => exact .nil
      | cons first rest further =>
        obtain ⟨here, later⟩ := List.forall_mem_cons.mp ih
        exact here.append (further later)
    intro id
    rw [(node.scopeSteps_perm.flatMap_right used).count_eq, node.ids_eq]
    exact (node.counted_own frugal).append parts id

end Counting

/-- What a step notes a resolution or a scope under. -/
def ScopeStep.noted : ScopeStep → List NodeId
  | .enter _ owner => [owner]
  | .leave => []
  | .use name | .declare name _ | .parameter name _ | .define name _ _ | .assign name _ _ =>
    [name.id]

/-- The number of the function that a step declares. -/
def ScopeStep.defined : ScopeStep → List NodeId
  | .define _ node _ | .declare _ (.function node _) => [node]
  | _ => []

theorem ScopeStep.Declares.noted (declares : step.Declares name kind) : name.id ∈ step.noted := by
  cases declares <;> exact List.mem_cons_self

theorem paramSteps_append (before : List Ident) (last : Ident) :
    paramSteps (before ++ [last]) = paramSteps before ++ [.parameter last before.length] := by
  rw [paramSteps, List.mapIdx_append]
  simp [paramSteps]

theorem paramSteps_noted (params : List Ident) :
    (paramSteps params).flatMap ScopeStep.noted = params.map Ident.id := by
  induction params using List.reverseRecOn with
  | nil => rfl
  | append_singleton before last ih =>
    rw [paramSteps_append, List.flatMap_append, ih, List.map_append]
    rfl

theorem paramSteps_defined (params : List Ident) :
    (paramSteps params).flatMap ScopeStep.defined = [] := by
  induction params using List.reverseRecOn with
  | nil => rfl
  | append_singleton before last ih =>
    rw [paramSteps_append, List.flatMap_append, ih]
    rfl

theorem frugal_noted : Frugal ScopeStep.noted where
  leave := rfl
  use _ _ := Nat.le_refl _
  assign name node final := Counted.weaken [node] fun _ => Nat.le_refl _
  block _ _ := Nat.le_refl _
  comprehension _ _ _ := Nat.le_refl _
  loop _ _ _ := Nat.le_refl _
  function tag name params id := by
    rw [functionOpening, List.flatMap_append, paramSteps_noted]
    simp [ScopeStep.noted, List.count_cons]
    omega

theorem frugal_defined : Frugal ScopeStep.defined where
  leave := rfl
  use _ _ := Nat.zero_le _
  assign _ _ _ _ := Nat.zero_le _
  block _ _ := Nat.zero_le _
  comprehension _ _ _ := Nat.zero_le _
  loop _ _ _ := Nat.zero_le _
  function tag name params id := by
    rw [functionOpening, List.flatMap_append, paramSteps_defined]
    simp [ScopeStep.defined, List.count_cons]

theorem prefix_later {before before' : List ScopeStep} {step' : ScopeStep} {id : NodeId}
    (distinct : (steps.flatMap used).Nodup) (here : before ++ [step] <+: steps)
    (there : before' ++ [step'] <+: steps) (mine : id ∈ used step) (yours : id ∈ used step') :
    before'.length ≤ before.length := by
  by_contra earlier
  have first : before ++ [step] <+: before' := by
    refine List.prefix_of_prefix_length_le here ((List.prefix_append _ _).trans there) ?_
    rw [List.length_append, List.length_singleton]
    omega
  obtain ⟨rest, rfl⟩ := there
  obtain ⟨between, rfl⟩ := first
  simp only [List.flatMap_append, List.flatMap_singleton, List.nodup_append] at distinct
  exact distinct.1.2.2 id (by simp [mine]) id yours rfl

/-- Steps that use up different numbers are told apart by any of these. -/
theorem prefix_unique {before before' : List ScopeStep} {step' : ScopeStep} {id : NodeId}
    (distinct : (steps.flatMap used).Nodup) (here : before ++ [step] <+: steps)
    (there : before' ++ [step'] <+: steps) (mine : id ∈ used step) (yours : id ∈ used step') :
    before = before' := by
  have le := prefix_later distinct here there mine yours
  have ge := prefix_later distinct there here yours mine
  have first : before <+: before' := List.prefix_of_prefix_length_le
    ((List.prefix_append _ _).trans here) ((List.prefix_append _ _).trans there) ge
  exact first.eq_of_length (Nat.le_antisymm ge le)

/-! ### Notes are kept -/

namespace Resolver

variable {policy : Redeclaration} {resolver : Resolver} {id : NodeId}

theorem resolutions_bind (other : id ≠ name.id) :
    (resolver.bind name resolution).resolutions[id]? = resolver.resolutions[id]? := by
  rw [bind, Std.TreeMap.getElem?_insert, if_neg]
  simpa using other.symm

theorem resolutions_bind_self :
    (resolver.bind name resolution).resolutions[name.id]? = some resolution := by
  rw [bind, Std.TreeMap.getElem?_insert_self]

theorem take_kept (other : id ∉ step.noted) :
    (resolver.take policy step).resolutions[id]? = resolver.resolutions[id]? ∧
      (resolver.take policy step).tree.scopeOf? id = resolver.tree.scopeOf? id := by
  have took := took policy resolver step
  generalize resolver.take policy step = later at took
  cases took with
  | enter kind owner =>
    have other : owner ≠ id := by simpa [ScopeStep.noted, eq_comm] using other
    refine ⟨rfl, ?_⟩
    show (resolver.tree.owners.insert owner resolver.tree.scopes.size)[id]? = _
    rw [Std.TreeMap.getElem?_insert, if_neg (by simpa using other)]
    rfl
  | leave | deferred | refused => exact ⟨rfl, rfl⟩
  | bound | assigned | repeated =>
    exact ⟨resolutions_bind (by simpa [ScopeStep.noted] using other), rfl⟩
  | declared declares =>
    refine ⟨resolutions_bind ?_, rfl⟩
    rintro rfl
    exact other declares.noted

theorem follow_kept (other : id ∉ steps.flatMap ScopeStep.noted) :
    (resolver.follow policy steps).resolutions[id]? = resolver.resolutions[id]? ∧
      (resolver.follow policy steps).tree.scopeOf? id = resolver.tree.scopeOf? id := by
  induction steps generalizing resolver with
  | nil => exact ⟨rfl, rfl⟩
  | cons step rest ih =>
    rw [List.flatMap_cons, List.mem_append, not_or] at other
    rw [follow_cons, (ih other.2).1, (ih other.2).2]
    exact take_kept other.1

end Resolver

/-! ### Problems that are found at once -/

namespace Resolver

variable {policy : Redeclaration} {resolver : Resolver}

theorem take_immediate (step : ScopeStep)
    (before : ∀ diagnostic ∈ resolver.problems, diagnostic.problem.isImmediate = true) :
    ∀ diagnostic ∈ (resolver.take policy step).problems,
      diagnostic.problem.isImmediate = true := by
  have complains : ∀ {problem : Problem} (name : Ident), problem.isImmediate = true →
      ∀ diagnostic ∈ (resolver.complain problem name).problems,
        diagnostic.problem.isImmediate = true := by
    intro problem name immediate diagnostic member
    rcases List.mem_append.mp member with old | new
    · exact before diagnostic old
    · cases List.mem_singleton.mp new
      exact immediate
  have took := took policy resolver step
  generalize resolver.take policy step = later at took
  cases took with
  | enter | leave | bound | deferred | declared | assigned => exact before
  | repeated name _ immediate => exact complains name immediate
  | refused _ immediate => exact complains _ immediate

end Resolver

/-! ### What becomes of declarations -/

theorem DeclKind.Older.seed_eq {newer : DeclKind} {ty : Ty} (older : kind.Older newer)
    (seed : kind.seed? = some ty) : newer.seed? = some ty := by
  cases older with
  | same => exact seed
  | rebound final node before =>
    cases before with
    | false => cases seed
    | true => exact seed

/-- A variable that is assigned further in has no type of its own. -/
theorem Decl.seed_rebound {decl : Decl} (provided : decl.isBuiltin = false)
    (plain : decl.isFunction = false) : decl.kind.rebound.seed? = some .unknown := by
  rcases decl with ⟨name, kind, position, scope⟩
  cases kind with
  | builtin => cases provided
  | function => cases plain
  | _ => rfl

/-! ### Accepted programs -/

namespace Program

/-- What is known of names before a place in a program. -/
def before (program : Program) (policy : Redeclaration) (steps : List ScopeStep) : Resolver :=
  (Resolver.initial program.id).follow policy steps

/-- A program whose numbers differ and whose names are in order. -/
structure Accepted (program : Program) (policy : Redeclaration) : Prop where
  distinct : program.ids.Nodup
  clean : (program.resolve policy).problems = []

variable {program : Program} {policy : Redeclaration} {steps : List ScopeStep} {step : ScopeStep}

theorem Accepted.distinct_body (accepted : program.Accepted policy) :
    (Node.block program.body).ids.Nodup :=
  (List.nodup_cons.mp accepted.distinct).2

theorem formed_before (program : Program) (policy : Redeclaration) (steps : List ScopeStep) :
    (program.before policy steps).Formed := (Resolver.formed_initial program.id).follow steps

theorem before_append (first second : List ScopeStep) :
    program.before policy (first ++ second) = (program.before policy first).follow policy second :=
  Resolver.follow_append first second

theorem before_concat : program.before policy (steps ++ [step]) =
    (program.before policy steps).take policy step := before_append steps [step]

/-- The tree before a place is made by opening scopes and declaring names. -/
theorem built_before (program : Program) (policy : Redeclaration) (steps : List ScopeStep) :
    (program.before policy steps).tree.Built := by
  induction steps using List.reverseRecOn with
  | nil => exact (Resolver.built_initial program.id).1
  | append_singleton steps step ih =>
    rw [before_concat]
    exact Resolver.built_take (program.formed_before policy steps) ih step

/-- The problems before a place are immediate ones. -/
theorem problems_before (program : Program) (policy : Redeclaration) (steps : List ScopeStep) :
    ∀ diagnostic ∈ (program.before policy steps).problems,
      diagnostic.problem.isImmediate = true := by
  induction steps using List.reverseRecOn with
  | nil =>
    intro diagnostic member
    exact absurd member List.not_mem_nil
  | append_singleton steps step ih =>
    rw [before_concat]
    exact Resolver.take_immediate step ih

/-- The tree before a place grows into the tree of the program. -/
theorem grows_before (within : steps <+: program.scopeSteps) :
    (program.before policy steps).tree.Grows (program.resolve policy).tree := by
  obtain ⟨rest, whole⟩ := within
  have grows : (program.before policy steps).tree.Grows
      ((program.before policy steps).follow policy rest).tree := Resolver.grows_follow rest
  rw [← before_append, whole] at grows
  exact grows

/-- What a layer lists is declared under that name in the scope of the layer. -/
theorem listed (within : steps <+: program.scopeSteps) {layer : Layer}
    (member : layer ∈ (program.before policy steps).layers) {name : String} {id : DeclId}
    (named : (name, id) ∈ layer.names) :
    ∃ decl, (program.resolve policy).tree.decls[id]? = some decl ∧ decl.name = name ∧
      decl.scope = layer.scope := by
  obtain ⟨early, stored, same, scope⟩ := (program.formed_before policy steps).listed member named
  obtain ⟨decl, stored, older⟩ := (grows_before within).decls stored
  exact ⟨decl, stored, older.name.trans same, older.scope.trans scope⟩

theorem nodup_steps (distinct : program.ids.Nodup) (frugal : Frugal used) :
    (program.scopeSteps.flatMap used).Nodup := by
  rw [List.nodup_iff_count_le_one]
  intro id
  have all := List.nodup_iff_count_le_one.mp distinct id
  rw [Program.ids, List.count_cons] at all
  have counted : _ ≤ program.body.ids.count id := (Node.block program.body).counted frugal id
  exact Nat.le_trans counted (by omega)

theorem noted (distinct : program.ids.Nodup) (within : steps ++ [step] <+: program.scopeSteps)
    {id : NodeId} (mine : id ∈ step.noted) :
    (program.resolve policy).resolutions[id]? =
        ((program.before policy steps).take policy step).resolutions[id]? ∧
      (program.resolve policy).tree.scopeOf? id =
        ((program.before policy steps).take policy step).tree.scopeOf? id := by
  obtain ⟨rest, whole⟩ := within
  have distinct := nodup_steps distinct frugal_noted
  rw [← whole, List.flatMap_append, List.flatMap_append, List.flatMap_singleton] at distinct
  have later : id ∉ rest.flatMap ScopeStep.noted := by
    intro again
    rw [List.nodup_append] at distinct
    exact distinct.2.2 id (List.mem_append_right _ mine) id again rfl
  have kept : ((program.before policy (steps ++ [step])).follow policy rest).resolutions[id]? = _ ∧
      ((program.before policy (steps ++ [step])).follow policy rest).tree.scopeOf? id = _ :=
    Resolver.follow_kept later
  rw [← before_append, whole, before_concat] at kept
  exact kept

namespace Accepted

variable (accepted : program.Accepted policy)

include accepted

theorem clean_before (within : steps <+: program.scopeSteps) :
    (program.before policy steps).Clean := by
  have final : (program.before policy program.scopeSteps).Clean := by
    have none := accepted.clean
    rw [Program.resolve] at none
    obtain ⟨problems, deferred⟩ := List.append_eq_nil_iff.mp none
    exact ⟨problems, List.map_eq_nil_iff.mp deferred⟩
  obtain ⟨rest, whole⟩ := within
  rw [← whole, before_append] at final
  exact Resolver.clean_of_follow final

theorem clean_take (within : steps ++ [step] <+: program.scopeSteps) :
    ((program.before policy steps).take policy step).Clean := by
  have clean := accepted.clean_before within
  rwa [before_concat] at clean

/-! ### The outcome of each kind of step -/

/-- A use refers to the innermost layer that has the name. -/
theorem use (within : steps ++ [.use name] <+: program.scopeSteps) :
    ∃ inner layer outer id, (program.before policy steps).layers = inner ++ layer :: outer ∧
      layer.names.lookup name.name = some id ∧
      (∀ nearer ∈ inner, nearer.names.lookup name.name = none) ∧
      (program.resolve policy).resolutions[name.id]? = some ⟨layer.scope, id⟩ := by
  have noted : (program.resolve policy).resolutions[name.id]? =
      ((program.before policy steps).use name).resolutions[name.id]? :=
    (noted accepted.distinct within (List.mem_singleton.mpr rfl)).1
  have clean : ((program.before policy steps).use name).Clean := accepted.clean_take within
  have formed := program.formed_before policy steps
  rcases Resolver.use_cases (program.before policy steps) name with ⟨scope, id, found, same⟩ | same
  · obtain ⟨inner, layer, outer, split, rfl, latest, nearer⟩ := Resolver.lookup_layers formed found
    rw [same, Resolver.resolutions_bind_self] at noted
    exact ⟨inner, layer, outer, id, split, latest, nearer, noted⟩
  · rw [same] at clean
    exact absurd clean.2 (by simp)

/-- A use refers to a declaration of its name. -/
theorem use_named {decl : Decl} (within : steps ++ [.use name] <+: program.scopeSteps)
    (noted : (program.resolve policy).resolutions[name.id]? = some resolution)
    (stored : (program.resolve policy).tree.decls[resolution.decl]? = some decl) :
    decl.name = name.name := by
  obtain ⟨inner, layer, outer, id, around, latest, -, noted'⟩ := accepted.use within
  cases noted.symm.trans noted'
  have member : layer ∈ (program.before policy steps).layers := by
    rw [around]
    exact List.mem_append_right _ List.mem_cons_self
  obtain ⟨decl', stored', named, -⟩ :=
    listed ((List.prefix_append _ _).trans within) member (Layer.mem_of_lookup latest)
  cases stored.symm.trans stored'
  exact named

theorem opened {kind : ScopeKind} {owner : NodeId}
    (within : steps ++ [.enter kind owner] <+: program.scopeSteps) :
    (program.resolve policy).tree.scopeOf? owner =
      some (program.before policy steps).tree.scopes.size := by
  rw [(noted accepted.distinct within (List.mem_singleton.mpr rfl)).2]
  exact Std.TreeMap.getElem?_insert_self

omit accepted in
theorem declared (within : steps ++ [step] <+: program.scopeSteps)
    (same : (program.before policy steps).take policy step = (program.before policy steps).declare
      name kind) :
    ∃ decl, (program.resolve policy).tree.decls[(program.before policy steps).tree.decls.size]? =
        some decl ∧ decl.name = name.name ∧ kind.Older decl.kind ∧
          decl.scope = (program.before policy steps).current := by
  have grows : (program.before policy (steps ++ [step])).tree.Grows _ := grows_before within
  rw [before_concat, same] at grows
  obtain ⟨decl, stored, older⟩ := grows.decls ScopeTree.decls_declare_new
  exact ⟨decl, stored, older.name, older.kind, older.scope⟩

/-- An assignment declares a variable in the current scope, or assigns a variable of an own layer
that is not final. -/
theorem assign {node : NodeId} {final : Bool}
    (within : steps ++ [.assign name node final] <+: program.scopeSteps) :
    ((program.before policy steps).take policy (.assign name node final) =
        (program.before policy steps).declare name (.assigned final node false) ∧
      (program.resolve policy).resolutions[name.id]? =
        some ⟨(program.before policy steps).current,
          (program.before policy steps).tree.decls.size⟩) ∨
    ∃ inner layer outer id decl,
      (program.before policy steps).layers = inner ++ layer :: outer ∧ layer.own = true ∧
      layer.names.lookup name.name = some id ∧
      (program.resolve policy).resolutions[name.id]? = some ⟨layer.scope, id⟩ ∧
      (program.resolve policy).tree.decls[id]? = some decl ∧ decl.isFinal = false ∧
      decl.isFunction = false ∧ decl.kind.seed? = some .unknown ∧
      (program.before policy (steps ++ [.assign name node final])).layers =
        (program.before policy steps).layers := by
  have noted : (program.resolve policy).resolutions[name.id]? =
      ((program.before policy steps).assign name node final).resolutions[name.id]? :=
    (noted accepted.distinct within (List.mem_singleton.mpr rfl)).1
  have clean : ((program.before policy steps).assign name node final).Clean :=
    accepted.clean_take within
  have grows : (program.before policy (steps ++ [.assign name node final])).tree.Grows _ :=
    grows_before within
  have formed := program.formed_before policy steps
  rw [before_concat] at grows ⊢
  change ((program.before policy steps).assign name node final).tree.Grows _ at grows
  rcases Resolver.assign_cases (program.before policy steps) name node final with
    ⟨problem, -, same⟩ | same | ⟨scope, id, decl, found, stored, plain, same⟩
  · rw [same] at clean
    exact absurd clean.1 (by simp [Resolver.complain])
  · rw [same] at noted
    exact .inl ⟨same, noted.trans Resolver.resolutions_bind_self⟩
  · obtain ⟨inner, layer, outer, split, own, rfl, latest⟩ :=
      Resolver.assignable_layers formed found
    rw [same] at noted grows
    obtain ⟨last, stored', older⟩ := grows.decls (ScopeTree.decls_markRebound stored)
    have before : (program.before policy steps).tree.Grows _ :=
      grows_before ((List.prefix_append _ _).trans within)
    obtain ⟨last', same', kept⟩ := before.decls stored
    obtain rfl : last' = last := Option.some.inj (same'.symm.trans stored')
    refine .inr ⟨inner, layer, outer, id, last', split, own, latest,
      noted.trans Resolver.resolutions_bind_self, stored', kept.isFinal_eq.trans plain.2.1,
      kept.isFunction_eq.trans plain.2.2, ?_, ?_⟩
    · exact older.kind.seed_eq (Decl.seed_rebound plain.1 plain.2.2)
    · show layersOf true ((program.before policy steps).assign name node final).stack = _
      rw [same]
      exact congrArg (layersOf true) (Resolver.stack_rebound formed id)

theorem define {node : NodeId} {arity : Nat}
    (within : steps ++ [.define name node arity] <+: program.scopeSteps) :
    (program.before policy steps).take policy (.define name node arity) =
      (program.before policy steps).declare name (.function node arity) := by
  have clean : ((program.before policy steps).define policy name node arity).Clean :=
    accepted.clean_take within
  rcases Resolver.define_cases policy (program.before policy steps) name node arity with
    ⟨problem, -, same⟩ | same
  · rw [same] at clean
    exact absurd clean.1 (by simp [Resolver.complain])
  · exact same

theorem parameter {index : Nat} (within : steps ++ [.parameter name index] <+: program.scopeSteps) :
    (program.before policy steps).take policy (.parameter name index) =
      (program.before policy steps).declare name (.parameter index) := by
  have clean : ((program.before policy steps).parameter name index).Clean :=
    accepted.clean_take within
  rcases Resolver.parameter_cases (program.before policy steps) name index with
    ⟨problem, -, same⟩ | same
  · rw [same] at clean
    exact absurd clean.1 (by simp [Resolver.complain, Resolver.declare, Resolver.bind])
  · exact same

/-- The layers of a function body: its parameters, and what was around its definition. -/
theorem params_layers {scope : ScopeId} {outer : List Layer} {params : List Ident}
    (within : steps ++ paramSteps params <+: program.scopeSteps)
    (shape : (program.before policy steps).layers = ⟨true, scope, []⟩ :: outer) :
    ∃ names, (program.before policy (steps ++ paramSteps params)).layers =
        ⟨true, scope, names⟩ :: outer ∧
      ∀ entry ∈ names, entry.1 ∈ params.map Ident.name ∧
        ∃ decl index, (program.resolve policy).tree.decls[entry.2]? = some decl ∧
          decl.kind = .parameter index := by
  induction params using List.reverseRecOn with
  | nil =>
    refine ⟨[], ?_, nofun⟩
    rw [show paramSteps [] = [] from rfl, List.append_nil, shape]
  | append_singleton before last ih =>
    rw [paramSteps_append, ← List.append_assoc] at within
    obtain ⟨names, layers, known⟩ := ih ((List.prefix_append _ _).trans within)
    have same := accepted.parameter within
    obtain ⟨decl, stored, -, older, -⟩ := declared within same
    rw [paramSteps_append, ← List.append_assoc, before_concat, same,
      Resolver.layers_declare (program.formed_before policy _) _ _ layers]
    refine ⟨_, rfl, fun entry member => ?_⟩
    rw [List.map_append, List.mem_append]
    rcases List.mem_cons.mp member with rfl | member
    · refine ⟨.inr List.mem_cons_self, decl, before.length, stored, ?_⟩
      cases kind : decl.kind <;> rw [kind] at older <;> cases older
      rfl
    · obtain ⟨named, facts⟩ := known entry member
      exact ⟨.inl named, facts⟩

end Accepted

end Program

end ScopedScript

/-
**Every type can be determined.**

The rules that a program registers never wait for each other. A name refers to a declaration that is
older than its use, and a declaration without a seed takes the type of a value that stands before it,
so types are derivable in the order in which names are declared:

* `Resolver.Refers`: what is noted for a name is a declaration that exists by then;
* `Program.Known`: the declarations made so far are derivable; `Program.Known.expr`: then so is the
  type of an expression, and `Program.known`: all declarations are;
* `Program.derives_inputs`, `Program.idle_eq_nil`: **no rule of a program is left waiting**, whatever
  else is wrong with the program.
-/

import ScopedScript.Proofs.Registration

namespace ScopedScript

variable {decl : Decl}

/-! ### Inputs and outputs -/

namespace Node

/-- An expression registers its type as a value, as failed, or as what a rule computes. -/
theorem registeredExpr_output (scoping : Scoping) (expr : Expr) :
    (∃ ty, .set expr.typeKey ty ∈ registeredExpr scoping expr) ∨
    .fail expr.typeKey ∈ registeredExpr scoping expr ∨
    ∃ rule, .rule rule ∈ registeredExpr scoping expr ∧ rule.output = some expr.typeKey := by
  cases expr with
  | int | bool | text | none => exact .inl ⟨_, List.mem_cons_self⟩
  | name tag name =>
    simp only [registeredExpr, Scoping.nameRegistration]
    split
    · exact .inr (.inr ⟨_, List.mem_cons_self, rfl⟩)
    · exact .inr (.inl List.mem_cons_self)
  | call tag callee args =>
    change (∃ ty, _ ∈ scoping.callRegistrations tag callee args) ∨
      _ ∈ scoping.callRegistrations tag callee args ∨
      ∃ rule, _ ∈ scoping.callRegistrations tag callee args ∧ _
    have calls := scoping.calls tag callee args
    generalize scoping.callRegistrations tag callee args = all at calls
    cases calls with
    | unknown => exact .inr (.inl List.mem_cons_self)
    | refused => exact .inr (.inl (List.mem_cons_of_mem _ List.mem_cons_self))
    | defined => exact .inl ⟨_, List.mem_cons_self⟩
    | provided => exact .inr (.inr ⟨_, List.mem_cons_self, rfl⟩)
  | binary | unary | index | array | sized | map | comprehension =>
    exact .inr (.inr ⟨_, List.mem_cons_self, rfl⟩)

end Node

/-! ### What registrations make derivable -/

namespace Program

variable {program : Program} {scoping : Scoping} {key : Attribute}

/-- What is registered and is no value is registered by a node. -/
theorem registration_within {registration : Registration}
    (member : registration ∈ program.registrations scoping)
    (grown : ∀ key ty, registration ≠ .set key ty) :
    ∃ place inner, (Node.block program.body).Within place inner ∧
      registration ∈ inner.registered scoping := by
  rcases mem_registrations.mp member with seed | inside
  · obtain ⟨id, decl, ty, -, -, same⟩ := mem_seeds.mp seed
    exact absurd same (grown _ _)
  · exact inside

theorem derives_set {ty : Ty} (member : .set key ty ∈ program.registrations scoping) :
    (program.rules scoping).Derives key :=
  .given (contains_of_listed (show Registration.ofSlot key (.ready ty) ∈ _ from member))

theorem derives_fail (member : .fail key ∈ program.registrations scoping) :
    (program.rules scoping).Derives key :=
  .given (contains_of_listed (show Registration.ofSlot key .failed ∈ _ from member))

theorem derives_copy {input output : Attribute} {position : Position}
    (member : .copy input output position ∈ program.registrations scoping)
    (known : (program.rules scoping).Derives input) : (program.rules scoping).Derives output :=
  .rule (mem_rules.mpr member) rfl fun _ member => List.mem_singleton.mp member ▸ known

theorem derives_seed {id : DeclId} {ty : Ty} (stored : scoping.tree.decls[id]? = some decl)
    (seed : decl.kind.seed? = some ty) : (program.rules scoping).Derives (.decl id) :=
  derives_set (List.mem_append_left _ (mem_seeds.mpr ⟨id, decl, ty, stored, seed, rfl⟩))

end Program

/-! ### Names refer to declarations that exist -/

namespace Resolver

variable {policy : Redeclaration} {resolver : Resolver}

/-- Everything noted for a name is a declaration that exists by now. -/
def Refers (resolver : Resolver) : Prop :=
  ∀ (id : NodeId) (resolution : Resolution), resolver.resolutions[id]? = some resolution →
    resolution.decl < resolver.tree.decls.size

theorem lt_of_stored {id : DeclId} (stored : resolver.tree.decls[id]? = some decl) :
    id < resolver.tree.decls.size := (Array.getElem?_eq_some_iff.mp stored).1

theorem Refers.bind {tree : ScopeTree} (refers : resolver.Refers) (name : Ident)
    {resolution : Resolution} (inside : resolution.decl < tree.decls.size)
    (more : resolver.tree.decls.size ≤ tree.decls.size) :
    ({ resolver with tree := tree }.bind name resolution).Refers := by
  intro id found here
  by_cases same : id = name.id
  · subst same
    rw [resolutions_bind_self] at here
    cases here
    exact inside
  · rw [resolutions_bind same] at here
    exact Nat.lt_of_lt_of_le (refers id found here) more

theorem Refers.declare (refers : resolver.Refers) (name : Ident) (kind : DeclKind) :
    (resolver.declare name kind).Refers := by
  have grown : (resolver.tree.declare resolver.current name.name kind name.position).2.decls.size =
      resolver.tree.decls.size + 1 := Array.size_push ..
  exact refers.bind name (Nat.lt_of_lt_of_eq (Nat.lt_succ_self _) grown.symm)
    (Nat.le_trans (Nat.le_succ _) (Nat.le_of_eq grown.symm))

theorem Refers.take (refers : resolver.Refers) (formed : resolver.Formed) (step : ScopeStep) :
    (resolver.take policy step).Refers := by
  have took := took policy resolver step
  generalize resolver.take policy step = later at took
  cases took with
  | enter | leave | deferred | refused => exact refers
  | declared => exact refers.declare _ _
  | @bound name scope id found =>
    obtain ⟨inner, layer, outer, split, -, latest, -⟩ := lookup_layers formed found
    have member : layer ∈ resolver.layers := by
      rw [split]
      exact List.mem_append_right _ List.mem_cons_self
    obtain ⟨decl, stored, -⟩ := formed.listed member (Layer.mem_of_lookup latest)
    exact refers.bind name (lt_of_stored stored) (Nat.le_refl _)
  | @repeated problem name =>
    have complained : (resolver.complain problem name).Refers := refers
    exact complained.declare name _
  | @assigned name node final scope id decl found stored =>
    have size : (resolver.tree.markRebound id).decls.size = resolver.tree.decls.size :=
      Array.size_modify
    exact refers.bind name (by rw [size]; exact lt_of_stored stored) (Nat.le_of_eq size.symm)

/-- An assignment that makes the tree grow declares its variable. -/
theorem declare_of_new {name : Ident} {node : NodeId} {final : Bool}
    (new : resolver.tree.decls.size <
      (resolver.take policy (.assign name node final)).tree.decls.size) :
    resolver.take policy (.assign name node final) =
      resolver.declare name (.assigned final node false) := by
  change resolver.tree.decls.size < (resolver.assign name node final).tree.decls.size at new
  rcases assign_cases resolver name node final with
    ⟨problem, -, same⟩ | same | ⟨scope, id, decl, -, -, -, same⟩
  · rw [same] at new
    exact absurd new (Nat.lt_irrefl _)
  · exact same
  · rw [same] at new
    exact absurd new (Nat.not_lt_of_le (Nat.le_of_eq Array.size_modify))

end Resolver

/-! ### Derivable types -/

/-- Only a variable that is never assigned further in has no seed. -/
theorem DeclKind.assigned_of_seed {kind : DeclKind} (seed : kind.seed? = none) :
    ∃ final node, kind = .assigned final node false := by
  unfold DeclKind.seed? at seed
  split at seed
  · cases seed
  · exact ⟨_, _, rfl⟩
  · cases seed

namespace Program

variable {program : Program} {policy : Redeclaration} {steps place : List ScopeStep}
variable {final : Bool}

theorem refers_before (program : Program) (policy : Redeclaration) (steps : List ScopeStep) :
    (program.before policy steps).Refers := by
  induction steps using List.reverseRecOn with
  | nil =>
    intro id resolution found
    cases (Std.TreeMap.getElem?_emptyc (a := id)).symm.trans found
  | append_singleton steps step ih =>
    rw [before_concat]
    exact ih.take (program.formed_before policy steps) step

/-- The declarations made by now are derivable. -/
def Known (program : Program) (policy : Redeclaration) (steps : List ScopeStep) : Prop :=
  ∀ id < (program.before policy steps).tree.decls.size,
    (program.rules (program.resolve policy)).Derives (.decl id)

theorem Known.earlier {more : List ScopeStep} (known : program.Known policy (steps ++ more)) :
    program.Known policy steps := by
  intro id inside
  have grows : (program.before policy steps).tree.Grows
      ((program.before policy steps).follow policy more).tree := Resolver.grows_follow more
  obtain ⟨decl, stored, -⟩ := grows.decls (Array.getElem?_eq_getElem inside)
  rw [← before_append] at stored
  exact known id (Resolver.lt_of_stored stored)

variable (distinct : program.ids.Nodup)

include distinct

/-- A name refers to a derivable declaration, if it refers to any. -/
theorem Known.name (name : Ident) {resolution : Resolution}
    (known : program.Known policy (place ++ [.use name]))
    (within : place ++ [.use name] <+: program.scopeSteps)
    (noted : (program.resolve policy).resolutions[name.id]? = some resolution) :
    (program.rules (program.resolve policy)).Derives (.decl resolution.decl) := by
  rw [(Program.noted distinct within (List.mem_singleton.mpr rfl)).1, ← before_concat] at noted
  exact known _ (program.refers_before policy _ _ _ noted)

/-- **The type of an expression is derivable** once the declarations in and before it are. -/
theorem Known.expr {expr : Expr} (within : (Node.block program.body).Within place (.expr expr))
    (known : program.Known policy (place ++ expr.scopeSteps)) :
    (program.rules (program.resolve policy)).Derives expr.typeKey := by
  induction same : Node.expr expr using Node.induction generalizing place expr with
  | step node ih =>
    subst same
    have mine : ∀ {registration : Registration},
        registration ∈ Node.registeredExpr (program.resolve policy) expr →
          registration ∈ program.registrations (program.resolve policy) :=
      fun member => List.mem_append_right _ (within.registered member)
    have parts : ∀ {offset : List ScopeStep} {part : Expr},
        (offset, .expr part) ∈ (Node.expr expr).parts →
          (program.rules (program.resolve policy)).Derives part.typeKey := by
      intro offset part member
      obtain ⟨rest, whole⟩ : offset ++ part.scopeSteps <+: expr.scopeSteps := Node.steps_of_part member
      have further : program.Known policy (place ++ offset ++ part.scopeSteps ++ rest) := by
        rw [← whole] at known
        simpa only [List.append_assoc] using known
      exact ih _ member (within.tail member) further.earlier rfl
    rcases Node.registeredExpr_output (program.resolve policy) expr with
      ⟨ty, registered⟩ | registered | ⟨rule, registered, output⟩
    · exact derives_set (mine registered)
    · exact derives_fail (mine registered)
    · refine .rule (mem_rules.mpr (mine registered)) output fun dep read => ?_
      cases Node.registers_expr registered with
      | rule _ reads =>
        cases reads dep read with
        | part inside => exact parts inside
        | @name tag name resolution same noted =>
          cases same
          exact Known.name distinct ⟨tag.id, name, tag.position⟩ known within.steps_isPrefix noted
        | slot same => cases same

omit distinct in
/-- A step that declares a variable is an assignment of the program. -/
theorem assignment_of_step {step : ScopeStep} {node : NodeId} {rebound : Bool}
    (member : step ∈ program.scopeSteps)
    (introduces : step.Introduces (.assigned final node rebound)) :
    ∃ place tag name value, step = .assign name node final ∧ tag.id = node ∧ rebound = false ∧
      (Node.block program.body).Within place (.stmt (.assign tag (.name name) value final)) := by
  obtain ⟨place, inner, within, own⟩ := (Node.block program.body).step_within member
  have taken := Node.takenBy_of_mem own
  cases step with
  | enter | leave | use => cases introduces
  | parameter | define => cases introduces
  | declare name kind =>
    cases introduces
    obtain ⟨owner, other | other⟩ := taken <;> cases other
  | assign name node' final' =>
    cases introduces
    obtain ⟨tag, value, rfl, rfl⟩ := taken
    exact ⟨place, tag, name, value, rfl, rfl, rfl, within⟩

/-- The declaration of a variable that is never assigned further in takes the type of its value. -/
theorem derives_assigned {node : NodeId} {name : Ident} (known : program.Known policy steps)
    (within : steps ++ [.assign name node final] <+: program.scopeSteps)
    (new : (program.before policy steps).tree.decls.size < ((program.before policy steps).take
      policy (.assign name node final)).tree.decls.size)
    (stored : (program.resolve policy).tree.decls[(program.before policy steps).tree.decls.size]? =
      some decl) (kind : decl.kind = .assigned final node false) :
    (program.rules (program.resolve policy)).Derives
      (.decl (program.before policy steps).tree.decls.size) := by
  have member : .assign name node final ∈ program.scopeSteps :=
    within.subset (List.mem_append_right _ List.mem_cons_self)
  have introduces : (ScopeStep.assign name node final).Introduces (.assigned final node false) := rfl
  obtain ⟨place, tag, name', value, same, rfl, -, inside⟩ := assignment_of_step member introduces
  cases same
  -- The step determines the place: its name is noted once.
  have here : place ++ value.scopeSteps = steps := prefix_unique
    (nodup_steps distinct frugal_noted) inside.assign_isPrefix within List.mem_cons_self
    List.mem_cons_self
  have noted : (program.resolve policy).resolutions[name.id]? = _ :=
    (Program.noted distinct within List.mem_cons_self).1
  rw [Resolver.declare_of_new new] at noted
  have found : (program.resolve policy).declOf? name.id =
      some ((program.before policy steps).tree.decls.size, decl) := by
    unfold Scoping.declOf?
    rw [noted.trans Resolver.resolutions_bind_self, Option.bind_some]
    show ((program.resolve policy).tree.decls[(program.before policy steps).tree.decls.size]?).map _ = _
    rw [stored]
    rfl
  have copied : .copy value.typeKey (.decl (program.before policy steps).tree.decls.size) tag.position ∈
      program.registrations (program.resolve policy) := by
    refine List.mem_append_right _ (inside.registered (List.mem_cons_of_mem _ ?_))
    unfold nameTargetRegistrations
    simp only [found, kind, if_true, List.mem_singleton]
  refine derives_copy copied (Known.expr distinct (inside.tail List.mem_cons_self) ?_)
  rw [List.append_nil, here]
  exact known

/-- **Every declaration is derivable**, at every place of a program with distinct numbers. -/
theorem known (within : steps <+: program.scopeSteps) :
    program.Known policy steps := by
  induction steps using List.reverseRecOn with
  | nil =>
    intro id inside
    obtain ⟨entry, -, -, kind⟩ := initial_decls (Array.getElem?_eq_getElem inside)
    obtain ⟨decl, stored, older⟩ :=
      (grows_before within).decls (Array.getElem?_eq_getElem inside)
    have seed : ∃ ty, decl.kind.seed? = some ty := by
      have kinds := older.kind
      rw [kind] at kinds
      generalize decl.kind = last at kinds
      cases kinds
      cases entry.kind <;> exact ⟨_, rfl⟩
    obtain ⟨ty, seed⟩ := seed
    exact derives_seed stored seed
  | append_singleton steps step ih =>
    have known := ih ((List.prefix_append _ _).trans within)
    intro id inside
    obtain ⟨was, early⟩ : ∃ was, (program.before policy (steps ++ [step])).tree.decls[id]? = some was :=
      ⟨_, Array.getElem?_eq_getElem inside⟩
    obtain ⟨decl, stored, older⟩ := (grows_before within).decls early
    rw [before_concat] at early inside
    rcases Resolver.take_decls early with ⟨old, before, -⟩ | ⟨rfl, -, introduced⟩
    · exact known id (Resolver.lt_of_stored before)
    · cases seed : decl.kind.seed? with
      | some ty => exact derives_seed stored seed
      | none =>
        -- Without a seed, the step is an assignment that declares its variable.
        obtain ⟨final, node, kind⟩ := DeclKind.assigned_of_seed seed
        have kinds := older.kind
        rw [kind] at kinds
        have plain : was.kind = .assigned final node false := by
          generalize was.kind = first at kinds
          cases kinds
          rfl
        rw [plain] at introduced
        obtain ⟨-, -, name, -, rfl, -⟩ := assignment_of_step
          (within.subset (List.mem_append_right _ List.mem_cons_self)) introduced
        exact derives_assigned distinct known within inside stored kind

theorem derives_expr {expr : Expr}
    (within : (Node.block program.body).Within place (.expr expr)) :
    (program.rules (program.resolve policy)).Derives expr.typeKey :=
  Known.expr distinct within (known distinct within.steps_isPrefix)

/-- The type of an element that is assigned is derivable. -/
theorem derives_slot {tag slot : Tag} {base index value : Expr}
    (within : (Node.block program.body).Within place (.stmt (.assign tag (.element slot base index)
      value final))) : (program.rules (program.resolve policy)).Derives (.node slot.id) := by
  refine .rule (mem_rules.mpr (List.mem_append_right _
    (within.registered (List.mem_cons_of_mem _ List.mem_cons_self)))) rfl fun dep read => ?_
  rcases List.mem_pair.mp read with rfl | rfl
  · exact derives_expr distinct (within.tail (List.mem_cons_of_mem _ List.mem_cons_self))
  · exact derives_expr distinct
      (within.tail (List.mem_cons_of_mem _ (List.mem_cons_of_mem _ List.mem_cons_self)))

/-- **The inputs of every rule of a program are derivable**, whatever else is wrong with it. -/
theorem derives_inputs {rule : Rule Diagnostic}
    (member : rule ∈ (program.rules (program.resolve policy)).rules.toList) :
    ∀ dep ∈ rule.deps, (program.rules (program.resolve policy)).Derives dep := by
  intro dep read
  obtain ⟨place, inner, within, registered⟩ :=
    registration_within (mem_rules.mp member) fun _ _ same => nomatch same
  cases Node.registers registered with
  | rule _ reads =>
    cases reads dep read with
    | part inside => exact derives_expr distinct (within.tail inside)
    | @name tag name resolution same noted =>
      subst same
      exact Known.name distinct ⟨tag.id, name, tag.position⟩ (known distinct within.steps_isPrefix)
        within.steps_isPrefix noted
    | slot same =>
      subst same
      exact derives_slot distinct within

/-- **No rule of a program is left waiting.** -/
theorem idle_eq_nil :
    (program.rules (program.resolve policy)).idle = [] := by
  refine List.filterMap_eq_nil_iff.mpr fun entry listed => ?_
  obtain ⟨rule, index⟩ := entry
  have found := List.mk_mem_zipIdx_iff_getElem?.mp listed
  have fires := ((program.rules (program.resolve policy)).mem_firings
    (Array.getElem?_toList.symm.trans found)).mpr
      (derives_inputs distinct (List.mem_of_getElem? found))
  exact if_pos fires

end Program

end ScopedScript

/-
**The analysis of a program is complete.**

Types are settled for everything that has one, and every name refers to something. No report says
that a type could not be determined:

* `Program.resolve_determined`, `Program.check_determined`, `Block.misplaced_determined`: no pass
  reports an undetermined type;
* `Node.typed`: the numbers of a node that get a type;
* `Program.Accepted.named_bound`, `Program.Accepted.settled`: without problems, every name refers to
  something and every derivable type is settled;
* `Program.analyze_complete`: **no text that can be read has a type that cannot be determined, and an
  analysis without problems leaves nothing out.**
-/

import ScopedScript.Proofs.Determination
import ScopedScript.Proofs.Run

namespace ScopedScript

/-- Whether a problem is one with the structure of a program. -/
def Problem.ofStructure : Problem → Bool
  | .returnOutside | .elsifAfterElse | .elseAfterElse => true
  | _ => false

/-! ### What the passes report -/

theorem clauseProblems_structural (seen : Bool) (branches : List Branch) :
    ∀ diagnostic ∈ clauseProblems seen branches, diagnostic.problem.ofStructure = true := by
  induction branches generalizing seen with
  | nil => exact fun _ member => nomatch member
  | cons first rest ih =>
    obtain ⟨position, condition, body⟩ := first
    intro diagnostic member
    rcases List.mem_append.mp member with here | later
    · split at here
      · cases List.mem_singleton.mp here
        show Problem.ofStructure (if _ then _ else _) = true
        split <;> rfl
      · cases here
    · exact ih _ diagnostic later

mutual

theorem Stmt.misplaced_structural : ∀ (inside : Bool) (stmt : Stmt),
    ∀ diagnostic ∈ stmt.misplaced inside, diagnostic.problem.ofStructure = true
  | true, .ret _ _ => fun _ member => nomatch member
  | false, .ret _ _ => List.forall_mem_singleton.mpr rfl
  | _, .define _ _ _ body => body.misplaced_structural true
  | inside, .cond _ _ body branches =>
    List.forall_mem_append.mpr ⟨List.forall_mem_append.mpr
      ⟨clauseProblems_structural false branches, body.misplaced_structural inside⟩,
      branches_misplaced_structural inside branches⟩
  | inside, .loop _ _ body | inside, .each _ _ _ body => body.misplaced_structural inside
  | _, .expr _ | _, .assign _ _ _ _ => fun _ member => nomatch member

theorem Block.misplaced_structural : ∀ (inside : Bool) (block : Block),
    ∀ diagnostic ∈ block.misplaced inside, diagnostic.problem.ofStructure = true
  | inside, .mk _ stmts => stmts_misplaced_structural inside stmts

theorem stmts_misplaced_structural : ∀ (inside : Bool) (stmts : List Stmt),
    ∀ diagnostic ∈ stmtsMisplaced inside stmts, diagnostic.problem.ofStructure = true
  | _, [] => fun _ member => nomatch member
  | inside, first :: rest => List.forall_mem_append.mpr
    ⟨first.misplaced_structural inside, stmts_misplaced_structural inside rest⟩

theorem branches_misplaced_structural : ∀ (inside : Bool) (branches : List Branch),
    ∀ diagnostic ∈ branchesMisplaced inside branches, diagnostic.problem.ofStructure = true
  | _, [] => fun _ member => nomatch member
  | inside, .mk _ _ body :: rest => List.forall_mem_append.mpr
    ⟨body.misplaced_structural inside, branches_misplaced_structural inside rest⟩

end

theorem Block.misplaced_determined (inside : Bool) (block : Block) :
    ∀ diagnostic ∈ block.misplaced inside, diagnostic.problem ≠ .undetermined := by
  intro diagnostic member same
  have structural := block.misplaced_structural inside diagnostic member
  rw [same] at structural
  cases structural

theorem Diagnostic.mem_insert {diagnostic other : Diagnostic} {diagnostics : List Diagnostic} :
    diagnostic ∈ insert other diagnostics ↔ diagnostic = other ∨ diagnostic ∈ diagnostics := by
  induction diagnostics with
  | nil => simp [insert]
  | cons head tail ih =>
    unfold insert
    split
    · exact List.mem_cons
    · rw [List.mem_cons, ih, List.mem_cons]
      exact or_left_comm

theorem Diagnostic.mem_sort {diagnostic : Diagnostic} {diagnostics : List Diagnostic} :
    diagnostic ∈ sort diagnostics ↔ diagnostic ∈ diagnostics := by
  induction diagnostics with
  | nil => rfl
  | cons head tail ih =>
    show diagnostic ∈ insert head (sort tail) ↔ _
    rw [mem_insert, ih, List.mem_cons]

theorem Problem.code_ne {problem : Problem} (other : problem ≠ .undetermined) :
    problem.code ≠ "S010" := by
  cases problem with
  | undetermined => exact absurd rfl other
  | _ => simp only [code]; decide

namespace Program

variable {program : Program} {policy : Redeclaration}

theorem resolve_determined (program : Program) (policy : Redeclaration) :
    ∀ diagnostic ∈ (program.resolve policy).problems, diagnostic.problem ≠ .undetermined := by
  intro diagnostic member
  rcases List.mem_append.mp member with found | late
  · intro same
    have immediate := problems_before program policy program.scopeSteps diagnostic found
    rw [same] at immediate
    cases immediate
  · obtain ⟨deferred, -, rfl⟩ := List.mem_map.mp late
    unfold Resolver.late
    split <;> exact nofun

/-- What the type check reports is a problem with types, and an undetermined type only if a rule is left
waiting. -/
theorem check_reported {diagnostic : Diagnostic}
    (member : diagnostic ∈ (program.check (program.resolve policy)).errors) :
    diagnostic.problem.ofTypes = true ∧ (diagnostic.problem = .undetermined →
      (program.rules (program.resolve policy)).idle ≠ []) := by
  rcases List.mem_append.mp member with registered | settled
  · obtain ⟨registration, listed, same⟩ := List.mem_filterMap.mp registered
    cases registration <;> cases same
    obtain ⟨place, inner, -, registered⟩ := registration_within listed fun _ _ same => nomatch same
    cases Node.registers registered with
    | problem types determined => exact ⟨types, fun same => absurd same determined⟩
  · rw [RuleSet.errors_solve] at settled
    rcases List.mem_append.mp settled with fired | waits
    · obtain ⟨index, -, complained⟩ := List.mem_filterMap.mp fired
      obtain ⟨rule, found, complained⟩ := Option.bind_eq_some_iff.mp complained
      obtain ⟨place, inner, -, registered⟩ := registration_within
        (mem_rules.mp (Array.mem_toList_iff.mpr (Array.mem_of_getElem? found)))
        fun _ _ same => nomatch same
      unfold Rule.complaint at complained
      split at complained
      · cases complained
      · rename_i types read
        have relaxes := (Node.registers registered).form.relaxes
          (List.forall₂_same.mpr fun ty (_ : ty ∈ types) => .refl ty)
        split at complained
        · cases complained
        · rename_i error computed
          cases complained
          rw [computed] at relaxes
          cases relaxes
          exact ⟨rfl, nofun⟩
    · obtain ⟨rule, idle, rfl⟩ := List.mem_map.mp waits
      exact ⟨rfl, fun _ => List.ne_nil_of_mem idle⟩

/-- **No report of the type check says that a type is undetermined.** -/
theorem check_determined (distinct : program.ids.Nodup) :
    ∀ diagnostic ∈ (program.check (program.resolve policy)).errors,
      diagnostic.problem ≠ .undetermined :=
  fun _ member same => (check_reported member).2 same (idle_eq_nil distinct)

end Program

/-! ### What has a type and what has a meaning -/

/-- The name that a step is about. -/
def ScopeStep.name? : ScopeStep → Option Ident
  | .enter _ _ | .leave => none
  | .use name | .declare name _ | .parameter name _ | .define name _ _ | .assign name _ _ => some name

namespace Node

/-- The numbers of a node that have a type. -/
def typed : Node → List NodeId
  | .expr e => [e.id]
  | .stmt (.assign tag (.name _) _ _) => [tag.id]
  | .stmt (.assign tag (.element slot _ _) _ _) => [tag.id, slot.id]
  | .stmt (.define tag _ _ _) => [tag.id]
  | _ => []

/-- A name of a node is the name of one of its steps. -/
theorem step_of_named {node : Node} {name : Ident} (member : name ∈ node.named) :
    ∃ step ∈ node.scopeSteps, step.name? = some name := by
  cases node with
  | block b => cases member
  | expr e =>
    cases e with
    | name | call =>
      cases List.mem_singleton.mp member
      exact ⟨_, List.mem_cons_self, rfl⟩
    | comprehension tag element binder source filter =>
      cases List.mem_singleton.mp member
      exact ⟨.declare name (.comprehensionVariable tag.id), by simp [scopeSteps, Expr.scopeSteps], rfl⟩
    | _ => cases member
  | stmt s =>
    cases s with
    | assign tag target value final =>
      cases target with
      | name ident =>
        cases List.mem_singleton.mp member
        exact ⟨.assign name tag.id final, by simp [scopeSteps, Stmt.scopeSteps, assignSteps], rfl⟩
      | element => cases member
    | each tag binder source body =>
      cases List.mem_singleton.mp member
      exact ⟨.declare name (.loopVariable tag.id), by simp [scopeSteps, Stmt.scopeSteps], rfl⟩
    | define tag defined params body =>
      rcases List.mem_cons.mp member with rfl | param
      · exact ⟨.define name tag.id params.length, by simp [scopeSteps, Stmt.scopeSteps], rfl⟩
      · obtain ⟨index, inside, rfl⟩ := List.mem_iff_getElem.mp param
        refine ⟨.parameter params[index] index, ?_, rfl⟩
        have listed : .parameter params[index] index ∈ paramSteps params :=
          List.mem_mapIdx.mpr ⟨index, inside, rfl⟩
        simp [scopeSteps, Stmt.scopeSteps, listed]
    | _ => cases member

end Node

namespace Program.Accepted

variable {program : Program} {policy : Redeclaration} {place : List ScopeStep} {node : Node}
  (accepted : program.Accepted policy)
variable {name : Ident} {key : Attribute}

include accepted

/-- The name of every step refers to something. -/
theorem step_bound {step : ScopeStep} (member : step ∈ program.scopeSteps)
    (named : step.name? = some name) :
    ∃ resolution, (program.resolve policy).resolutions[name.id]? = some resolution := by
  obtain ⟨steps, rest, whole⟩ := List.append_of_mem member
  have within : steps ++ [step] <+: program.scopeSteps := ⟨rest, by simp [whole]⟩
  have declares : ∀ {kind : DeclKind}, (program.before policy steps).take policy step =
      (program.before policy steps).declare name kind → name.id ∈ step.noted →
        ∃ resolution, (program.resolve policy).resolutions[name.id]? = some resolution := by
    intro kind same mine
    rw [(noted accepted.distinct within mine).1, same]
    exact ⟨_, Resolver.resolutions_bind_self⟩
  cases step with
  | enter | leave => cases named
  | use =>
    cases named
    obtain ⟨_, _, _, _, _, _, _, noted⟩ := accepted.use within
    exact ⟨_, noted⟩
  | declare =>
    cases named
    exact declares rfl List.mem_cons_self
  | parameter =>
    cases named
    exact declares (accepted.parameter within) List.mem_cons_self
  | define =>
    cases named
    exact declares (accepted.define within) List.mem_cons_self
  | assign =>
    cases named
    rcases accepted.assign within with ⟨_, noted⟩ | ⟨_, _, _, _, _, _, _, _, noted, _⟩
    · exact ⟨_, noted⟩
    · exact ⟨_, noted⟩

/-- **Every name in a program without problems refers to something.** -/
theorem named_bound (within : (Node.block program.body).Within place node)
    (member : name ∈ node.named) :
    ∃ resolution, (program.resolve policy).resolutions[name.id]? = some resolution := by
  obtain ⟨step, taken, named⟩ := Node.step_of_named member
  obtain ⟨rest, whole⟩ := within.steps
  have listed : step ∈ program.scopeSteps := by
    rw [show program.scopeSteps = _ from whole]
    simp [taken]
  exact accepted.step_bound listed named

/-- A name that refers to something refers to a declaration that there is. -/
theorem named_declared (within : (Node.block program.body).Within place node)
    (member : name ∈ node.named) : ∃ resolution decl,
      (program.resolve policy).resolutions[name.id]? = some resolution ∧
      (program.resolve policy).tree.decls[resolution.decl]? = some decl := by
  obtain ⟨resolution, noted⟩ := accepted.named_bound within member
  exact ⟨resolution, _, noted,
    Array.getElem?_eq_getElem (program.refers_before policy program.scopeSteps _ _ noted)⟩

omit accepted in
theorem no_problem (quiet : (program.check (program.resolve policy)).errors = [])
    (within : (Node.block program.body).Within place node) {diagnostic : Diagnostic} :
    .problem diagnostic ∉ node.registered (program.resolve policy) := by
  intro problem
  have reported : diagnostic ∈ (program.check (program.resolve policy)).errors :=
    List.mem_append_left _ (List.mem_filterMap.mpr
      ⟨_, List.mem_append_right _ (within.registered problem), rfl⟩)
  rw [quiet] at reported
  cases reported

theorem no_fail (quiet : (program.check (program.resolve policy)).errors = []) :
    .fail key ∉ program.registrations (program.resolve policy) := by
  intro member
  obtain ⟨place, inner, within, registered⟩ := registration_within member fun _ _ same => nomatch same
  cases Node.registers registered with
  | refused _ problem => exact no_problem quiet within problem
  | unknown _ named missing =>
    obtain ⟨resolution, decl, noted, stored⟩ := accepted.named_declared within named
    cases missing.symm.trans (Scoping.declOf?_eq_some.mpr ⟨resolution, noted, rfl, stored⟩)

/-- **Without problems, every derivable type is settled.** -/
theorem settled (quiet : (program.check (program.resolve policy)).errors = [])
    (derives : (program.rules (program.resolve policy)).Derives key) :
    ∃ ty, (program.types policy).get? key = some (.ready ty) := by
  have fine : ∀ key, (program.rules (program.resolve policy)).slots.get? key ≠ some .failed :=
    fun key failed => accepted.no_fail quiet (listed_of_slots failed)
  have contains := ((program.rules (program.resolve policy)).settled_iff_derives key).mpr derives
  rw [AttributeTable.contains_iff] at contains
  obtain ⟨slot, found⟩ := contains
  cases slot with
  | ready ty => exact ⟨ty, found⟩
  | failed =>
    exact absurd found ((program.rules (program.resolve policy)).solve_unfailed
      (fun position => ⟨.undetermined, position⟩) fine (List.append_eq_nil_iff.mp quiet).2 key)

end Program.Accepted

namespace Program

variable {program : Program} {options : Options} {policy : Redeclaration}

/-- What has a type has one that is derivable. -/
theorem derives_typed (distinct : program.ids.Nodup) {place : List ScopeStep} {node : Node}
    (within : (Node.block program.body).Within place node) {id : NodeId} (member : id ∈ node.typed) :
    (program.rules (program.resolve policy)).Derives (.node id) := by
  have assigned : ∀ {tag : Tag} {target : Target} {value : Expr} {final : Bool},
      node = .stmt (.assign tag target value final) →
        (program.rules (program.resolve policy)).Derives (.node tag.id) := by
    rintro tag target value final rfl
    have copied : .copy value.typeKey (.node tag.id) tag.position ∈
        program.registrations (program.resolve policy) := by
      refine List.mem_append_right _ (within.registered ?_)
      cases target <;> exact List.mem_cons_self
    have first : ([], .expr value) ∈ (Node.stmt (.assign tag target value final)).parts := by
      cases target <;> exact List.mem_cons_self
    exact derives_copy copied (derives_expr distinct (within.tail first))
  cases node with
  | expr e =>
    cases List.mem_singleton.mp member
    exact derives_expr distinct within
  | block b => cases member
  | stmt s =>
    cases s with
    | assign tag target value final =>
      cases target with
      | name ident =>
        cases List.mem_singleton.mp member
        exact assigned rfl
      | element slot base index =>
        rcases List.mem_pair.mp member with rfl | rfl
        · exact assigned rfl
        · exact derives_slot distinct within
    | define tag name params body =>
      cases List.mem_singleton.mp member
      exact derives_set (List.mem_append_right _ (within.registered List.mem_cons_self))
    | _ => cases member

theorem quiet_of_analyze {analysis : Analysis} (analyzed : program.analyze options = .ok analysis) :
    (program.check (program.resolve options.redeclaration)).errors = [] := by
  unfold Program.analyze at analyzed
  simp only at analyzed
  split at analyzed
  · rename_i clean
    have clean := List.isEmpty_iff.mp clean
    exact (List.append_eq_nil_iff.mp (List.append_eq_nil_iff.mp clean).1).2
  · cases analyzed

/-- **Analysis never gives up on a type, and leaves nothing out.** For a program that was read, with
any options: no report says that a type cannot be determined. Without problems, expressions,
assignments, assigned elements and definitions have types, every name that is used, called, assigned,
bound or defined refers to something, and every declaration has a type. -/
theorem analyze_complete {lexemes : List Lexeme} (options : Options)
    (parsed : Program.parse lexemes = .ok program) :
    (∀ diagnostics, program.analyze options = .error diagnostics →
      ∀ diagnostic ∈ diagnostics, diagnostic.report.code ≠ "S010") ∧
    ∀ analysis, program.analyze options = .ok analysis →
      (∀ place node, (Node.block program.body).Within place node →
        (∀ id ∈ node.typed, analysis.types[id]?.isSome) ∧
        ∀ name ∈ node.named, analysis.resolutions[name.id]?.isSome) ∧
      ∀ id < analysis.tree.decls.size, analysis.declTypes[id]?.isSome := by
  have distinct := Program.parse_ids_nodup parsed
  constructor
  · intro diagnostics analyzed diagnostic member
    unfold Program.analyze at analyzed
    simp only at analyzed
    split at analyzed
    · cases analyzed
    · cases analyzed
      refine Problem.code_ne ?_
      rcases List.mem_append.mp (Diagnostic.mem_sort.mp member) with found | misplaced
      · rcases List.mem_append.mp found with names | types
        · exact resolve_determined program _ diagnostic names
        · exact check_determined distinct diagnostic types
      · exact program.body.misplaced_determined false diagnostic misplaced
  · intro analysis analyzed
    obtain ⟨clean, tree, resolutions, types, declTypes⟩ := of_analyze analyzed
    have accepted : program.Accepted options.redeclaration := ⟨distinct, clean⟩
    have quiet := quiet_of_analyze analyzed
    refine ⟨fun place node within => ⟨fun id member => ?_, fun name member => ?_⟩, fun id inside => ?_⟩
    · obtain ⟨ty, found⟩ := accepted.settled quiet (derives_typed distinct within member)
      rw [types, Solution.nodeTypes_eq_ty?]
      exact Option.isSome_iff_exists.mpr ⟨ty, AttributeTable.ty?_eq_some.mpr found⟩
    · obtain ⟨resolution, noted⟩ := accepted.named_bound within member
      rw [resolutions, noted, Option.isSome_some]
    · rw [tree] at inside
      obtain ⟨ty, found⟩ := accepted.settled quiet
        (known distinct (List.prefix_refl _) id inside)
      rw [declTypes, Solution.declTypes_eq_ty?]
      exact Option.isSome_iff_exists.mpr ⟨ty, AttributeTable.ty?_eq_some.mpr found⟩

/-- A text that assigns a variable again in a loop, in front of an assignment to an element. -/
def summing : String :=
  "\n".intercalate ["total = 0", "xs = [n * 2 for n in [1, 2]]", "for x in xs:",
    "  total = total + x", "end", "xs[0] = total", ""]

/-- Whether a block begins with an assignment to a name. -/
def beginsAssigning : Block → Bool
  | .mk _ (.assign _ (.name _) _ _ :: _) => true
  | _ => false

/-- The variable has a type and a meaning at its first assignment, and so have all declarations. -/
theorem analyze_complete_summing : ∃ script, Script.compile summing {} = .ok script ∧
    ∃ lexemes, Program.parse lexemes = .ok script.program ∧
    ∃ block tag name value final rest,
      script.program.body = .mk block (.assign tag (.name name) value final :: rest) ∧
      script.analysis.types[tag.id]?.isSome ∧ script.analysis.types[value.id]?.isSome ∧
      script.analysis.resolutions[name.id]?.isSome ∧
      ∀ id < script.analysis.tree.decls.size, script.analysis.declTypes[id]?.isSome := by
  refine Script.exists_compiled (fun script => beginsAssigning script.program.body)
    (by decide +kernel) fun script compiled first => ?_
  obtain ⟨lexemes, -, compiled⟩ := ok_of_bind compiled
  obtain ⟨program, parsed, compiled⟩ := ok_of_bind compiled
  obtain ⟨analysis, analyzed, compiled⟩ := ok_of_bind compiled
  cases compiled
  obtain ⟨inside, declared⟩ := (analyze_complete {} parsed).2 analysis analyzed
  simp only [beginsAssigning] at first
  split at first
  · rename_i block tag name value final rest body
    have within : (Node.block program.body).Within [.enter .block block.id]
        (.stmt (.assign tag (.name name) value final)) := by
      rw [show program.body = _ from body]
      exact (Node.Within.self _).tail List.mem_cons_self
    refine ⟨lexemes, parsed, block, tag, name, value, final, rest, body,
      (inside _ _ within).1 _ List.mem_cons_self, ?_, (inside _ _ within).2 _ List.mem_cons_self,
      declared⟩
    exact (inside _ _ (within.tail List.mem_cons_self)).1 _ List.mem_cons_self
  · cases first

end Program

end ScopedScript

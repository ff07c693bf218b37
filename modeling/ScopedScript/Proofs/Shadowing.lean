/-
**Definitions that reuse a name.**

A definition that reuses the name of a function of its scope, or a built-in name, is refused or takes the
place of the old one. Where nothing is refused the two policies do the same, at every step of resolution:

* `Resolver.take_shadow`, `Resolver.follow_shadow`: **one step and all steps** under both policies;
* `Program.analyze_shadow`: what is analysed without problems where definitions are refused has the same
  analysis where they are not;
* `Function.repeatedParams`, `Program.repeats_resolve`: where definitions are not refused, the only names
  declared twice that are reported are those of parameters, and all of them are;
* `Script.shadowing_conserves`: both for texts, with the runs of what they compile to.
-/

import ScopedScript.Proofs.Annotation
import ScopedScript.Proofs.Refinement

namespace ScopedScript

/-! ### Nothing refused -/

namespace Resolver

variable {resolver : Resolver}

/-- A step that finds nothing wrong is the same under both policies. -/
theorem take_shadow {step : ScopeStep} (clean : (resolver.take .refuse step).Clean) :
    resolver.take .shadow step = resolver.take .refuse step := by
  cases step with
  | define name node arity =>
    change (resolver.define .refuse name node arity).Clean at clean
    show resolver.define .shadow name node arity = resolver.define .refuse name node arity
    unfold define at clean ⊢
    cases clash : resolver.clash? name.name with
    | none => rfl
    | some decl =>
      rw [clash] at clean
      dsimp only at clean
      split at clean <;> exact absurd clean.1 (by simp [complain])
  | _ => rfl

/-- **Steps that find nothing wrong are the same under both policies.** -/
theorem follow_shadow {steps : List ScopeStep} (clean : (resolver.follow .refuse steps).Clean) :
    resolver.follow .shadow steps = resolver.follow .refuse steps := by
  induction steps generalizing resolver with
  | nil => rfl
  | cons step rest ih =>
    rw [follow_cons] at clean ⊢
    rw [take_shadow (clean_of_follow clean), follow_cons]
    exact ih clean

end Resolver

namespace Program

variable {program : Program} {analysis : Analysis} {depth : Nat}

theorem resolve_shadow (clean : (program.resolve .refuse).problems = []) :
    program.resolve .shadow = program.resolve .refuse := by
  obtain ⟨problems, deferred⟩ := List.append_eq_nil_iff.mp clean
  have same : program.before .shadow program.scopeSteps = program.before .refuse program.scopeSteps :=
    Resolver.follow_shadow ⟨problems, List.map_eq_nil_iff.mp deferred⟩
  exact congrArg (fun last : Resolver => (⟨last.tree, last.resolutions,
    last.problems ++ last.deferred.map (Resolver.late last.tree)⟩ : Scoping)) same

/-- An analysis without problems is the same under both policies. -/
theorem analyze_shadow (analyzed : program.analyze ⟨.refuse, depth⟩ = .ok analysis) :
    program.analyze ⟨.shadow, depth⟩ = .ok analysis := by
  obtain ⟨clean, -⟩ := of_analyze analyzed
  rw [← analyzed]
  unfold analyze
  simp only [resolve_shadow clean]

end Program

/-! ### Names declared twice -/

/-- The parameters whose names were seen before, as problems. -/
def repeatedAfter (seen : List String) : List Ident → List Diagnostic
  | [] => []
  | param :: rest =>
    (if param.name ∈ seen then [⟨.parameterRepeated param.name, param.position⟩] else []) ++
      repeatedAfter (param.name :: seen) rest

/-- The parameters of a function that repeat the name of an earlier one, as problems. -/
def Function.repeatedParams (function : Function) : List Diagnostic := repeatedAfter [] function.params

/-- Whether a diagnostic says that a name is declared twice. -/
def Diagnostic.isRepeat (diagnostic : Diagnostic) : Bool := diagnostic.problem.code == "S006"

namespace Resolver

variable {resolver : Resolver}

/-- The names declared twice that were found so far. -/
def repeats (resolver : Resolver) : List Diagnostic := resolver.problems.filter Diagnostic.isRepeat

theorem repeats_complain (problem : Problem) (name : Ident) (other : problem.code ≠ "S006") :
    (resolver.complain problem name).repeats = resolver.repeats := by
  have plain : Diagnostic.isRepeat ⟨problem, name.position⟩ = false := beq_false_of_ne other
  rw [repeats, complain, List.filter_append, List.filter_cons_of_neg (by simp [plain]),
    List.filter_nil, List.append_nil, repeats]

theorem repeats_define (name : Ident) (node : NodeId) (arity : Nat) :
    (resolver.define .shadow name node arity).repeats = resolver.repeats := by
  unfold define
  split
  · contradiction
  · rfl

theorem repeats_assign (name : Ident) (node : NodeId) (final : Bool) :
    (resolver.assign name node final).repeats = resolver.repeats := by
  unfold assign
  dsimp only
  split
  · rfl
  · split
    · rfl
    · split
      · exact repeats_complain (.builtinAssigned name.name) name (show "S011" ≠ "S006" by decide)
      · split
        · exact repeats_complain (.finalAssigned name.name) name (show "S005" ≠ "S006" by decide)
        · split <;> rfl

/-- The names that steps find to be declared twice. -/
def Finds (steps : List ScopeStep) (found : List Diagnostic) : Prop :=
  ∀ resolver : Resolver, (resolver.follow .shadow steps).repeats = resolver.repeats ++ found

theorem Finds.append {first second : List ScopeStep} {found found' : List Diagnostic}
    (before : Finds first found) (after : Finds second found') : Finds (first ++ second) (found ++ found') := by
  intro resolver
  rw [follow_append, after, before, List.append_assoc]

/-- Only parameters are found to be declared twice. -/
theorem Finds.plain {steps : List ScopeStep} (plain : ∀ name index, .parameter name index ∉ steps) :
    Finds steps [] := by
  intro resolver
  rw [List.append_nil]
  induction steps generalizing resolver with
  | nil => rfl
  | cons step rest ih =>
    rw [follow_cons, ih fun name index later => plain name index (List.mem_cons_of_mem _ later)]
    cases step with
    | enter | leave | declare => rfl
    | use name =>
      show (resolver.use name).repeats = _
      unfold use
      split <;> rfl
    | define name node arity => exact repeats_define name node arity
    | assign name node final => exact repeats_assign name node final
    | parameter name index => exact absurd List.mem_cons_self (plain name index)

theorem getIn?_enter (kind : ScopeKind) (owner : NodeId) (name : String) :
    (resolver.enter kind owner).tree.getIn? (resolver.enter kind owner).current name = none := by
  show (resolver.tree.push kind resolver.current owner).2.getIn? resolver.tree.scopes.size name = none
  rw [ScopeTree.getIn?, ScopeTree.scopes_push_new]
  rfl

/-- A parameter is found to be declared twice if the scope declares its name. -/
theorem repeats_parameter (name : Ident) (index : Nat) :
    (resolver.parameter name index).repeats = resolver.repeats ++
      if (resolver.tree.getIn? resolver.current name.name).isSome then
        [⟨.parameterRepeated name.name, name.position⟩] else [] := by
  unfold parameter
  split
  · exact List.filter_append _ _
  · exact (List.append_nil _).symm

theorem parameter_tree (name : Ident) (index : Nat) : (resolver.parameter name index).tree =
    (resolver.declare name (.parameter index)).tree := by
  unfold parameter
  split <;> rfl

theorem parameter_current (name : Ident) (index : Nat) :
    (resolver.parameter name index).current = resolver.current := by
  unfold parameter
  split <;> rfl

/-- A parameter list, in a scope that declares the names in `seen`. -/
theorem repeats_params (params : List Ident) {seen : List String} (number : Nat → Nat)
    (inside : resolver.current < resolver.tree.scopes.size)
    (known : ∀ name, (resolver.tree.getIn? resolver.current name).isSome = true ↔ name ∈ seen) :
    (resolver.follow .shadow
      (params.mapIdx fun index param => .parameter param (number index))).repeats =
        resolver.repeats ++ repeatedAfter seen params := by
  induction params generalizing resolver seen number with
  | nil => exact (List.append_nil _).symm
  | cons param rest ih =>
    have known' : ∀ name, ((resolver.parameter param (number 0)).tree.getIn?
        (resolver.parameter param (number 0)).current name).isSome = true ↔
          name ∈ param.name :: seen := by
      intro name
      rw [parameter_tree, parameter_current, getIn?_declare inside, List.mem_cons, ← known]
      by_cases same : name = param.name <;> simp [same]
    rw [List.mapIdx_cons, follow_cons]
    refine (ih (fun index => number (index + 1)) ?_ known').trans ?_
    · rw [parameter_tree, parameter_current]
      exact Nat.lt_of_lt_of_eq inside Array.size_modify.symm
    · rw [repeats_parameter, repeatedAfter, List.append_assoc]
      simp only [known]

end Resolver

/-! ### Whole programs -/

section Nodes

open Resolver

/-- The parameters that a function declares twice are found when its scope is opened. -/
theorem finds_opening (tag : Tag) (name : Ident) (params : List Ident) :
    Finds (functionOpening tag name params) (repeatedAfter [] params) := by
  intro resolver
  let opened := (resolver.define .shadow name tag.id params.length).enter .function tag.id
  have inside : opened.current < opened.tree.scopes.size := by
    show _ < (Array.push _ _).size
    rw [Array.size_push]
    exact Nat.lt_succ_self _
  -- the scope of the function is new, so it declares nothing before the parameters
  have known : ∀ name, (opened.tree.getIn? opened.current name).isSome = true ↔ name ∈ [] := by
    intro name
    rw [getIn?_enter]
    exact ⟨nofun, nofun⟩
  refine (repeats_params params id inside known).trans ?_
  exact congrArg (· ++ _) (repeats_define name tag.id params.length)

/-- Stretches find what their parts find, unless they declare parameters themselves. -/
theorem Stretch.finds {row : List Stretch}
    (plain : ∀ name index, .parameter name index ∉ row.flatMap ownSteps)
    (parts : ∀ node, .part node ∈ row →
      Finds node.scopeSteps (node.functions.flatMap Function.repeatedParams)) :
    Finds (row.flatMap steps) ((row.flatMap (of Node.functions)).flatMap Function.repeatedParams) := by
  induction row with
  | nil => exact .plain nofun
  | cons first rest ih =>
    have later := ih (fun name index later => plain name index (List.mem_append_right _ later))
      fun node later => parts node (List.mem_cons_of_mem _ later)
    rw [List.flatMap_cons, List.flatMap_cons, List.flatMap_append]
    cases first with
    | own => exact (Finds.plain fun name index mine => plain name index (List.mem_append_left _ mine)).append later
    | part node => exact (parts node List.mem_cons_self).append later

/-- The parameters that the functions of a node declare twice are found, and nothing else is. -/
theorem Node.finds (node : Node) :
    Finds node.scopeSteps (node.functions.flatMap Function.repeatedParams) := by
  induction node using Node.induction with
  | step node ih =>
    have parts (part : Node) (inside : .part part ∈ node.stretches) :
        Finds part.scopeSteps (part.functions.flatMap Function.repeatedParams) := by
      obtain ⟨offset, listed⟩ := Stretch.exists_part inside
      exact ih _ listed
    rw [scopeSteps_eq, functions_stretches]
    by_cases defines : ∃ tag name params body, node = .stmt (.define tag name params body)
    · obtain ⟨tag, name, params, body, rfl⟩ := defines
      have whole := (finds_opening tag name params).append
        ((parts (.block body) (by simp [stretches])).append (@Finds.plain [.leave] (by simp)))
      simpa [stretches, Stretch.steps, Stretch.of, ownFunctions, Function.repeatedParams] using whole
    · have plain : ∀ name index, .parameter name index ∉ node.ownSteps := by
        intro name index mine
        obtain ⟨tag, name, params, body, rfl⟩ := takenBy_of_mem mine
        exact defines ⟨tag, name, params, body, rfl⟩
      have none : node.ownFunctions = [] := by
        unfold ownFunctions
        split
        · exact absurd ⟨_, _, _, _, rfl⟩ defines
        · rfl
      rw [ownSteps_eq] at plain
      rw [none, List.nil_append]
      exact Stretch.finds plain parts

end Nodes

theorem Problem.code_ne_of_ofTypes {problem : Problem} (types : problem.ofTypes = true) :
    problem.code ≠ "S006" := by
  cases problem with
  | mismatch | argumentCount | notCallable | undetermined => simp only [code]; decide
  | _ => cases types

theorem Problem.code_ne_of_ofStructure {problem : Problem} (misplaced : problem.ofStructure = true) :
    problem.code ≠ "S006" := by
  cases problem with
  | returnOutside | elsifAfterElse | elseAfterElse => decide
  | _ => cases misplaced

namespace Program

variable {program : Program} {depth : Nat}

/-- **The names declared twice that are reported are those of parameters.** -/
theorem repeats_resolve (program : Program) :
    (program.resolve .shadow).problems.filter Diagnostic.isRepeat =
      program.body.functions.flatMap Function.repeatedParams := by
  have found := (Node.block program.body).finds (.initial program.id)
  have late : ∀ (tree : ScopeTree) (deferred : List Deferred),
      (deferred.map (Resolver.late tree)).filter Diagnostic.isRepeat = [] := by
    intro tree deferred
    rw [List.filter_eq_nil_iff]
    intro diagnostic member
    obtain ⟨use, -, rfl⟩ := List.mem_map.mp member
    unfold Resolver.late
    split <;> exact Bool.false_ne_true
  exact (List.filter_append _ _).trans
    (((congrArg (_ ++ ·) (late _ _)).trans (List.append_nil _)).trans found)

/-- What is reported as declared twice where definitions are not refused. -/
theorem repeats_analyze {diagnostics : List Diagnostic}
    (failed : program.analyze ⟨.shadow, depth⟩ = .error diagnostics) (diagnostic : Diagnostic) :
    (diagnostic ∈ diagnostics ∧ diagnostic.report.code = "S006") ↔
      ∃ function ∈ program.body.functions, diagnostic ∈ function.repeatedParams := by
  have named : (diagnostic ∈ (program.resolve .shadow).problems ∧ diagnostic.report.code = "S006") ↔
      ∃ function ∈ program.body.functions, diagnostic ∈ function.repeatedParams := by
    rw [← List.mem_flatMap, ← repeats_resolve, List.mem_filter, Diagnostic.isRepeat, beq_iff_eq]
    rfl
  unfold analyze at failed
  dsimp only at failed
  split at failed
  · cases failed
  · cases failed
    rw [← named, Diagnostic.mem_sort]
    refine and_congr_left fun twice => ⟨fun member => ?_, fun member =>
      List.mem_append_left _ (List.mem_append_left _ member)⟩
    rcases List.mem_append.mp member with found | misplaced
    · rcases List.mem_append.mp found with names | types
      · exact names
      · exact absurd twice (Problem.code_ne_of_ofTypes (check_reported types).1)
    · exact absurd twice (Problem.code_ne_of_ofStructure
        (program.body.misplaced_structural false diagnostic misplaced))

end Program

namespace Script

/-- **Where nothing is refused, shadowing changes nothing.** A text that compiles where definitions that
reuse a name are refused compiles where they are not, to a script with the same analysis and the same
runs, under the same limit on calls. And for every text that can be read, what is reported as declared
twice where they are not refused are the parameters that repeat the name of an earlier one. -/
theorem shadowing_conserves (source : String) (depth : Nat) :
    (∀ script, Script.compile source ⟨.refuse, depth⟩ = .ok script →
      ∃ shadowing, Script.compile source ⟨.shadow, depth⟩ = .ok shadowing ∧
        shadowing.analysis = script.analysis ∧
        ∀ host steps, shadowing.endingAfter steps host =
          script.endingAfter steps host) ∧
    ∀ lexemes program diagnostics, Token.scan source = .ok lexemes →
      Program.parse lexemes = .ok program →
      Script.compile source ⟨.shadow, depth⟩ = .error diagnostics →
      ∀ diagnostic, (diagnostic ∈ diagnostics ∧ diagnostic.report.code = "S006") ↔
        ∃ function ∈ program.body.functions, diagnostic ∈ function.repeatedParams := by
  constructor
  · intro script compiled
    obtain ⟨lexemes, scanned, compiled⟩ := ok_of_bind compiled
    obtain ⟨program, parsed, compiled⟩ := ok_of_bind compiled
    obtain ⟨analysis, analyzed, compiled⟩ := ok_of_bind compiled
    cases compiled
    refine ⟨⟨program, analysis, ⟨.shadow, depth⟩⟩, ?_, rfl, fun _ _ => rfl⟩
    simp only [Script.compile, Script.ofProgram, scanned, parsed, Program.analyze_shadow analyzed, bind,
      Except.bind]
    rfl
  · intro lexemes program diagnostics scanned parsed failed
    simp only [Script.compile, Script.ofProgram, scanned, parsed, bind, Except.bind] at failed
    cases analyzed : program.analyze ⟨.shadow, depth⟩ with
    | ok analysis => rw [analyzed] at failed; cases failed
    | error found =>
      rw [analyzed] at failed
      cases failed
      exact Program.repeats_analyze analyzed

/-- A text that names a function inside another one as it names a later one outside. -/
def nested : String :=
  "\n".intercalate ["def f(n):", "  def g(k):", "    return k + n", "  end", "  return g(n)", "end",
    "println(f(3))", "def g(f):", "  return f", "end", "println(g(4))", ""]

/-- A text that reuses the names of a parameter, of a function and of a built-in one. -/
def reusing : String :=
  "\n".intercalate ["def f(a, a):", "  return a", "end", "def f(b):", "  return b", "end",
    "def len(b):", "  return b", "end", ""]

/-- Two functions called `g` in two scopes are refused in neither way. Of three names declared again the
parameter is reported. -/
theorem shadowing_conserves_nested :
    (∃ script shadowing, Script.compile nested ⟨.refuse, 100⟩ = .ok script ∧
      Script.compile nested ⟨.shadow, 100⟩ = .ok shadowing ∧
      shadowing.analysis = script.analysis ∧
      (script.endingAfter 300 .bare).world.output.bytes = "6\n4\n".toUTF8 ∧
      shadowing.endingAfter 300 .bare = script.endingAfter 300 .bare) ∧
    ∃ lexemes program diagnostics, Token.scan reusing = .ok lexemes ∧
      Program.parse lexemes = .ok program ∧
      Script.compile reusing ⟨.shadow, 100⟩ = .error diagnostics ∧
      (program.body.functions.flatMap Function.repeatedParams).map (fun d => d.position) = [⟨1, 10⟩] ∧
      ∀ diagnostic, (diagnostic ∈ diagnostics ∧ diagnostic.report.code = "S006") ↔
        ∃ function ∈ program.body.functions, diagnostic ∈ function.repeatedParams := by
  constructor
  · obtain ⟨script, compiled, output⟩ : ∃ script,
        Script.compile nested ⟨.refuse, 100⟩ = .ok script ∧
          (script.endingAfter 300 .bare).world.output.bytes = "6\n4\n".toUTF8 :=
      exists_compiled
        (fun script => (script.endingAfter 300 .bare).world.output.bytes = "6\n4\n".toUTF8)
        (by decide +kernel) fun _ _ passes => of_decide_eq_true passes
    obtain ⟨shadowing, compiled', analysis, runs⟩ :=
      (shadowing_conserves nested 100).1 script compiled
    exact ⟨script, shadowing, compiled, compiled', analysis, output, runs .bare 300⟩
  · have read : ((Token.scan reusing).toOption.bind fun lexemes =>
        (Program.parse lexemes).toOption).any (fun program =>
          (program.body.functions.flatMap Function.repeatedParams).map (fun d => d.position) ==
            [⟨1, 10⟩]) = true := by
      decide +kernel
    have fails : (Script.compile reusing ⟨.shadow, 100⟩).isOk = false := by decide +kernel
    cases scanned : Token.scan reusing with
    | error => rw [scanned] at read; cases read
    | ok lexemes =>
      rw [scanned] at read
      cases parsed : Program.parse lexemes with
      | error => simp [parsed, Except.toOption] at read
      | ok program =>
        cases failed : Script.compile reusing ⟨.shadow, 100⟩ with
        | ok script => rw [failed] at fails; cases fails
        | error diagnostics =>
          simp only [parsed, Except.toOption, Option.bind_some, Option.any_some, beq_iff_eq] at read
          exact ⟨lexemes, program, diagnostics, rfl, parsed, rfl, read,
            (shadowing_conserves reusing 100).2 lexemes program diagnostics scanned parsed failed⟩

end Script

end ScopedScript

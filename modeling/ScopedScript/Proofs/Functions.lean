/-
**The functions of a program.**

A call looks a function up by the number of its definition. What it finds is the definition that the
name of the call refers to:

* `Program.mem_functions`, `Program.function_within`: the table of functions holds definitions of the
  program;
* `Program.introduced`: a declared function was declared by a step that defines it;
* `Program.Accepted.callee`: the body of a called function stands among layers that are older than
  those of the call, from the scope of its declaration outward.
-/

import ScopedScript.Proofs.Resolution

namespace ScopedScript

variable {function : Function} {node : NodeId} {arity : Nat}
variable {program : Program} {name : Ident} {kind : DeclKind}

/-! ### The table of functions -/

/-- The functions defined in a node. -/
def Node.functions : Node → List Function
  | .expr _ => []
  | .stmt s => s.functions
  | .block b => b.functions

/-- The function that a node itself defines. -/
def Node.ownFunctions : Node → List Function
  | .stmt (.define tag name params body) => [⟨tag.id, name, params, body⟩]
  | _ => []

namespace Node

@[simp] theorem functions_exprs (items : List Expr) : (Stretch.exprs items).flatMap (Stretch.of functions) = [] :=
  @Stretch.flatMap_exprs _ _ (fun _ => []) rfl (fun _ _ => rfl) items

@[simp] theorem functions_stmts (items : List Stmt) :
    (Stretch.stmts items).flatMap (Stretch.of functions) = stmtsFunctions items :=
  Stretch.flatMap_stmts rfl (fun _ _ => rfl) items

@[simp] theorem functions_branches (clauses : List Branch) :
    (Stretch.branches clauses).flatMap (Stretch.of functions) = branchesFunctions clauses :=
  Stretch.flatMap_branches rfl (fun _ _ _ _ => by simp [branchesFunctions, Stretch.of, functions]) clauses

theorem functions_stretches (node : Node) :
    node.functions = node.ownFunctions ++ node.stretches.flatMap (Stretch.of functions) := by
  cases node with
  | expr e => cases e <;> simp [functions, ownFunctions, stretches, Stretch.of, Stretch.entries, List.flatMap_assoc]
  | stmt s =>
    cases s with
    | assign tag target => cases target <;> simp [functions, ownFunctions, stretches, Stretch.of, Stmt.functions]
    | _ => simp [functions, ownFunctions, stretches, Stretch.of, Stmt.functions]
  | block b =>
    cases b
    simp [functions, ownFunctions, stretches, Stretch.of, Block.functions]

/-- A node defines what it defines itself and what its parts define. -/
theorem functions_eq (node : Node) : node.functions = node.ownFunctions ++ gathered functions node.parts := by
  rw [parts, Stretch.gathered_parts, ← functions_stretches]

end Node

/-- A function is defined inside a node. -/
def Node.Defines (node : Node) (function : Function) : Prop :=
  ∃ rest tag, node.Within rest (.stmt (.define tag function.name function.params function.body)) ∧
    tag.id = function.id

/-- The functions of a node are defined inside it. -/
theorem Node.defines {node : Node} (member : function ∈ node.functions) :
    node.Defines function := by
  obtain ⟨place, inner, within, mine⟩ :=
    exists_within (fun node member => List.mem_append.mp (node.functions_eq ▸ member)) member
  cases inner with
  | stmt s =>
    cases s with
    | define tag name params body =>
      obtain rfl := List.mem_singleton.mp mine
      exact ⟨place, tag, within, rfl⟩
    | _ => cases mine
  | _ => cases mine

theorem Node.Within.functions {outer inner : Node} {rest : List ScopeStep}
    (within : outer.Within rest inner) : inner.functions ⊆ outer.functions := by
  induction within with
  | self node => exact List.Subset.refl _
  | part first _ ih =>
    intro function member
    rw [functions_eq]
    exact List.mem_append_right _ (List.mem_flatMap.mpr ⟨_, first, ih member⟩)

/-- What the table of functions holds is a function of the program, under the number it is found by. -/
theorem Program.mem_functions (found : program.functionTable[node]? = some function) :
    function.id = node ∧ function ∈ program.body.functions := by
  have kept : ∀ (functions : List Function) (table : Std.TreeMap NodeId Function),
      (functions.foldl (fun table function => table.insert function.id function) table)[node]? =
          some function →
        table[node]? = some function ∨ function.id = node ∧ function ∈ functions := by
    intro functions
    induction functions with
    | nil => exact fun table found => .inl found
    | cons first rest ih =>
      intro table found
      rcases ih _ found with found | ⟨same, member⟩
      · rw [Std.TreeMap.getElem?_insert] at found
        split at found
        · rename_i same
          obtain rfl := Option.some.inj found
          exact .inr ⟨Std.LawfulEqCmp.eq_of_compare same, List.mem_cons_self⟩
        · exact .inl found
      · exact .inr ⟨same, List.mem_cons_of_mem _ member⟩
  rcases kept _ _ found with found | listed
  · simp at found
  · exact listed

theorem Program.function_within (found : program.functionTable[node]? = some function) :
    function.id = node ∧ (Node.block program.body).Defines function := by
  obtain ⟨same, member⟩ := mem_functions found
  exact ⟨same, Node.defines member⟩

/-! ### Where names are declared -/

/-- What kind of declaration a step can introduce. -/
def ScopeStep.Introduces : ScopeStep → DeclKind → Prop
  | .declare _ kind, introduced => introduced = kind
  | .parameter _ index, introduced => introduced = .parameter index
  | .define _ node arity, introduced => introduced = .function node arity
  | .assign _ node final, introduced => introduced = .assigned final node false
  | .enter _ _, _ | .leave, _ | .use _, _ => False

theorem ScopeStep.Declares.introduces {step : ScopeStep} (declares : step.Declares name kind) :
    step.Introduces kind := by
  cases declares <;> rfl

theorem ScopeStep.Introduces.defined {step : ScopeStep}
    (introduces : step.Introduces (.function node arity)) : node ∈ step.defined := by
  cases step with
  | enter | leave | use => cases introduces
  | parameter | assign => cases introduces
  | declare | define =>
    cases introduces
    exact List.mem_cons_self

/-- Whether a step declares a built-in name. -/
def ScopeStep.isProvided : ScopeStep → Bool
  | .declare _ (.builtin _) => true
  | _ => false

/-- Programs declare no built-in names. -/
theorem Block.declares_plain (block : Block) :
    block.scopeSteps.any ScopeStep.isProvided = false := by
  refine List.any_eq_false.mpr fun step member provided => ?_
  obtain ⟨place, inner, -, mine⟩ := (Node.block block).step_within member
  cases step with
  | declare name kind => obtain ⟨owner, rfl | rfl⟩ := Node.takenBy_of_mem mine <;> cases provided
  | _ => cases provided

namespace Resolver

variable {policy : Redeclaration} {resolver : Resolver} {id : DeclId} {decl : Decl}

theorem declare_decls (stored : (resolver.declare name kind).tree.decls[id]? = some decl) :
    resolver.tree.decls[id]? = some decl ∨
      id = resolver.tree.decls.size ∧ decl = ⟨name.name, kind, name.position, resolver.current⟩ := by
  change (resolver.tree.decls.push _)[id]? = some decl at stored
  rw [Array.getElem?_push] at stored
  split at stored
  · exact .inr ⟨‹_›, (Option.some.inj stored).symm⟩
  · exact .inl stored

theorem markRebound_decls {tree : ScopeTree} {target : DeclId}
    (stored : (tree.markRebound target).decls[id]? = some decl) :
    ∃ old, tree.decls[id]? = some old ∧ old.Older decl := by
  cases was : tree.decls[id]? with
  | none =>
    rw [ScopeTree.markRebound, Array.getElem?_modify, was] at stored
    simp at stored
  | some old =>
    have grows : tree.Grows (tree.markRebound target) := ScopeTree.grows_markRebound
    obtain ⟨last, stored', older⟩ := grows.decls was
    rw [stored] at stored'
    cases stored'
    exact ⟨old, rfl, older⟩

theorem take_decls {step : ScopeStep}
    (stored : (resolver.take policy step).tree.decls[id]? = some decl) :
    (∃ old, resolver.tree.decls[id]? = some old ∧ old.Older decl) ∨
      id = resolver.tree.decls.size ∧ decl.scope = resolver.current ∧
        step.Introduces decl.kind := by
  have took := took policy resolver step
  generalize resolver.take policy step = later at took stored
  cases took with
  | enter | leave | bound | deferred | refused => exact .inl ⟨decl, stored, .refl decl⟩
  | declared declares =>
    rcases declare_decls stored with stored | ⟨fresh, rfl⟩
    · exact .inl ⟨decl, stored, .refl decl⟩
    · exact .inr ⟨fresh, rfl, declares.introduces⟩
  | repeated =>
    rcases declare_decls stored with stored | ⟨fresh, rfl⟩
    · exact .inl ⟨decl, stored, .refl decl⟩
    · exact .inr ⟨fresh, rfl, rfl⟩
  | assigned => exact .inl (markRebound_decls stored)

end Resolver

namespace Program

variable {program : Program} {policy : Redeclaration} {steps : List ScopeStep}
variable {id : DeclId} {decl : Decl}

theorem initial_decls (stored : (Resolver.initial program.id).tree.decls[id]? = some decl) :
    ∃ entry ∈ Export.standard, decl.name = entry.name ∧ decl.kind = .builtin entry.kind := by
  have kept : ∀ (entries : List Export) (tree : ScopeTree), entries ⊆ Export.standard →
      (∀ decl ∈ tree.decls, ∃ entry ∈ Export.standard,
        decl.name = entry.name ∧ decl.kind = .builtin entry.kind) →
      ∀ decl ∈ (entries.foldl (fun tree entry =>
        (tree.declare ScopeTree.root entry.name (.builtin entry.kind) .nowhere).2) tree).decls,
        ∃ entry ∈ Export.standard, decl.name = entry.name ∧ decl.kind = .builtin entry.kind := by
    intro entries
    induction entries with
    | nil => exact fun tree _ known => known
    | cons entry rest ih =>
      intro tree provided known
      obtain ⟨first, others⟩ := List.cons_subset.mp provided
      refine ih _ others fun decl member => ?_
      rcases Array.mem_push.mp member with member | rfl
      · exact known decl member
      · exact ⟨entry, first, rfl, rfl⟩
  refine kept Export.standard (.new program.id) (List.Subset.refl _) ?_ decl
    (Array.mem_of_getElem? stored)
  intro decl member
  simp [ScopeTree.new] at member

/-- **A built-in declaration is one of those at the beginning**, if no step introduces another. -/
theorem provided_decl {kind : ExportKind} (plain : steps.any ScopeStep.isProvided = false)
    (stored : (program.before policy steps).tree.decls[id]? = some decl)
    (provided : decl.kind = .builtin kind) : ⟨decl.name, kind⟩ ∈ Export.standard := by
  induction steps using List.reverseRecOn generalizing decl with
  | nil =>
    obtain ⟨entry, member, name, builtin⟩ := initial_decls stored
    rw [provided] at builtin
    cases builtin
    rw [name]
    exact member
  | append_singleton steps step ih =>
    rw [before_concat] at stored
    rw [List.any_append, Bool.or_eq_false_iff] at plain
    rcases Resolver.take_decls stored with ⟨old, stored, older⟩ | ⟨-, -, introduced⟩
    · have kinds := older.kind
      rw [provided] at kinds
      rw [older.name]
      refine ih plain.1 stored ?_
      generalize old.kind = before at kinds
      cases kinds
      rfl
    · rw [provided] at introduced
      cases step with
      | declare name declared =>
        cases introduced
        simp [ScopeStep.isProvided] at plain
      | _ => cases introduced

/-- A function was declared, in the scope that was then current, by a step that introduces it. -/
theorem introduced (stored : (program.before policy steps).tree.decls[id]? = some decl)
    (function : decl.kind = .function node arity) :
    ∃ earlier step, earlier ++ [step] <+: steps ∧ step.Introduces (.function node arity) ∧
      id = (program.before policy earlier).tree.decls.size ∧
      decl.scope = (program.before policy earlier).current := by
  induction steps using List.reverseRecOn generalizing decl with
  | nil =>
    obtain ⟨entry, -, -, builtin⟩ := initial_decls stored
    rw [function] at builtin
    cases builtin
  | append_singleton steps step ih =>
    rw [before_concat] at stored
    rcases Resolver.take_decls stored with ⟨old, stored, older⟩ | ⟨fresh, placed, introduces⟩
    · obtain ⟨earlier, step', within, introduces, fresh, placed⟩ :=
        ih stored (older.kind.function_iff.mp function)
      exact ⟨earlier, step', within.trans (List.prefix_append _ _), introduces, fresh,
        older.scope.trans placed⟩
    · rw [function] at introduces
      exact ⟨steps, step, List.prefix_refl _, introduces, fresh, placed⟩

/-- The scope around a scope is the one in which it was opened. -/
theorem parent_opened {kind : ScopeKind} {owner : NodeId}
    (within : steps ++ [.enter kind owner] <+: program.scopeSteps) :
    (program.resolve policy).tree.parent? (program.before policy steps).tree.scopes.size =
      some (program.before policy steps).current := by
  have grows : (program.before policy (steps ++ [.enter kind owner])).tree.Grows _ :=
    grows_before within
  rw [before_concat] at grows
  obtain ⟨entry, found, older⟩ := grows.scopes ScopeTree.scopes_push_new
  rw [ScopeTree.parent?, found, Option.bind_some, older.parent]

/-- What a call finds: where the function is defined, and the layers around that place, which are
layers of the call with the names they had then. -/
structure Callee (program : Program) (policy : Redeclaration) (steps : List ScopeStep)
    (function : Function) (tag : Tag) (origin : List ScopeStep) (inner : List Layer)
    (layer : Layer) (outer : List Layer) : Prop where
  within : (Node.block program.body).Within origin
    (.stmt (.define tag function.name function.params function.body))
  number : tag.id = function.id
  scope : layer.scope = (program.before policy origin).current
  around : (program.before policy steps).layers = inner ++ layer :: outer
  older : List.Forall₂ (fun old new => new.scope = old.scope ∧ old.names <:+ new.names)
    (program.before policy (origin ++ [.define function.name tag.id function.params.length])).layers
    (layer :: outer)

theorem Callee.opening {tag : Tag} {origin : List ScopeStep} {inner outer : List Layer}
    {layer : Layer} (callee : program.Callee policy steps function tag origin inner layer outer) :
    origin ++ functionOpening tag function.name function.params <+: program.scopeSteps := by
  refine List.IsPrefix.trans ?_ callee.within.steps_isPrefix
  refine (List.prefix_append_right_inj origin).mpr ⟨function.body.scopeSteps ++ [.leave], ?_⟩
  simp [Node.scopeSteps, Stmt.scopeSteps, functionOpening]

namespace Accepted

variable (accepted : program.Accepted policy)

include accepted

/-- **A call reaches the definition that its name refers to**, from a place where the scope of that
definition is still around. -/
theorem callee {callee : Ident} {resolution : Resolution}
    (within : steps ++ [.use callee] <+: program.scopeSteps)
    (resolved : (program.resolve policy).resolutions[callee.id]? = some resolution)
    (stored : (program.resolve policy).tree.decls[resolution.decl]? = some decl)
    (kind : decl.kind = .function node arity) (found : program.functionTable[node]? = some function) :
    ∃ tag origin inner layer outer, layer.scope = resolution.scope ∧
      program.Callee policy steps function tag origin inner layer outer := by
  obtain ⟨inner, layer, outer, id, around, latest, -, noted⟩ := accepted.use within
  rw [resolved] at noted
  cases noted
  have formed := program.formed_before policy steps
  have member : layer ∈ (program.before policy steps).layers := by
    rw [around]
    exact List.mem_append_right _ List.mem_cons_self
  -- the declaration was there at the call, with the same kind and in the scope of the layer
  obtain ⟨early, stored', -, placed⟩ := formed.listed member (Layer.mem_of_lookup latest)
  have earlier : (program.before policy steps).tree.Grows (program.resolve policy).tree :=
    grows_before ((List.prefix_append _ _).trans within)
  obtain ⟨last, stored'', older⟩ := earlier.decls stored'
  rw [stored] at stored''
  cases stored''
  obtain ⟨before, step, first, introduces, -, placed'⟩ :=
    introduced stored' (older.kind.function_iff.mp kind)
  -- the definition in the table is the one that declared it
  obtain ⟨rfl, origin, tag, inside, number⟩ := function_within found
  have there : origin ++ [.define function.name tag.id function.params.length] <+:
      program.scopeSteps := by
    refine List.IsPrefix.trans ?_ inside.steps_isPrefix
    exact (List.prefix_append_right_inj origin).mpr ⟨_, rfl⟩
  have here : before ++ [step] <+: program.scopeSteps :=
    first.trans ((List.prefix_append _ _).trans within)
  obtain rfl := prefix_unique (nodup_steps accepted.distinct frugal_defined) here there
    introduces.defined (by rw [← number]; exact List.mem_cons_self)
  have same : before ++ [step] = before ++ [.define function.name tag.id function.params.length] :=
    (List.prefix_of_prefix_length_le here there (by simp)).eq_of_length (by simp)
  rw [same] at first
  obtain ⟨rest, rfl⟩ := first
  have scope : layer.scope = (program.before policy before).current := by rw [← placed, placed']
  have split := around
  rw [before_append] at split
  refine ⟨tag, before, inner, layer, outer, rfl, inside, number, scope, around,
    Resolver.layers_older (program.formed_before policy _) split ?_⟩
  rw [before_concat, accepted.define there, scope]
  rfl

end Accepted

end Program

end ScopedScript

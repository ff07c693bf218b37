/-
**The scopes of a program with other numbers.**

All tables of the analysis have the numbers of nodes as keys. With other numbers, the entries move along,
as long as different numbers stay different. Scopes and declarations have numbers of their own, which do
not change:

* `Moved`: a table with its entries at other numbers;
* `ScopeTree.Renumbered`: the same tree of scopes, in which every search finds the same;
* `Resolver.Renumbered.take`, `Resolver.Renumbered.foldl`: **one step and all steps of resolution**;
* `Program.resolve_renumber`: the same problems with names, and the same tree under other numbers.
-/

import ScopedScript.Proofs.Renumbering

set_option linter.unusedSectionVars false

namespace ScopedScript

/-! ### Tables -/

/-- The entries of a table, each moved from `id` to `f id`. -/
def Moved {α : Type} (f : NodeId → NodeId) (table moved : Std.TreeMap NodeId α) : Prop :=
  ∀ id entry, moved[id]? = some entry ↔ ∃ old, f old = id ∧ table[old]? = some entry

namespace Moved

variable {α β : Type} {f : NodeId → NodeId} {table moved : Std.TreeMap NodeId α}

theorem empty : Moved f (∅ : Std.TreeMap NodeId α) ∅ := by
  intro id entry
  simp only [Std.TreeMap.getElem?_emptyc, reduceCtorEq, and_false, exists_const]

theorem get (move : Moved f table moved) (injective : f.Injective) (id : NodeId) :
    moved[f id]? = table[id]? := by
  refine Option.ext fun entry => (move (f id) entry).trans ⟨?_, fun found => ⟨id, rfl, found⟩⟩
  rintro ⟨old, same, found⟩
  rwa [injective same] at found

theorem contains (move : Moved f table moved) (injective : f.Injective) (id : NodeId) :
    moved.contains (f id) = table.contains id := by
  rw [Std.TreeMap.contains_eq_isSome_getElem?, move.get injective,
    Std.TreeMap.contains_eq_isSome_getElem?]

theorem insert (move : Moved f table moved) (injective : f.Injective) (id : NodeId) (entry : α) :
    Moved f (table.insert id entry) (moved.insert (f id) entry) := by
  intro key found
  simp only [Std.TreeMap.getElem?_insert, Nat.compare_eq_eq]
  by_cases same : f id = key
  · subst same
    rw [if_pos rfl]
    constructor
    · exact fun found => ⟨id, rfl, (if_pos rfl).trans found⟩
    · rintro ⟨old, same, found⟩
      rwa [if_pos (injective same).symm] at found
  · rw [if_neg same, move]
    refine exists_congr fun old => and_congr_right fun moves => ?_
    rw [if_neg]
    rintro rfl
    exact same moves

theorem filterMap (move : Moved f table moved) (keep : α → Option β) :
    Moved f (table.filterMap fun _ => keep) (moved.filterMap fun _ => keep) := by
  intro id entry
  simp only [Std.TreeMap.getElem?_filterMap, Option.pbind_eq_some_iff]
  constructor
  · rintro ⟨found, member, kept⟩
    obtain ⟨old, moves, source⟩ := (move id found).mp member
    exact ⟨old, moves, found, source, kept⟩
  · rintro ⟨old, moves, found, member, kept⟩
    exact ⟨found, (move id found).mpr ⟨old, moves, member⟩, kept⟩

end Moved

/-! ### Trees of scopes -/

/-- The same declaration with another node. -/
def Decl.renumber (f : NodeId → NodeId) (decl : Decl) : Decl :=
  { decl with kind := decl.kind.renumber f }

/-- The same scope with another owner. -/
def Scope.renumber (f : NodeId → NodeId) (scope : Scope) : Scope :=
  { scope with owner := f scope.owner }

namespace Decl

variable {f : NodeId → NodeId}

@[simp] theorem isFinal_renumber (decl : Decl) : (decl.renumber f).isFinal = decl.isFinal := by
  obtain ⟨name, kind, position, scope⟩ := decl
  cases kind with
  | assigned final => cases final <;> rfl
  | _ => rfl

@[simp] theorem isFunction_renumber (decl : Decl) : (decl.renumber f).isFunction = decl.isFunction := by
  obtain ⟨name, kind, position, scope⟩ := decl
  cases kind <;> rfl

@[simp] theorem isBuiltin_renumber (decl : Decl) : (decl.renumber f).isBuiltin = decl.isBuiltin := by
  obtain ⟨name, kind, position, scope⟩ := decl
  cases kind <;> rfl

end Decl

/-- The same tree of scopes for nodes with other numbers. -/
structure ScopeTree.Renumbered (f : NodeId → NodeId) (tree other : ScopeTree) : Prop where
  scopes : other.scopes = tree.scopes.map (Scope.renumber f)
  decls : other.decls = tree.decls.map (Decl.renumber f)
  owners : Moved f tree.owners other.owners

theorem map_modify {α : Type} {g change other : α → α} (entries : Array α) (index : Nat)
    (commutes : ∀ entry, g (change entry) = other (g entry)) :
    (entries.modify index change).map g = (entries.map g).modify index other := by
  refine Array.ext_getElem? fun place => ?_
  simp only [Array.getElem?_map, Array.getElem?_modify]
  split
  · simp only [Option.map_map]
    exact Option.map_congr fun entry _ => commutes entry
  · rfl

namespace ScopeTree.Renumbered

variable {f : NodeId → NodeId} {tree other : ScopeTree}

section Walks

variable (same : tree.Renumbered f other)

include same

theorem scope? (scope : ScopeId) : other.scopes[scope]? = tree.scopes[scope]?.map (Scope.renumber f) := by
  rw [same.scopes, Array.getElem?_map]

theorem decl? (decl : DeclId) : other.decls[decl]? = tree.decls[decl]?.map (Decl.renumber f) := by
  rw [same.decls, Array.getElem?_map]

theorem parent? (scope : ScopeId) : other.parent? scope = tree.parent? scope := by
  rw [ScopeTree.parent?, same.scope?, Option.bind_map]
  rfl

theorem getIn? (scope : ScopeId) (name : String) : other.getIn? scope name = tree.getIn? scope name := by
  rw [ScopeTree.getIn?, same.scope?, Option.bind_map]
  rfl

/-- A walk that does not look at the owners of scopes ends in the same way. -/
theorem walk {α : Type} {visit : ScopeId → Scope → Option (Option α)}
    (blind : ∀ scope (entry : Scope), visit scope (entry.renumber f) = visit scope entry)
    (bound : Nat) (scope : ScopeId) : other.walk visit bound scope = tree.walk visit bound scope := by
  induction bound generalizing scope with
  | zero => rfl
  | succ bound ih =>
    rw [ScopeTree.walk, ScopeTree.walk, same.scope?]
    cases tree.scopes[scope]? with
    | none => rfl
    | some entry =>
      have inside : (entry.renumber f).parent = entry.parent := rfl
      simp only [Option.map_some, blind, inside, ih]

theorem lookup (scope : ScopeId) (name : String) : other.lookup scope name = tree.lookup scope name :=
  same.walk (fun _ _ => rfl) _ scope

theorem lookupAssignable (scope : ScopeId) (name : String) :
    other.lookupAssignable scope name = tree.lookupAssignable scope name :=
  same.walk (fun _ _ => rfl) _ scope

theorem late : Resolver.late other = Resolver.late tree := by
  funext deferred
  rw [Resolver.late, same.lookup, ← Resolver.late]

end Walks

theorem new (injective : f.Injective) (owner : NodeId) :
    (ScopeTree.new owner).Renumbered f (ScopeTree.new (f owner)) :=
  ⟨by simp [ScopeTree.new, Scope.renumber], by simp [ScopeTree.new],
    Moved.empty.insert injective owner root⟩

theorem push (same : tree.Renumbered f other) (injective : f.Injective) (kind : ScopeKind)
    (parent : ScopeId) (owner : NodeId) :
    (tree.push kind parent owner).2.Renumbered f (other.push kind parent (f owner)).2 := by
  have size : other.scopes.size = tree.scopes.size := by rw [same.scopes, Array.size_map]
  refine ⟨?_, same.decls, ?_⟩
  · simp only [ScopeTree.push, same.scopes, Array.map_push]
    rfl
  · simp only [ScopeTree.push, size]
    exact same.owners.insert injective owner _

theorem declare (same : tree.Renumbered f other) (scope : ScopeId) (name : String) (kind : DeclKind)
    (position : Position) :
    (tree.declare scope name kind position).2.Renumbered f
      (other.declare scope name (kind.renumber f) position).2 := by
  have size : other.decls.size = tree.decls.size := by rw [same.decls, Array.size_map]
  refine ⟨?_, ?_, same.owners⟩
  · simp only [ScopeTree.declare, same.scopes, size]
    refine (map_modify _ _ ?_).symm
    exact fun _ => rfl
  · simp only [ScopeTree.declare, same.decls, Array.map_push]
    rfl

theorem markRebound (same : tree.Renumbered f other) (decl : DeclId) :
    (tree.markRebound decl).Renumbered f (other.markRebound decl) := by
  refine ⟨same.scopes, ?_, same.owners⟩
  simp only [ScopeTree.markRebound, same.decls]
  refine (map_modify _ _ fun entry => ?_).symm
  obtain ⟨name, kind, position, scope⟩ := entry
  cases kind <;> rfl

end ScopeTree.Renumbered

/-! ### Resolution -/

/-- Resolution of the same program with other numbers, as far as it has come. -/
structure Resolver.Renumbered (f : NodeId → NodeId) (resolver other : Resolver) : Prop where
  tree : resolver.tree.Renumbered f other.tree
  current : other.current = resolver.current
  resolutions : Moved f resolver.resolutions other.resolutions
  deferred : other.deferred = resolver.deferred
  problems : other.problems = resolver.problems

namespace Resolver.Renumbered

variable {f : NodeId → NodeId} {resolver other : Resolver}

theorem initial (injective : f.Injective) (owner : NodeId) :
    (Resolver.initial owner).Renumbered f (Resolver.initial (f owner)) := by
  refine ⟨?_, rfl, Moved.empty, rfl, rfl⟩
  show ScopeTree.Renumbered f (Resolver.builtins owner) (Resolver.builtins (f owner))
  unfold Resolver.builtins
  refine List.foldl_rel (r := ScopeTree.Renumbered f) (ScopeTree.Renumbered.new injective owner) ?_
  exact fun entry _ _ _ same => same.declare _ _ (.builtin entry.kind) _

section Effects

variable (same : resolver.Renumbered f other)

include same

theorem complain (problem : Problem) (name : Ident) :
    (resolver.complain problem name).Renumbered f (other.complain problem (name.renumber f)) := by
  refine ⟨same.tree, same.current, same.resolutions, same.deferred, ?_⟩
  simp only [Resolver.complain, same.problems]
  rfl

theorem leave : resolver.leave.Renumbered f other.leave := by
  refine ⟨same.tree, ?_, same.resolutions, same.deferred, same.problems⟩
  simp only [Resolver.leave, same.tree.parent?, same.current]

theorem decl?_filter (id : DeclId) {test : Decl → Bool}
    (blind : ∀ decl : Decl, test (decl.renumber f) = test decl) :
    other.tree.decls[id]?.filter test = (resolver.tree.decls[id]?.filter test).map (Decl.renumber f) := by
  rw [same.tree.decl?]
  cases resolver.tree.decls[id]? with
  | none => rfl
  | some decl =>
    simp only [Option.map_some, Option.filter_some, blind]
    split <;> rfl

theorem clash? (name : String) :
    other.clash? name = (resolver.clash? name).map (Decl.renumber f) := by
  simp only [Resolver.clash?, same.tree.getIn?, same.tree.lookup, same.current,
    same.decl?_filter _ Decl.isFunction_renumber, same.decl?_filter _ Decl.isBuiltin_renumber]
  show Option.orElse _ _ = Option.map _ (Option.orElse _ _)
  rw [Option.orElse_eq_or, Option.orElse_eq_or, Option.map_or, Option.map_bind, Option.map_bind]
  rfl

variable (injective : f.Injective)

include injective

theorem bind (name : Ident) (resolution : Resolution) :
    (resolver.bind name resolution).Renumbered f (other.bind (name.renumber f) resolution) :=
  ⟨same.tree, same.current, same.resolutions.insert injective name.id resolution, same.deferred,
    same.problems⟩

theorem declare (name : Ident) (kind : DeclKind) :
    (resolver.declare name kind).Renumbered f (other.declare (name.renumber f) (kind.renumber f)) := by
  have size : other.tree.decls.size = resolver.tree.decls.size := by
    rw [same.tree.decls, Array.size_map]
  refine ⟨?_, same.current, ?_, same.deferred, same.problems⟩
  · show ScopeTree.Renumbered f _
      (other.tree.declare other.current name.name (kind.renumber f) name.position).2
    rw [same.current]
    exact same.tree.declare _ _ _ _
  · show Moved f _ (other.resolutions.insert (f name.id) ⟨other.current, other.tree.decls.size⟩)
    rw [same.current, size]
    exact same.resolutions.insert injective _ _

theorem enter (kind : ScopeKind) (owner : NodeId) :
    (resolver.enter kind owner).Renumbered f (other.enter kind (f owner)) := by
  refine ⟨?_, ?_, same.resolutions, same.deferred, same.problems⟩
  · show ScopeTree.Renumbered f _ (other.tree.push kind other.current (f owner)).2
    rw [same.current]
    exact same.tree.push injective _ _ _
  · exact (congrArg Array.size same.tree.scopes).trans Array.size_map

theorem use (name : Ident) : (resolver.use name).Renumbered f (other.use (name.renumber f)) := by
  have found : other.tree.lookup other.current (name.renumber f).name =
      resolver.tree.lookup resolver.current name.name := by
    rw [same.current, same.tree.lookup]
    rfl
  unfold Resolver.use
  rw [found]
  cases resolver.tree.lookup resolver.current name.name with
  | some place => exact same.bind injective name _
  | none =>
    refine ⟨same.tree, same.current, same.resolutions, ?_, same.problems⟩
    simp only [same.deferred, same.current]
    rfl

theorem define (policy : Redeclaration) (name : Ident) (node : NodeId) (arity : Nat) :
    (resolver.define policy name node arity).Renumbered f
      (other.define policy (name.renumber f) (f node) arity) := by
  have declared := same.declare injective name (.function node arity)
  have clash : other.clash? (name.renumber f).name = (resolver.clash? name.name).map (Decl.renumber f) :=
    same.clash? name.name
  unfold Resolver.define
  rw [clash]
  cases policy with
  | shadow => exact declared
  | refuse =>
    cases resolver.clash? name.name with
    | none => exact declared
    | some decl =>
      simp only [Option.map_some, Decl.isBuiltin_renumber]
      split
      · exact same.complain _ name
      · exact same.complain _ name

theorem parameter (name : Ident) (index : Nat) :
    (resolver.parameter name index).Renumbered f (other.parameter (name.renumber f) index) := by
  have found : other.tree.getIn? other.current (name.renumber f).name =
      resolver.tree.getIn? resolver.current name.name := by
    rw [same.current, same.tree.getIn?]
    rfl
  simp only [Resolver.parameter, found]
  split
  · exact (same.complain _ name).declare injective name (.parameter index)
  · exact same.declare injective name (.parameter index)

theorem assign (name : Ident) (node : NodeId) (final : Bool) :
    (resolver.assign name node final).Renumbered f
      (other.assign (name.renumber f) (f node) final) := by
  have declared := same.declare injective name (.assigned final node false)
  have found : other.tree.lookupAssignable other.current (name.renumber f).name =
      resolver.tree.lookupAssignable resolver.current name.name := by
    rw [same.current, same.tree.lookupAssignable]
    rfl
  unfold Resolver.assign
  dsimp only
  rw [found]
  cases resolver.tree.lookupAssignable resolver.current name.name with
  | none => exact declared
  | some place =>
    obtain ⟨scope, id⟩ := place
    dsimp only
    rw [same.tree.decl?]
    cases resolver.tree.decls[id]? with
    | none => exact declared
    | some decl =>
      simp only [Option.map_some, Decl.isBuiltin_renumber, Decl.isFinal_renumber,
        Decl.isFunction_renumber, same.current]
      split
      · exact same.complain _ name
      · split
        · exact same.complain _ name
        · split
          · exact declared
          · have marked : Renumbered f { resolver with tree := resolver.tree.markRebound id }
                { other with tree := other.tree.markRebound id, current := resolver.current } :=
              ⟨same.tree.markRebound id, rfl, same.resolutions, same.deferred, same.problems⟩
            exact marked.bind injective name _

/-- **One step of resolution.** -/
theorem take (policy : Redeclaration) (step : ScopeStep) :
    (resolver.take policy step).Renumbered f (other.take policy (step.renumber f)) := by
  cases step with
  | enter kind owner => exact same.enter injective kind owner
  | leave => exact same.leave
  | use name => exact same.use injective name
  | declare name kind => exact same.declare injective name kind
  | parameter name index => exact same.parameter injective name index
  | define name node arity => exact same.define injective policy name node arity
  | assign name node final => exact same.assign injective name node final

end Effects

/-- **All steps of resolution.** -/
theorem foldl (same : resolver.Renumbered f other) (injective : f.Injective) (policy : Redeclaration)
    (steps : List ScopeStep) :
    (steps.foldl (Resolver.take policy) resolver).Renumbered f
      ((steps.map (ScopeStep.renumber f)).foldl (Resolver.take policy) other) := by
  rw [List.foldl_map]
  exact List.foldl_rel (r := Renumbered f) same fun step _ _ _ same => same.take injective policy step

end Resolver.Renumbered

/-- What resolution found for the same program with other numbers. -/
structure Scoping.Renumbered (f : NodeId → NodeId) (scoping other : Scoping) : Prop where
  tree : scoping.tree.Renumbered f other.tree
  resolutions : Moved f scoping.resolutions other.resolutions
  problems : other.problems = scoping.problems

/-- **Resolution finds the same for a program with other numbers.** -/
theorem Program.resolve_renumber {f : NodeId → NodeId} (injective : f.Injective) (program : Program)
    (policy : Redeclaration) :
    (program.resolve policy).Renumbered f ((program.renumber f).resolve policy) := by
  have final : (program.scopeSteps.foldl (Resolver.take policy) (.initial program.id)).Renumbered f
      ((program.renumber f).scopeSteps.foldl (Resolver.take policy)
        (.initial (program.renumber f).id)) := by
    rw [show (program.renumber f).scopeSteps = _ from (Node.block program.body).scopeSteps_renumber f]
    exact (Resolver.Renumbered.initial injective program.id).foldl injective policy _
  refine ⟨final.tree, final.resolutions, ?_⟩
  show _ ++ List.map _ _ = _
  rw [final.problems, final.deferred, final.tree.late]
  rfl

end ScopedScript

/-
**Numbers that stand for something.**

Scopes and declarations refer to each other by number. Nodes may share their ids, so that what is noted
for one node is overwritten by another, but whatever is noted is the number of a scope or a declaration
that exists:

* `ScopeTree.Indexed`: a tree whose numbers all stand for something, and whose scopes are inside older
  ones, so that every walk outward comes to an end;
* `ScopeTree.Built.recorded`, `ScopeTree.Built.owned`: the two lists of the declarations of a scope
  agree, and what is noted for a node is a scope that it opened;
* `Resolver.Placed`: what every step keeps besides the form of the tree;
* `Resolver.Indexed`: the same of what is noted for names, and of names put off;
* `Program.indexed_before`: **so it is before every step of resolution**, whatever the program.
-/

import ScopedScript.Proofs.Sight

namespace ScopedScript

namespace ScopeTree

variable {tree newer : ScopeTree} {scope : ScopeId} {name : String} {id : DeclId}

/-! ### Trees -/

/-- The declarations that scopes list and the scopes that nodes opened are there. -/
structure Tallied (tree : ScopeTree) : Prop where
  declarations : ∀ ⦃scope : ScopeId⦄ ⦃entry : Scope⦄, tree.scopes[scope]? = some entry →
    ∀ id ∈ entry.declarations, id < tree.decls.size
  owners : ∀ ⦃node : NodeId⦄ ⦃scope : ScopeId⦄, tree.owners[node]? = some scope →
    scope < tree.scopes.size

/-- Every number in a tree is that of a scope or a declaration that it has. -/
structure Indexed (tree : ScopeTree) : Prop extends tree.Tallied where
  root : ScopeTree.root < tree.scopes.size
  parents : ∀ ⦃scope parent : ScopeId⦄ ⦃entry : Scope⦄, tree.scopes[scope]? = some entry →
    entry.parent = some parent → parent < scope
  names : ∀ ⦃scope : ScopeId⦄ ⦃entry : Scope⦄, tree.scopes[scope]? = some entry →
    ∀ named ∈ entry.names, named.2 < tree.decls.size
  decls : ∀ ⦃id : DeclId⦄ ⦃decl : Decl⦄, tree.decls[id]? = some decl →
    decl.scope < tree.scopes.size
  /-- A walk outward comes to an end, at a scope inside nothing. -/
  walks : ∀ ⦃scope : ScopeId⦄, scope < tree.scopes.size →
    Ascent tree.links scope (tree.ancestors scope)

/-! ### What every step keeps -/

theorem Grows.scopes_size_le (grows : tree.Grows newer) : tree.scopes.size ≤ newer.scopes.size := by
  rcases Nat.eq_zero_or_pos tree.scopes.size with none | some
  · rw [none]
    exact Nat.zero_le _
  · obtain ⟨entry, found, -⟩ :=
      grows.scopes (Array.getElem?_eq_getElem (Nat.sub_one_lt_of_lt some))
    exact Nat.le_of_pred_lt (Formed.lt_size found)

/-- A scope lists its declarations by name as it lists them in order, but later ones first. -/
theorem Built.recorded (built : tree.Built) {entry : Scope}
    (found : tree.scopes[scope]? = some entry) :
    entry.declarations.toList = (entry.names.map Prod.snd).reverse := by
  induction built generalizing entry with
  | new owner =>
    rcases scope with _ | scope
    · cases found
      rfl
    · cases found
  | push _ _ _ _ ih =>
    rw [ScopeTree.push, Array.getElem?_push] at found
    split at found
    · cases found
      rfl
    · exact ih found
  | declare _ _ _ _ _ ih =>
    rw [scopes_declare] at found
    split at found
    · obtain ⟨before, was, rfl⟩ := Option.map_eq_some_iff.mp found
      simp [declared, ih was]
    · exact ih found
  | rebound _ _ ih => exact ih found

/-- What is noted for a node is a scope that the node opened. -/
theorem Built.owned (built : tree.Built) {node : NodeId} (noted : tree.scopeOf? node = some scope) :
    ∃ entry, tree.scopes[scope]? = some entry ∧ entry.owner = node := by
  induction built with
  | new owner =>
    rw [scopeOf?, ScopeTree.new, Std.TreeMap.getElem?_insert] at noted
    split at noted
    · rename_i same
      cases noted
      exact ⟨_, rfl, Std.LawfulEqCmp.eq_of_compare same⟩
    · cases Std.TreeMap.getElem?_emptyc.symm.trans noted
  | push kind owner _ _ ih =>
    rw [scopeOf?, ScopeTree.push, Std.TreeMap.getElem?_insert] at noted
    split at noted
    · rename_i same
      cases noted
      exact ⟨_, scopes_push_new, Std.LawfulEqCmp.eq_of_compare same⟩
    · obtain ⟨entry, found, same⟩ := ih noted
      exact ⟨entry, (scopes_push_old (Formed.lt_size found)).trans found, same⟩
  | declare _ _ _ _ _ ih =>
    obtain ⟨entry, found, same⟩ := ih noted
    rw [scopes_declare, found]
    split
    · exact ⟨_, rfl, same⟩
    · exact ⟨entry, rfl, same⟩
  | rebound _ _ ih => exact ih noted

theorem Built.tallied (built : tree.Built) : tree.Tallied where
  declarations scope entry found id member := by
    rw [← Array.mem_toList_iff, built.recorded found, List.mem_reverse] at member
    obtain ⟨named, listed, rfl⟩ := List.mem_map.mp member
    obtain ⟨decl, stored, -⟩ := built.formed.listed found listed
    exact (Array.getElem?_eq_some_iff.mp stored).1
  owners node scope noted := by
    obtain ⟨entry, found, -⟩ := built.owned noted
    exact Formed.lt_size found

theorem Built.indexed (built : tree.Built) : tree.Indexed where
  toTallied := built.tallied
  root := by
    obtain ⟨entry, found, -⟩ := Option.map_eq_some_iff.mp built.formed.root
    exact Formed.lt_size found
  parents _ _ _ found up := built.formed.parent_lt found up
  names scope entry found named member := by
    obtain ⟨decl, stored, -⟩ := built.formed.listed found member
    exact (Array.getElem?_eq_some_iff.mp stored).1
  decls id decl stored := by
    obtain ⟨entry, found, -⟩ := built.lists stored
    exact Formed.lt_size found
  walks _ inside := built.formed.ascent_ancestors inside

theorem lt_size_of_find? {scopes : List ScopeId} (found : tree.find? name scopes = some (scope, id)) :
    scope < tree.scopes.size := by
  obtain ⟨inner, outer, -, -, latest⟩ := find?_eq_some_iff.mp found
  obtain ⟨entry, found, -⟩ := Option.bind_eq_some_iff.mp latest
  exact Formed.lt_size found

end ScopeTree

namespace Resolver

variable {policy : Redeclaration} {resolver : Resolver} {name : Ident}

/-- The scopes that are noted for names, and of names put off, are there. -/
structure Placed (resolver : Resolver) : Prop where
  resolutions : ∀ ⦃id : NodeId⦄ ⦃resolution : Resolution⦄,
    resolver.resolutions[id]? = some resolution → resolution.scope < resolver.tree.scopes.size
  deferred : ∀ late ∈ resolver.deferred, late.scope < resolver.tree.scopes.size

namespace Placed

variable (placed : resolver.Placed)

include placed

/-- A later tree has the scopes there were. -/
theorem grow {later : Resolver} (grows : resolver.tree.Grows later.tree)
    (resolutions : later.resolutions = resolver.resolutions)
    (deferred : later.deferred = resolver.deferred) : later.Placed where
  resolutions _ _ found :=
    Nat.lt_of_lt_of_le (placed.resolutions (resolutions ▸ found)) grows.scopes_size_le
  deferred late member :=
    Nat.lt_of_lt_of_le (placed.deferred late (deferred ▸ member)) grows.scopes_size_le

theorem complain (problem : Problem) :
    (resolver.complain problem name).Placed := placed.grow (.refl _) rfl rfl

theorem bind (name : Ident) {resolution : Resolution}
    (inside : resolution.scope < resolver.tree.scopes.size) :
    (resolver.bind name resolution).Placed where
  resolutions id noted found := by
    by_cases same : id = name.id
    · subst same
      rw [resolutions_bind_self] at found
      cases found
      exact inside
    · rw [resolutions_bind same] at found
      exact placed.resolutions found
  deferred := placed.deferred

theorem declare (formed : resolver.Formed) (name : Ident)
    (kind : DeclKind) : (resolver.declare name kind).Placed := by
  have grows : resolver.tree.Grows
      (resolver.tree.declare resolver.current name.name kind name.position).2 :=
    ScopeTree.grows_declare
  have grown : { resolver with
      tree := (resolver.tree.declare resolver.current name.name kind name.position).2 }.Placed :=
    placed.grow grows rfl rfl
  exact grown.bind name (Nat.lt_of_lt_of_le formed.current grows.scopes_size_le)

theorem take (formed : resolver.Formed) (step : ScopeStep) :
    (resolver.take policy step).Placed := by
  have took := took policy resolver step
  generalize resolver.take policy step = later at took
  cases took with
  | enter => exact placed.grow ScopeTree.grows_push rfl rfl
  | leave => exact placed.grow (.refl _) rfl rfl
  | declared => exact placed.declare formed _ _
  | repeated => exact (placed.complain _).declare (formed.complain _) _ _
  | refused => exact placed.complain _
  | bound found =>
    rw [ScopeTree.lookup_eq_find?] at found
    exact placed.bind _ (ScopeTree.lt_size_of_find? found)
  | deferred =>
    refine ⟨placed.resolutions, fun late member => ?_⟩
    rcases List.mem_append.mp member with member | last
    · exact placed.deferred late member
    · rw [List.mem_singleton.mp last]
      exact formed.current
  | @assigned name _ _ scope id _ found =>
    have rebound : { resolver with tree := resolver.tree.markRebound id }.Placed :=
      placed.grow ScopeTree.grows_markRebound rfl rfl
    rw [ScopeTree.lookupAssignable_eq_find?] at found
    have inside : scope < resolver.tree.scopes.size := ScopeTree.lt_size_of_find? found
    exact rebound.bind name inside

end Placed

/-! ### Before every step -/

/-- Every number that resolution has noted is that of a scope or a declaration that exists by now. -/
structure Indexed (resolver : Resolver) : Prop extends resolver.Placed where
  tree : resolver.tree.Indexed
  current : resolver.current < resolver.tree.scopes.size
  refers : resolver.Refers

end Resolver

/-- What is known of names before a step refers to what exists by then. -/
theorem Program.indexed_before (program : Program) (policy : Redeclaration)
    (steps : List ScopeStep) : (program.before policy steps).Indexed := by
  have placed : (program.before policy steps).Placed := by
    induction steps using List.reverseRecOn with
    | nil =>
      refine ⟨fun id resolution found => ?_, nofun⟩
      cases Std.TreeMap.getElem?_emptyc.symm.trans found
    | append_singleton steps step ih =>
      rw [before_concat]
      exact ih.take (program.formed_before policy steps) step
  exact ⟨placed, (program.built_before policy steps).indexed,
    (program.formed_before policy steps).current, program.refers_before policy steps⟩

end ScopedScript

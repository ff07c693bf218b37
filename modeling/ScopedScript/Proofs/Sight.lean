/-
**What names refer to.**

Names are looked up while the tree of scopes grows. What a lookup finds can be read off the tree in its
final form: a use sees the declarations that are numbered below the count at its moment, the latest one
of the innermost scope that has any. A use that sees nothing is reported:

* `ScopeTree.Declares`: a declaration of a name in a scope; `ScopeTree.Lists` says that the names of a
  scope list its declarations, which every step keeps;
* `ScopeTree.getIn?_eq_some_iff`, `ScopeTree.find?_eq_some_iff`: what lookups find;
* `Use`, `Use.Sees`: a use at its moment, and what it sees in a tree; `Program.uses` are the uses of a
  program in order, `Program.mem_uses` the nodes that they belong to;
* `Program.lookup_iff_sees`: **a lookup finds what the use sees in the final tree**;
* `Program.uses_resolved`: every use refers to what it sees, or is reported once.
-/

import Mathlib.Data.List.Forall2
import Mathlib.Data.List.ReduceOption
import ScopedScript.Proofs.Determination
import ScopedScript.Proofs.Numbering

namespace ScopedScript

namespace ScopeTree

/-! ### Declarations and names -/

/-- A declaration of a name in a scope. -/
def Declares (tree : ScopeTree) (scope : ScopeId) (name : String) (id : DeclId) : Prop :=
  ∃ decl, tree.decls[id]? = some decl ∧ decl.name = name ∧ decl.scope = scope

/-- Every declaration is among the names of its scope. -/
def Lists (tree : ScopeTree) : Prop :=
  ∀ ⦃id : DeclId⦄ ⦃decl : Decl⦄, tree.decls[id]? = some decl →
    ∃ entry, tree.scopes[decl.scope]? = some entry ∧ (decl.name, id) ∈ entry.names

variable {tree newer : ScopeTree} {scope : ScopeId} {name : String} {id : DeclId}

theorem Lists.push (lists : tree.Lists) (kind : ScopeKind) (parent : ScopeId) (owner : NodeId) :
    (tree.push kind parent owner).2.Lists := by
  intro id decl stored
  obtain ⟨entry, found, listed⟩ := lists stored
  exact ⟨entry, (scopes_push_old (Formed.lt_size found)).trans found, listed⟩

theorem Lists.declare (lists : tree.Lists) (inside : scope < tree.scopes.size) (name : String)
    (kind : DeclKind) (position : Position) : (tree.declare scope name kind position).2.Lists := by
  intro id decl stored
  rw [ScopeTree.declare, Array.getElem?_push] at stored
  split at stored
  · rename_i new
    cases stored
    refine ⟨declared tree.scopes[scope] name tree.decls.size, ?_, by rw [new]; exact .head _⟩
    rw [scopes_declare, if_pos rfl, Array.getElem?_eq_getElem inside, Option.map_some]
  · obtain ⟨entry, found, listed⟩ := lists stored
    by_cases here : scope = decl.scope
    · refine ⟨declared entry name tree.decls.size, ?_, .tail _ listed⟩
      rw [scopes_declare, if_pos here, found, Option.map_some]
    · exact ⟨entry, by rw [scopes_declare, if_neg here, found], listed⟩

theorem Lists.markRebound (lists : tree.Lists) (id : DeclId) : (tree.markRebound id).Lists := by
  intro other decl stored
  have inside : other < tree.decls.size := by
    have inside := (Array.getElem?_eq_some_iff.mp stored).1
    rwa [ScopeTree.markRebound, Array.size_modify] at inside
  have grows : tree.Grows (tree.markRebound id) := grows_markRebound
  obtain ⟨decl', stored', older⟩ := grows.decls (Array.getElem?_eq_getElem inside)
  cases stored.symm.trans stored'
  rw [older.name, older.scope]
  exact lists (Array.getElem?_eq_getElem inside)

theorem Built.lists (built : tree.Built) : tree.Lists := by
  induction built with
  | new owner =>
    intro id decl stored
    simp [ScopeTree.new] at stored
  | push kind owner _ _ lists => exact lists.push kind _ owner
  | declare name kind position _ inside lists => exact lists.declare inside name kind position
  | rebound id _ lists => exact lists.markRebound id

/-! ### What lookups find -/

/-- What is found in a scope is a declaration of the name, and no later one is there. -/
theorem declares_of_getIn? (formed : tree.Formed) (lists : tree.Lists)
    (latest : tree.getIn? scope name = some id) :
    tree.Declares scope name id ∧ ∀ other, tree.Declares scope name other → other ≤ id := by
  obtain ⟨entry, found, first⟩ := Option.bind_eq_some_iff.mp latest
  obtain ⟨newer, older, split, -⟩ := List.lookup_eq_some_iff.mp first
  refine ⟨formed.listed found (by rw [split]; simp), ?_⟩
  rintro other ⟨decl, stored, rfl, rfl⟩
  obtain ⟨entry', found', listed⟩ := lists stored
  cases found.symm.trans found'
  exact Resolver.le_of_lookup (formed.latest found) first listed

theorem getIn?_eq_none_iff (formed : tree.Formed) (lists : tree.Lists) :
    tree.getIn? scope name = none ↔ ∀ other, ¬ tree.Declares scope name other := by
  constructor
  · rintro absent other ⟨decl, stored, rfl, rfl⟩
    obtain ⟨entry, found, listed⟩ := lists stored
    rw [Resolver.getIn?_eq found, List.lookup_eq_none_iff] at absent
    exact absurd (absent _ listed) (by simp)
  · intro none
    by_contra present
    obtain ⟨id, latest⟩ := Option.ne_none_iff_exists'.mp present
    exact none id (declares_of_getIn? formed lists latest).1

/-- What is found in a scope is its latest declaration of the name. -/
theorem getIn?_eq_some_iff (formed : tree.Formed) (lists : tree.Lists) :
    tree.getIn? scope name = some id ↔
      tree.Declares scope name id ∧ ∀ other, tree.Declares scope name other → other ≤ id := by
  refine ⟨declares_of_getIn? formed lists, fun ⟨declares, greatest⟩ => ?_⟩
  cases latest : tree.getIn? scope name with
  | none => exact absurd declares ((getIn?_eq_none_iff formed lists).mp latest id)
  | some other =>
    obtain ⟨declares', greatest'⟩ := declares_of_getIn? formed lists latest
    rw [Nat.le_antisymm (greatest other declares') (greatest' id declares)]

/-- What is found among scopes is found in the first that has the name. -/
theorem find?_eq_some_iff {scopes : List ScopeId} :
    tree.find? name scopes = some (scope, id) ↔ ∃ inner outer, scopes = inner ++ scope :: outer ∧
      (∀ nearer ∈ inner, tree.getIn? nearer name = none) ∧ tree.getIn? scope name = some id := by
  induction scopes with
  | nil => simp [find?]
  | cons first rest ih =>
    rw [find?]
    constructor
    · intro found
      split at found
      · cases found
        exact ⟨[], rest, rfl, List.forall_mem_nil _, ‹_›⟩
      · rename_i absent
        obtain ⟨inner, outer, rfl, nearer, latest⟩ := ih.mp found
        exact ⟨first :: inner, outer, rfl, List.forall_mem_cons.mpr ⟨absent, nearer⟩, latest⟩
    · rintro ⟨inner, outer, split, nearer, latest⟩
      cases inner with
      | nil =>
        obtain ⟨rfl, rfl⟩ := List.cons.inj split
        rw [latest]
      | cons head inner =>
        obtain ⟨rfl, rfl⟩ := List.cons.inj split
        obtain ⟨absent, nearer⟩ := List.forall_mem_cons.mp nearer
        rw [absent]
        exact ih.mpr ⟨inner, outer, rfl, nearer, latest⟩

theorem find?_eq_none_iff {scopes : List ScopeId} :
    tree.find? name scopes = none ↔ ∀ scope ∈ scopes, tree.getIn? scope name = none := by
  induction scopes with
  | nil => simp [find?]
  | cons first rest ih =>
    rw [find?, List.forall_mem_cons]
    cases tree.getIn? first name with
    | none => simp [ih]
    | some id => simp

/-! ### Trees that grow -/

/-- A later tree has the declarations of an earlier one under the same numbers. -/
theorem Grows.declares_iff (grows : tree.Grows newer) (earlier : id < tree.decls.size) :
    newer.Declares scope name id ↔ tree.Declares scope name id := by
  have stored := Array.getElem?_eq_getElem earlier
  obtain ⟨decl', stored', older⟩ := grows.decls stored
  constructor
  · rintro ⟨decl, found, rfl, rfl⟩
    cases found.symm.trans stored'
    exact ⟨_, stored, older.name.symm, older.scope.symm⟩
  · rintro ⟨decl, found, rfl, rfl⟩
    cases found.symm.trans stored
    exact ⟨decl', stored', older.name, older.scope⟩

theorem Declares.lt_size (declares : tree.Declares scope name id) : id < tree.decls.size := by
  obtain ⟨decl, stored, -⟩ := declares
  exact (Array.getElem?_eq_some_iff.mp stored).1

theorem Grows.ancestors (grows : tree.Grows newer) (formed : tree.Formed) (formed' : newer.Formed)
    (inside : scope < tree.scopes.size) (inside' : scope < newer.scopes.size) :
    newer.ancestors scope = tree.ancestors scope := by
  rw [ancestors_eq (stack_ascent formed inside) formed.descend,
    ancestors_eq (stack_ascent formed' inside') formed'.descend]
  have older := grows.stack formed formed' inside
  generalize tree.stack scope = earlier at older
  generalize newer.stack scope = later at older
  induction older with
  | nil => rfl
  | cons first _ ih => rw [List.map_cons, List.map_cons, first.1, ih]

end ScopeTree

/-! ### Uses -/

/-- A use of a name: the scope in which it is met, and how many declarations there are by then. -/
structure Use where
  name : Ident
  scope : ScopeId
  known : Nat

/-- What a use sees in a tree: of the declarations of its name that were known to it, the latest one in
the innermost scope that has any. -/
structure Use.Sees (use : Use) (tree : ScopeTree) (scope : ScopeId) (id : DeclId) : Prop where
  innermost : ∃ inner outer, tree.ancestors use.scope = inner ++ scope :: outer ∧
    ∀ nearer ∈ inner, ∀ other < use.known, ¬ tree.Declares nearer use.name.name other
  declared : tree.Declares scope use.name.name id
  earlier : id < use.known
  latest : ∀ other < use.known, tree.Declares scope use.name.name other → other ≤ id

/-- The use that a step makes of a name. -/
def Resolver.use? (resolver : Resolver) : ScopeStep → Option Use
  | .use name => some ⟨name, resolver.current, resolver.tree.decls.size⟩
  | _ => none

/-- The uses among steps, in the order in which they are met. -/
def Resolver.uses (policy : Redeclaration) : Resolver → List ScopeStep → List Use
  | _, [] => []
  | resolver, step :: rest =>
    (resolver.use? step).toList ++ (resolver.take policy step).uses policy rest

theorem Resolver.uses_concat {policy : Redeclaration} {resolver : Resolver} {step : ScopeStep}
    (steps : List ScopeStep) :
    resolver.uses policy (steps ++ [step]) =
      resolver.uses policy steps ++ ((resolver.follow policy steps).use? step).toList := by
  induction steps generalizing resolver with
  | nil => simp [uses]
  | cons first rest ih => simp [uses, ih]

namespace Node

/-- A node first takes the step that uses its name. -/
theorem Within.use?_isPrefix {outer node : Node} {place : List ScopeStep} {name : Ident}
    (within : outer.Within place node) (uses : node.use? = some name) :
    place ++ [.use name] <+: outer.scopeSteps := by
  cases node with
  | expr e =>
    cases e with
    | name =>
      rw [← Option.some.inj uses]
      exact within.steps_isPrefix
    | call =>
      rw [← Option.some.inj uses]
      exact within.use_isPrefix
    | _ => cases uses
  | stmt | block => cases uses

end Node

namespace Program

variable {program : Program} {policy : Redeclaration} {steps : List ScopeStep} {name : Ident}

/-- The uses of names in a program, in the order in which they are met. -/
def uses (program : Program) (policy : Redeclaration) : List Use :=
  (Resolver.initial program.id).uses policy program.scopeSteps

/-- A use at a place. -/
def useAt (program : Program) (policy : Redeclaration) (steps : List ScopeStep) (name : Ident) : Use :=
  ⟨name, (program.before policy steps).current, (program.before policy steps).tree.decls.size⟩

theorem lists_before (program : Program) (policy : Redeclaration) (steps : List ScopeStep) :
    (program.before policy steps).tree.Lists := (program.built_before policy steps).lists

/-- The uses among the steps up to a place. -/
theorem mem_uses_before {use : Use} :
    use ∈ (Resolver.initial program.id).uses policy steps ↔
      ∃ place name, place ++ [.use name] <+: steps ∧ use = program.useAt policy place name := by
  induction steps using List.reverseRecOn with
  | nil => simp [Resolver.uses]
  | append_singleton steps step ih =>
    rw [Resolver.uses_concat, List.mem_append, ih]
    constructor
    · rintro (⟨place, name, within, same⟩ | met)
      · exact ⟨place, name, within.trans (List.prefix_append _ _), same⟩
      · cases step with
        | use name => exact ⟨steps, name, List.prefix_rfl, List.mem_singleton.mp met⟩
        | _ => cases met
    · rintro ⟨place, name, within, same⟩
      rcases List.prefix_concat_iff.mp within with whole | before
      · obtain ⟨rfl, last⟩ := List.append_inj' whole rfl
        obtain rfl := (List.cons.inj last).1
        exact .inr (List.mem_singleton.mpr same)
      · exact .inl ⟨place, name, before, same⟩

/-- **The uses of a program are its names that are read or called**, each at its place. -/
theorem mem_uses (distinct : program.ids.Nodup) {use : Use} :
    use ∈ program.uses policy ↔ ∃ place node name, (Node.block program.body).Within place node ∧
      node.use? = some name ∧ use = program.useAt policy place name := by
  refine mem_uses_before.trans ⟨?_, ?_⟩
  · rintro ⟨place, name, within, same⟩
    have step : ScopeStep.use name ∈ (Node.block program.body).scopeSteps :=
      within.mem (List.mem_append_right _ List.mem_cons_self)
    obtain ⟨place', node, inside, taken⟩ := Node.step_within step
    have uses := Node.takenBy_of_mem taken
    -- the number of the use tells the place
    have here := prefix_unique (nodup_steps distinct frugal_noted) within
      (inside.use?_isPrefix uses) (List.mem_singleton.mpr rfl) (List.mem_singleton.mpr rfl)
    exact ⟨place', node, name, inside, uses, here ▸ same⟩
  · rintro ⟨place, node, name, inside, uses, same⟩
    exact ⟨place, name, inside.use?_isPrefix uses, same⟩

/-! ### What uses refer to -/

section Places

variable (within : steps <+: program.scopeSteps)

include within

theorem current_lt_size :
    (program.before policy steps).current < (program.resolve policy).tree.scopes.size := by
  have grows : (program.before policy steps).tree.Grows (program.resolve policy).tree :=
    grows_before within
  obtain ⟨entry, found, -⟩ :=
    grows.scopes (Array.getElem?_eq_getElem (program.formed_before policy steps).current)
  exact ScopeTree.Formed.lt_size found

/-- The scopes around a place are those around it in the end. -/
theorem ancestors_before :
    (program.resolve policy).tree.ancestors (program.before policy steps).current =
      (program.before policy steps).tree.ancestors (program.before policy steps).current := by
  have formed := program.formed_before policy steps
  exact (grows_before within).ancestors formed.tree
    (program.formed_before policy program.scopeSteps).tree formed.current (current_lt_size within)

/-- The scopes around a place lead outward to the root. -/
theorem ascent_before :
    Ascent (program.resolve policy).tree.links (program.before policy steps).current
      ((program.resolve policy).tree.ancestors (program.before policy steps).current) := by
  have formed := (program.formed_before policy program.scopeSteps).tree
  have ascent := ScopeTree.stack_ascent formed (current_lt_size within)
  rwa [← ScopeTree.ancestors_eq ascent formed.descend] at ascent

/-- What a scope declares at a place is what it declares in the end and is known there. -/
theorem declares_before {scope : ScopeId} {text : String} {id : DeclId} :
    (program.before policy steps).tree.Declares scope text id ↔
      id < (program.before policy steps).tree.decls.size ∧
        (program.resolve policy).tree.Declares scope text id := by
  have grows : (program.before policy steps).tree.Grows (program.resolve policy).tree :=
    grows_before within
  exact ⟨fun declares => ⟨declares.lt_size, (grows.declares_iff declares.lt_size).mpr declares⟩,
    fun ⟨known, declares⟩ => (grows.declares_iff known).mp declares⟩

/-- **A lookup finds what the use sees in the final tree.** -/
theorem lookup_iff_sees {scope : ScopeId} {id : DeclId} :
    (program.before policy steps).tree.lookup (program.before policy steps).current name.name =
        some (scope, id) ↔
      (program.useAt policy steps name).Sees (program.resolve policy).tree scope id := by
  have formed := (program.formed_before policy steps).tree
  have lists := program.lists_before policy steps
  rw [ScopeTree.lookup_eq_find?, ScopeTree.find?_eq_some_iff, ← ancestors_before within]
  simp only [ScopeTree.getIn?_eq_none_iff formed lists, ScopeTree.getIn?_eq_some_iff formed lists,
    declares_before within, not_and]
  constructor
  · rintro ⟨inner, outer, split, nearer, ⟨known, declares⟩, latest⟩
    exact ⟨⟨inner, outer, split, nearer⟩, declares, known,
      fun other earlier declares => latest other ⟨earlier, declares⟩⟩
  · rintro ⟨⟨inner, outer, split, nearer⟩, declares, known, latest⟩
    exact ⟨inner, outer, split, nearer, ⟨known, declares⟩,
      fun other earlier => latest other earlier.1 earlier.2⟩

/-- A lookup finds nothing where no scope around declares a name that is known. -/
theorem lookup_eq_none_iff :
    (program.before policy steps).tree.lookup (program.before policy steps).current name.name =
        none ↔
      ∀ scope ∈ (program.resolve policy).tree.ancestors (program.before policy steps).current,
        ∀ id < (program.before policy steps).tree.decls.size,
          ¬ (program.resolve policy).tree.Declares scope name.name id := by
  have formed := (program.formed_before policy steps).tree
  have lists := program.lists_before policy steps
  rw [ScopeTree.lookup_eq_find?, ScopeTree.find?_eq_none_iff, ← ancestors_before within]
  simp only [ScopeTree.getIn?_eq_none_iff formed lists, declares_before within, not_and]

end Places

theorem use_resolution (distinct : program.ids.Nodup)
    (within : steps ++ [.use name] <+: program.scopeSteps) :
    (program.resolve policy).resolutions[name.id]? =
      ((program.before policy steps).tree.lookup (program.before policy steps).current
        name.name).map fun found => ⟨found.1, found.2⟩ := by
  rw [(noted distinct within (List.mem_singleton.mpr rfl)).1]
  show ((program.before policy steps).use name).resolutions[name.id]? = _
  unfold Resolver.use
  cases (program.before policy steps).tree.lookup (program.before policy steps).current
      name.name with
  | some found => exact Resolver.resolutions_bind_self
  | none =>
    -- nothing was noted for the number of this use before
    have fresh : name.id ∉ steps.flatMap ScopeStep.noted := by
      obtain ⟨rest, whole⟩ := within
      have distinct := nodup_steps distinct frugal_noted
      rw [← whole, List.flatMap_append, List.flatMap_append, List.flatMap_singleton] at distinct
      have apart := (List.nodup_append.mp (List.nodup_append.mp distinct).1).2.2
      exact fun earlier => apart name.id earlier name.id (List.mem_singleton.mpr rfl) rfl
    have kept : ((Resolver.initial program.id).follow policy steps).resolutions[name.id]? = _ :=
      (Resolver.follow_kept fresh).1
    exact kept.trans Std.TreeMap.getElem?_emptyc

end Program

/-! ### What is reported -/

namespace Resolver

variable {policy : Redeclaration} {resolver : Resolver}

theorem take_deferred {step : ScopeStep} (other : ∀ name, step ≠ .use name) :
    (resolver.take policy step).deferred = resolver.deferred := by
  have took := took policy resolver step
  generalize resolver.take policy step = later at took
  cases took with
  | bound | deferred => exact absurd rfl (other _)
  | _ => rfl

end Resolver

/-- What is reported on a use, by the tree in its final form: nothing if it sees a declaration, else
whether a scope around it declares the name after all. -/
inductive Use.Reported (use : Use) (tree : ScopeTree) : Option Diagnostic → Prop where
  | seen {scope : ScopeId} {id : DeclId} (sees : use.Sees tree scope id) : Reported use tree none
  | early {scope : ScopeId} {id : DeclId}
      (unseen : ∀ scope ∈ tree.ancestors use.scope, ∀ id < use.known,
        ¬ tree.Declares scope use.name.name id)
      (around : scope ∈ tree.ancestors use.scope) (later : use.known ≤ id)
      (declares : tree.Declares scope use.name.name id) :
      Reported use tree (some ⟨.usedTooEarly use.name.name, use.name.position⟩)
  | missing
      (unseen : ∀ scope ∈ tree.ancestors use.scope, ∀ id, ¬ tree.Declares scope use.name.name id) :
      Reported use tree (some ⟨.unresolved use.name.name, use.name.position⟩)

namespace Program

variable {program : Program} {policy : Redeclaration} {steps : List ScopeStep} {name : Ident}

/-- The verdict on a use that was put off. -/
theorem reported_late (within : steps <+: program.scopeSteps)
    (absent : (program.before policy steps).tree.lookup (program.before policy steps).current
      name.name = none) :
    (program.useAt policy steps name).Reported (program.resolve policy).tree
      (some (Resolver.late (program.resolve policy).tree
        ⟨name.name, (program.before policy steps).current, name.position⟩)) := by
  have formed := (program.formed_before policy program.scopeSteps).tree
  have lists := program.lists_before policy program.scopeSteps
  have unseen := (lookup_eq_none_iff within).mp absent
  unfold Resolver.late
  cases found : (program.resolve policy).tree.lookup (program.before policy steps).current
      name.name with
  | none =>
    rw [ScopeTree.lookup_eq_find?, ScopeTree.find?_eq_none_iff] at found
    exact .missing fun scope around =>
      (ScopeTree.getIn?_eq_none_iff formed lists).mp (found scope around)
  | some place =>
    obtain ⟨scope, id⟩ := place
    rw [ScopeTree.lookup_eq_find?] at found
    obtain ⟨inner, outer, split, -, latest⟩ := ScopeTree.find?_eq_some_iff.mp found
    have around : scope ∈ (program.resolve policy).tree.ancestors
        (program.before policy steps).current := by
      rw [split]
      exact List.mem_append_right _ List.mem_cons_self
    have declares := (ScopeTree.declares_of_getIn? formed lists latest).1
    exact .early unseen around
      (Nat.le_of_not_lt fun earlier => unseen scope around id earlier declares) declares

/-- The uses that are put off up to a place are those that see nothing. -/
theorem deferred_before (within : steps <+: program.scopeSteps) :
    ∃ reports : List (Option Diagnostic),
      (program.before policy steps).deferred.map (Resolver.late (program.resolve policy).tree) =
        reports.reduceOption ∧
      List.Forall₂ (fun use report => use.Reported (program.resolve policy).tree report)
        ((Resolver.initial program.id).uses policy steps) reports := by
  induction steps using List.reverseRecOn with
  | nil => exact ⟨[], rfl, .nil⟩
  | append_singleton steps step ih =>
    have before := (List.prefix_append _ _).trans within
    obtain ⟨reports, put, verdicts⟩ := ih before
    rw [before_concat, Resolver.uses_concat]
    by_cases uses : ∃ name, step = .use name
    · obtain ⟨name, rfl⟩ := uses
      show ∃ reports : List (Option Diagnostic),
        ((program.before policy steps).use name).deferred.map _ = _ ∧ _
      unfold Resolver.use
      cases found : (program.before policy steps).tree.lookup
          (program.before policy steps).current name.name with
      | some place =>
        refine ⟨reports ++ [none], ?_, List.rel_append verdicts (.cons ?_ .nil)⟩
        · rw [List.reduceOption_append, ← put]
          exact (List.append_nil _).symm
        · exact .seen ((lookup_iff_sees before).mp found)
      | none =>
        refine ⟨reports ++ [some _], ?_,
          List.rel_append verdicts (.cons (reported_late before found) .nil)⟩
        rw [List.reduceOption_append, ← put, List.map_append]
        rfl
    · have other : ∀ name, step ≠ .use name := fun name same => uses ⟨name, same⟩
      have nothing : ((program.before policy steps).use? step).toList = [] := by
        cases step with
        | use name => exact absurd rfl (other name)
        | _ => rfl
      rw [Resolver.take_deferred other, show (Resolver.follow policy (Resolver.initial program.id)
        steps).use? step = (program.before policy steps).use? step from rfl, nothing,
        List.append_nil]
      exact ⟨reports, put, verdicts⟩

theorem nodup_uses (distinct : program.ids.Nodup) :
    ((program.uses policy).map fun use => use.name.id).Nodup := by
  have listed : ∀ (steps : List ScopeStep) (resolver : Resolver),
      ((resolver.uses policy steps).map fun use => use.name.id).Sublist
        (steps.flatMap ScopeStep.noted) := by
    intro steps
    induction steps with
    | nil => exact fun _ => .slnil
    | cons step rest ih =>
      intro resolver
      rw [Resolver.uses, List.map_append, List.flatMap_cons]
      refine List.Sublist.append ?_ (ih _)
      cases step with
      | use name => exact List.Sublist.refl _
      | _ => exact List.nil_sublist _
  exact (listed _ _).nodup (nodup_steps distinct frugal_noted)

end Program

/-- A use is reported if and only if it sees nothing. -/
theorem Use.Reported.isSome_iff {use : Use} {tree : ScopeTree} {report : Option Diagnostic}
    (reported : use.Reported tree report) :
    report.isSome ↔ ∀ scope id, ¬ use.Sees tree scope id := by
  have unseen : (∀ scope ∈ tree.ancestors use.scope, ∀ id < use.known,
      ¬ tree.Declares scope use.name.name id) → ∀ scope id, ¬ use.Sees tree scope id := by
    rintro none scope id ⟨⟨inner, outer, split, -⟩, declares, earlier, -⟩
    refine none scope ?_ id earlier declares
    rw [split]
    exact List.mem_append_right _ List.mem_cons_self
  cases reported with
  | seen sees => exact ⟨nofun, fun none => absurd sees (none _ _)⟩
  | early none => exact ⟨fun _ => unseen none, fun _ => rfl⟩
  | missing none =>
    exact ⟨fun _ => unseen fun scope around id _ => none scope around id, fun _ => rfl⟩

theorem Problem.code_immediate {problem : Problem} (immediate : problem.isImmediate = true) :
    problem.code ≠ "S001" ∧ problem.code ≠ "S002" := by
  cases problem with
  | finalAssigned | builtinAssigned | functionRepeated | functionIsBuiltin | parameterRepeated =>
    simp only [code]
    decide
  | _ => cases immediate

namespace Program

variable {program : Program}

/-- **Every use refers to what it sees, or is reported once.** For every text that can be read, and with
the tree of scopes in its final form: the uses of the program are its names that are read or called, each
with the scope around it and the count of declarations at its place. A use refers to a declaration if
and only if that is the latest one known to it in the innermost scope around it that has any. The
problems are some with declarations and assignments, and then one for each use that sees nothing: it is
used too early if a scope around it declares the name later, and unresolved if none does. -/
theorem uses_resolved {lexemes : List Lexeme} (policy : Redeclaration)
    (parsed : Program.parse lexemes = .ok program) :
    let scoping := program.resolve policy
    (∀ use, use ∈ program.uses policy ↔ ∃ place node name,
      (Node.block program.body).Within place node ∧ node.use? = some name ∧
        use = program.useAt policy place name) ∧
    ((program.uses policy).map fun use => use.name.id).Nodup ∧
    (∀ use ∈ program.uses policy,
      Ascent scoping.tree.links use.scope (scoping.tree.ancestors use.scope) ∧
      ∀ scope id, scoping.resolutions[use.name.id]? = some ⟨scope, id⟩ ↔
        use.Sees scoping.tree scope id) ∧
    ∃ (complaints : List Diagnostic) (reports : List (Option Diagnostic)),
      scoping.problems = complaints ++ reports.reduceOption ∧
      (∀ diagnostic ∈ complaints,
        diagnostic.report.code ≠ "S001" ∧ diagnostic.report.code ≠ "S002") ∧
      List.Forall₂ (fun use report => use.Reported scoping.tree report ∧
        (report.isSome ↔ scoping.resolutions[use.name.id]? = none)) (program.uses policy) reports := by
  intro scoping
  have distinct := parse_ids_nodup parsed
  have refers : ∀ use ∈ program.uses policy, ∀ scope id,
      scoping.resolutions[use.name.id]? = some ⟨scope, id⟩ ↔ use.Sees scoping.tree scope id := by
    intro use member scope id
    obtain ⟨place, name, within, rfl⟩ := mem_uses_before.mp member
    rw [← lookup_iff_sees ((List.prefix_append _ _).trans within)]
    refine (iff_of_eq (congrArg (· = some _) (use_resolution distinct within))).trans ?_
    cases (program.before policy place).tree.lookup (program.before policy place).current
      name.name <;> simp [Prod.ext_iff]
  refine ⟨fun use => mem_uses distinct, nodup_uses distinct, fun use member =>
    ⟨?_, refers use member⟩, ?_⟩
  · obtain ⟨place, name, within, rfl⟩ := mem_uses_before.mp member
    exact ascent_before ((List.prefix_append _ _).trans within)
  · obtain ⟨reports, put, verdicts⟩ := deferred_before (List.prefix_refl program.scopeSteps)
    refine ⟨(program.before policy program.scopeSteps).problems, reports, ?_,
      fun diagnostic member => Problem.code_immediate (problems_before _ _ _ diagnostic member), ?_⟩
    · rw [← put]
      rfl
    · refine ((List.forall₂_and_left _ _).mpr ⟨refers, verdicts⟩).imp ?_
      rintro use report ⟨refers, reported⟩
      refine ⟨reported, reported.isSome_iff.trans ?_⟩
      rw [Option.eq_none_iff_forall_ne_some]
      exact ⟨fun none resolution noted => none _ _ ((refers _ _).mp noted),
        fun none scope id sees => none ⟨scope, id⟩ ((refers scope id).mpr sees)⟩

/-- A function that reads a name too early and one that is never declared. -/
def hasty : String :=
  "\n".intercalate ["def f(x):", "  x = x + y", "  return z", "end", "y = f(1)", "f(y)", ""]

/-- The name `y` is found by the use behind its declaration and not by the one before it. -/
theorem uses_resolved_hasty : ∃ lexemes program, Token.scan hasty = .ok lexemes ∧
    Program.parse lexemes = .ok program ∧
    ((program.uses .refuse).map fun use => use.name.name) = ["x", "y", "z", "f", "f", "y"] ∧
    ((program.resolve .refuse).problems.map fun diagnostic => diagnostic.report.code) =
      ["S002", "S001"] ∧
    (∀ use ∈ program.uses .refuse, ∀ scope id,
      (program.resolve .refuse).resolutions[use.name.id]? = some ⟨scope, id⟩ ↔
        use.Sees (program.resolve .refuse).tree scope id) ∧
    ∃ (complaints : List Diagnostic) (reports : List (Option Diagnostic)),
      (program.resolve .refuse).problems = complaints ++ reports.reduceOption ∧
      List.Forall₂ (fun use report => use.Reported (program.resolve .refuse).tree report)
        (program.uses .refuse) reports := by
  have read : ((Token.scan hasty).toOption.bind fun lexemes =>
      (Program.parse lexemes).toOption).any (fun program =>
        ((program.uses .refuse).map fun use => use.name.name) == ["x", "y", "z", "f", "f", "y"] &&
        ((program.resolve .refuse).problems.map fun diagnostic => diagnostic.report.code) ==
          ["S002", "S001"]) = true := by
    decide +kernel
  cases scanned : Token.scan hasty with
  | error => rw [scanned] at read; cases read
  | ok lexemes =>
    rw [scanned] at read
    cases parsed : Program.parse lexemes with
    | error => simp [parsed, Except.toOption] at read
    | ok program =>
      simp only [parsed, Except.toOption, Option.bind_some, Option.any_some, Bool.and_eq_true,
        beq_iff_eq] at read
      obtain ⟨-, -, refers, complaints, reports, problems, -, verdicts⟩ :=
        uses_resolved .refuse parsed
      refine ⟨lexemes, program, rfl, parsed, read.1, read.2, ?_, complaints, reports, problems, ?_⟩
      · exact fun use member => (refers use member).2
      · exact verdicts.imp fun _ _ => And.left

end Program

end ScopedScript

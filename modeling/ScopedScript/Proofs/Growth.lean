/-
**How trees of scopes grow.**

Resolution only adds to a tree: scopes, declarations, and the note that a variable is assigned
further in.

* `ScopeTree.Formed`: scopes are inside older ones, and a scope lists its own declarations by name,
  later ones first; every operation keeps this, so it holds of every tree that is `ScopeTree.Built`;
* `ScopeTree.Grows`: a later tree has the scopes and declarations of an earlier one, each with the
  names it had, behind new ones;
* `ScopeTree.stack`: a scope with what is around it; its equation `ScopeTree.stack_eq` and what
  each operation does to it.
-/

import ScopedScript.Proofs.Ascent
import ScopedScript.Scope.Tree

namespace ScopedScript

/-! ### Earlier and later -/

/-- The same scope, with the names it had behind new ones. -/
structure Scope.Older (entry newer : Scope) : Prop where
  kind : newer.kind = entry.kind
  parent : newer.parent = entry.parent
  names : entry.names <:+ newer.names

theorem Scope.Older.refl (entry : Scope) : entry.Older entry := ⟨rfl, rfl, List.suffix_refl _⟩

theorem Scope.Older.trans {first second third : Scope} (older : first.Older second)
    (newer : second.Older third) : first.Older third :=
  ⟨newer.kind.trans older.kind, newer.parent.trans older.parent, older.names.trans newer.names⟩

/-- The same kind, but perhaps assigned further in. -/
inductive DeclKind.Older : DeclKind → DeclKind → Prop
  | same (kind : DeclKind) : Older kind kind
  | rebound (final : Bool) (node : NodeId) (before : Bool) :
    Older (.assigned final node before) (.assigned final node true)

theorem DeclKind.Older.trans {first second third : DeclKind} (older : first.Older second)
    (newer : second.Older third) : first.Older third := by
  cases older with
  | same => exact newer
  | rebound final node before =>
    cases newer with
    | same => exact .rebound final node before
    | rebound => exact .rebound final node before

theorem DeclKind.Older.function_iff {kind newer : DeclKind} {node : NodeId} {arity : Nat}
    (older : kind.Older newer) : newer = .function node arity ↔ kind = .function node arity := by
  cases older with
  | same => exact Iff.rfl
  | rebound => exact ⟨nofun, nofun⟩

theorem DeclKind.Older.assigned {final before : Bool} {node : NodeId} {newer : DeclKind}
    (older : (DeclKind.assigned final node before).Older newer) :
    ∃ after, newer = .assigned final node after := by
  cases older with
  | same => exact ⟨before, rfl⟩
  | rebound => exact ⟨true, rfl⟩

/-- The kind once an inner block assigns the name again. -/
def DeclKind.rebound : DeclKind → DeclKind
  | .assigned final node _ => .assigned final node true
  | kind => kind

/-- The same declaration, but perhaps assigned further in. -/
structure Decl.Older (decl newer : Decl) : Prop where
  name : newer.name = decl.name
  scope : newer.scope = decl.scope
  kind : decl.kind.Older newer.kind

theorem Decl.Older.refl (decl : Decl) : decl.Older decl := ⟨rfl, rfl, .same _⟩

theorem Decl.Older.trans {first second third : Decl} (older : first.Older second)
    (newer : second.Older third) : first.Older third :=
  ⟨newer.name.trans older.name, newer.scope.trans older.scope, older.kind.trans newer.kind⟩

namespace Decl.Older

variable {decl newer : Decl}

theorem isFinal_eq (older : decl.Older newer) : newer.isFinal = decl.isFinal := by
  have kinds := older.kind
  unfold isFinal
  generalize decl.kind = before at kinds
  generalize newer.kind = after at kinds
  cases kinds with
  | same => rfl
  | rebound final => cases final <;> rfl

theorem isFunction_eq (older : decl.Older newer) : newer.isFunction = decl.isFunction := by
  have kinds := older.kind
  unfold isFunction
  generalize decl.kind = before at kinds
  generalize newer.kind = after at kinds
  cases kinds <;> rfl

end Decl.Older

namespace ScopeTree

variable {tree : ScopeTree}

/-- A later tree: what was there is there, with the names it had behind new ones. -/
structure Grows (tree newer : ScopeTree) : Prop where
  scopes : ∀ ⦃scope : ScopeId⦄ ⦃entry : Scope⦄, tree.scopes[scope]? = some entry →
    ∃ entry', newer.scopes[scope]? = some entry' ∧ entry.Older entry'
  decls : ∀ ⦃id : DeclId⦄ ⦃decl : Decl⦄, tree.decls[id]? = some decl →
    ∃ decl', newer.decls[id]? = some decl' ∧ decl.Older decl'

namespace Grows

theorem refl (tree : ScopeTree) : tree.Grows tree where
  scopes _ entry found := ⟨entry, found, .refl entry⟩
  decls _ decl found := ⟨decl, found, .refl decl⟩

theorem trans {first second third : ScopeTree} (before : first.Grows second)
    (after : second.Grows third) : first.Grows third where
  scopes scope entry found := by
    obtain ⟨middle, found, older⟩ := before.scopes found
    obtain ⟨last, found, newer⟩ := after.scopes found
    exact ⟨last, found, older.trans newer⟩
  decls id decl found := by
    obtain ⟨middle, found, older⟩ := before.decls found
    obtain ⟨last, found, newer⟩ := after.decls found
    exact ⟨last, found, older.trans newer⟩

end Grows

/-- Scopes are inside older ones, and list their declarations by name, later ones first. -/
structure Formed (tree : ScopeTree) : Prop where
  root : tree.links ScopeTree.root = some none
  inside : ∀ ⦃scope : ScopeId⦄ ⦃entry : Scope⦄, tree.scopes[scope]? = some entry →
    scope ≠ ScopeTree.root → ∃ parent, entry.parent = some parent ∧ parent < scope
  listed : ∀ ⦃scope : ScopeId⦄ ⦃entry : Scope⦄ ⦃name : String⦄ ⦃id : DeclId⦄,
    tree.scopes[scope]? = some entry → (name, id) ∈ entry.names →
    ∃ decl, tree.decls[id]? = some decl ∧ decl.name = name ∧ decl.scope = scope
  latest : ∀ ⦃scope : ScopeId⦄ ⦃entry : Scope⦄, tree.scopes[scope]? = some entry →
    entry.names.Pairwise fun later earlier => earlier.2 < later.2

namespace Formed

variable {tree : ScopeTree}
variable {scope : ScopeId}

theorem parent_lt (formed : tree.Formed) {parent : ScopeId} {entry : Scope}
    (found : tree.scopes[scope]? = some entry) (up : entry.parent = some parent) :
    parent < scope := by
  by_cases outermost : scope = ScopeTree.root
  · have top := formed.root
    rw [← outermost, links, found, Option.map_some, up] at top
    cases top
  · obtain ⟨above, up', below⟩ := formed.inside found outermost
    rw [up] at up'
    cases up'
    exact below

theorem descend (formed : tree.Formed) : tree.links.Descend := by
  intro scope parent up
  obtain ⟨entry, found, up⟩ := Option.map_eq_some_iff.mp up
  exact formed.parent_lt found up

theorem lt_size {entry : Scope} (found : tree.scopes[scope]? = some entry) :
    scope < tree.scopes.size := by
  obtain ⟨inside, -⟩ := Array.getElem?_eq_some_iff.mp found
  exact inside

theorem ascent (formed : tree.Formed) (inside : scope < tree.scopes.size) :
    ∃ walk, Ascent tree.links scope walk := by
  have known : ∀ ⦃number⦄, number < tree.scopes.size → (tree.links number).isSome := by
    intro number inside
    rw [links, Array.getElem?_eq_getElem inside]
    rfl
  refine Ascent.exists formed.descend (fun number parent up => known ?_) (known inside)
  obtain ⟨entry, found, -⟩ := Option.map_eq_some_iff.mp up
  exact Nat.lt_trans (formed.descend up) (lt_size found)

theorem ascent_ancestors (formed : tree.Formed) (inside : scope < tree.scopes.size) :
    Ascent tree.links scope (tree.ancestors scope) := by
  obtain ⟨walk, ascent⟩ := formed.ascent inside
  rwa [ancestors_eq ascent formed.descend]

end Formed

/-! ### A scope with what is around it -/

/-- A scope with what is around it, innermost first. -/
def stack (tree : ScopeTree) (scope : ScopeId) : List (ScopeId × Scope) :=
  (tree.ancestors scope).filterMap fun id => tree.scopes[id]?.map (Prod.mk id)

/-- A scope stands before what is around the scope it is in. -/
theorem stack_eq (formed : tree.Formed) {scope : ScopeId} {entry : Scope}
    (found : tree.scopes[scope]? = some entry) :
    tree.stack scope = (scope, entry) ::
      match entry.parent with
      | none => []
      | some parent => tree.stack parent := by
  obtain ⟨walk, ascent⟩ := formed.ascent (Formed.lt_size found)
  rw [stack, ancestors_eq ascent formed.descend]
  cases ascent with
  | last top =>
    have parent : entry.parent = none := by
      rwa [links, found, Option.map_some, Option.some_inj] at top
    rw [parent, List.filterMap_cons, found]
    rfl
  | @next _ above _ up further =>
    have parent : entry.parent = some above := by
      rwa [links, found, Option.map_some, Option.some_inj] at up
    rw [parent, List.filterMap_cons, found]
    simp only [Option.map_some, stack, ancestors_eq further formed.descend]

/-- Only the scopes up to its own number matter for what is around a scope. -/
theorem stack_congr {other : ScopeTree} (formed : tree.Formed) (formed' : other.Formed)
    {scope : ScopeId} (inside : scope < tree.scopes.size)
    (same : ∀ id ≤ scope, other.scopes[id]? = tree.scopes[id]?) :
    other.stack scope = tree.stack scope := by
  induction scope using Nat.strongRecOn with
  | ind scope ih =>
    have found := Array.getElem?_eq_getElem inside
    rw [stack_eq formed found, stack_eq formed' ((same scope (Nat.le_refl _)).trans found)]
    congr 1
    cases up : (tree.scopes[scope]).parent with
    | none => rfl
    | some parent =>
      have below := formed.parent_lt found up
      exact ih parent below (Nat.lt_trans below inside) fun id le =>
        same id (Nat.le_trans le (Nat.le_of_lt below))

/-- In a later tree, the same scopes are around a scope, each with the names it had. -/
theorem Grows.stack {newer : ScopeTree} (grows : tree.Grows newer) (formed : tree.Formed)
    (formed' : newer.Formed) {scope : ScopeId} (inside : scope < tree.scopes.size) :
    List.Forall₂ (fun old new => new.1 = old.1 ∧ old.2.Older new.2) (tree.stack scope)
      (newer.stack scope) := by
  induction scope using Nat.strongRecOn with
  | ind scope ih =>
    have found := Array.getElem?_eq_getElem inside
    obtain ⟨entry', found', older⟩ := grows.scopes found
    rw [stack_eq formed found, stack_eq formed' found', older.parent]
    refine .cons ⟨rfl, older⟩ ?_
    cases up : (tree.scopes[scope]).parent with
    | none => exact .nil
    | some parent =>
      have below := formed.parent_lt found up
      exact ih parent below (Nat.lt_trans below inside)

/-- What is around a scope of the stack is the rest of the stack. -/
theorem stack_suffix (formed : tree.Formed) {scope inner : ScopeId} {entry : Scope}
    {before after : List (ScopeId × Scope)} (inside : inner < tree.scopes.size)
    (split : tree.stack inner = before ++ (scope, entry) :: after) :
    tree.stack scope = (scope, entry) :: after := by
  induction before generalizing inner with
  | nil =>
    have found := Array.getElem?_eq_getElem inside
    have here := split
    rw [stack_eq formed found, List.nil_append, List.cons.injEq, Prod.mk.injEq] at here
    rw [← here.1.1, split, here.1.1]
    rfl
  | cons first before ih =>
    have found := Array.getElem?_eq_getElem inside
    rw [stack_eq formed found, List.cons_append, List.cons.injEq] at split
    cases up : (tree.scopes[inner]).parent with
    | none => simp [up] at split
    | some parent =>
      rw [up] at split
      exact ih (Nat.lt_trans (formed.parent_lt found up) inside) split.2

theorem stack_ascent (formed : tree.Formed) {scope : ScopeId} (inside : scope < tree.scopes.size) :
    Ascent tree.links scope ((tree.stack scope).map Prod.fst) := by
  induction scope using Nat.strongRecOn with
  | ind scope ih =>
    have found := Array.getElem?_eq_getElem inside
    have link : tree.links scope = some (tree.scopes[scope]).parent := by
      rw [links, found, Option.map_some]
    rw [stack_eq formed found, List.map_cons]
    cases up : (tree.scopes[scope]).parent with
    | none => exact .last (link.trans (by rw [up]))
    | some parent =>
      have below := formed.parent_lt found up
      exact .next (link.trans (by rw [up])) (ih parent below (Nat.lt_trans below inside))

theorem mem_stack {scope id : ScopeId} {entry : Scope} (member : (id, entry) ∈ tree.stack scope) :
    tree.scopes[id]? = some entry := by
  obtain ⟨number, -, kept⟩ := List.mem_filterMap.mp member
  obtain ⟨here, found, same⟩ := Option.map_eq_some_iff.mp kept
  obtain ⟨rfl, rfl⟩ := Prod.mk.inj same
  exact found

/-! ### Operations -/

theorem formed_new (owner : NodeId) : (new owner).Formed := by
  have only : ∀ ⦃scope : ScopeId⦄ ⦃entry : Scope⦄, (new owner).scopes[scope]? = some entry →
      scope = ScopeTree.root ∧ entry.names = [] := by
    intro scope entry found
    rcases scope with _ | scope
    · cases found
      exact ⟨rfl, rfl⟩
    · simp [new] at found
  refine ⟨rfl, ?_, ?_, ?_⟩
  · intro scope entry found inner
    exact absurd (only found).1 inner
  · intro scope entry name id found member
    rw [(only found).2] at member
    cases member
  · intro scope entry found
    rw [(only found).2]
    exact .nil

section Push

variable {tree : ScopeTree} {kind : ScopeKind} {parent : ScopeId} {owner : NodeId}

theorem grows_push : tree.Grows (tree.push kind parent owner).2 where
  scopes scope entry found := by
    refine ⟨entry, ?_, .refl entry⟩
    rw [push, Array.getElem?_push, if_neg (Nat.ne_of_lt (Formed.lt_size found)), found]
  decls id decl found := ⟨decl, found, .refl decl⟩

theorem scopes_push_new : (tree.push kind parent owner).2.scopes[tree.scopes.size]? =
    some ⟨kind, some parent, owner, [], #[]⟩ := by
  rw [push, Array.getElem?_push, if_pos rfl]

theorem scopes_push_old {scope : ScopeId} (inside : scope < tree.scopes.size) :
    (tree.push kind parent owner).2.scopes[scope]? = tree.scopes[scope]? := by
  rw [push, Array.getElem?_push, if_neg (Nat.ne_of_lt inside)]

theorem Formed.push (formed : tree.Formed) (inside : parent < tree.scopes.size) (kind : ScopeKind)
    (owner : NodeId) : (tree.push kind parent owner).2.Formed := by
  have cases : ∀ ⦃scope : ScopeId⦄ ⦃entry : Scope⦄,
      (tree.push kind parent owner).2.scopes[scope]? = some entry →
        tree.scopes[scope]? = some entry ∨
          scope = tree.scopes.size ∧ entry = ⟨kind, some parent, owner, [], #[]⟩ := by
    intro scope entry found
    rw [ScopeTree.push, Array.getElem?_push] at found
    split at found
    · exact .inr ⟨‹_›, (Option.some.inj found).symm⟩
    · exact .inl found
  refine ⟨?_, ?_, ?_, ?_⟩
  · have positive : ScopeTree.root < tree.scopes.size := Nat.zero_lt_of_lt inside
    rw [links, scopes_push_old positive]
    exact formed.root
  · intro scope entry found inner
    rcases cases found with found | ⟨rfl, rfl⟩
    · exact formed.inside found inner
    · exact ⟨parent, rfl, inside⟩
  · intro scope entry name id found member
    rcases cases found with found | ⟨rfl, rfl⟩
    · exact formed.listed found member
    · cases member
  · intro scope entry found
    rcases cases found with found | ⟨rfl, rfl⟩
    · exact formed.latest found
    · exact .nil

end Push

section Declare

variable {tree : ScopeTree} {scope : ScopeId} {name : String} {kind : DeclKind}
  {position : Position}

/-- A scope in which a name was declared. -/
def declared (entry : Scope) (name : String) (id : DeclId) : Scope :=
  { entry with names := (name, id) :: entry.names, declarations := entry.declarations.push id }

theorem older_declared (entry : Scope) (name : String) (id : DeclId) :
    entry.Older (declared entry name id) := ⟨rfl, rfl, List.suffix_cons _ _⟩

theorem scopes_declare (other : ScopeId) :
    (tree.declare scope name kind position).2.scopes[other]? =
      if scope = other then tree.scopes[other]?.map (declared · name tree.decls.size)
      else tree.scopes[other]? := by
  simp only [declare, Array.getElem?_modify, declared]

theorem decls_declare_new : (tree.declare scope name kind position).2.decls[tree.decls.size]? =
    some ⟨name, kind, position, scope⟩ := by
  rw [declare, Array.getElem?_push, if_pos rfl]

theorem decls_declare_old {id : DeclId} {decl : Decl} (found : tree.decls[id]? = some decl) :
    (tree.declare scope name kind position).2.decls[id]? = some decl := by
  obtain ⟨inside, -⟩ := Array.getElem?_eq_some_iff.mp found
  rw [declare, Array.getElem?_push, if_neg (Nat.ne_of_lt inside), found]

theorem grows_declare : tree.Grows (tree.declare scope name kind position).2 where
  scopes other entry found := by
    rw [scopes_declare, found]
    split
    · exact ⟨_, rfl, older_declared _ _ _⟩
    · exact ⟨entry, rfl, .refl entry⟩
  decls id decl found := ⟨decl, decls_declare_old found, .refl decl⟩

theorem Formed.declare (formed : tree.Formed) (scope : ScopeId) (name : String) (kind : DeclKind)
    (position : Position) : (tree.declare scope name kind position).2.Formed := by
  have cases : ∀ ⦃other : ScopeId⦄ ⦃entry : Scope⦄,
      (tree.declare scope name kind position).2.scopes[other]? = some entry →
        tree.scopes[other]? = some entry ∨
          other = scope ∧ ∃ before, tree.scopes[other]? = some before ∧
            entry = declared before name tree.decls.size := by
    intro other entry found
    rw [scopes_declare] at found
    split at found
    · obtain ⟨before, was, rfl⟩ := Option.map_eq_some_iff.mp found
      exact .inr ⟨by symm; assumption, before, was, rfl⟩
    · exact .inl found
  refine ⟨?_, ?_, ?_, ?_⟩
  · obtain ⟨entry, found, top⟩ := Option.map_eq_some_iff.mp formed.root
    rw [links, scopes_declare, found]
    split
    · exact congrArg some top
    · exact congrArg some top
  · intro other entry found inner
    rcases cases found with found | ⟨-, before, was, rfl⟩
    · exact formed.inside found inner
    · obtain ⟨parent, up, below⟩ := formed.inside was inner
      exact ⟨parent, up, below⟩
  · intro other entry key id found member
    rcases cases found with found | ⟨rfl, before, was, rfl⟩
    · obtain ⟨decl, stored, facts⟩ := formed.listed found member
      exact ⟨decl, decls_declare_old stored, facts⟩
    · rcases List.mem_cons.mp member with same | member
      · obtain ⟨rfl, rfl⟩ := Prod.mk.inj same
        exact ⟨_, decls_declare_new, rfl, rfl⟩
      · obtain ⟨decl, stored, facts⟩ := formed.listed was member
        exact ⟨decl, decls_declare_old stored, facts⟩
  · intro other entry found
    rcases cases found with found | ⟨rfl, before, was, rfl⟩
    · exact formed.latest found
    · refine List.pairwise_cons.mpr ⟨fun entry member => ?_, formed.latest was⟩
      obtain ⟨decl, stored, -⟩ := formed.listed was member
      obtain ⟨inside, -⟩ := Array.getElem?_eq_some_iff.mp stored
      exact inside

end Declare

section MarkRebound

variable {tree : ScopeTree} {id : DeclId}

theorem decls_markRebound {decl : Decl} (stored : tree.decls[id]? = some decl) :
    (tree.markRebound id).decls[id]? = some { decl with kind := decl.kind.rebound } := by
  rw [markRebound, Array.getElem?_modify, if_pos rfl, stored, Option.map_some]
  rcases decl with ⟨name, kind, position, scope⟩
  cases kind <;> rfl

theorem grows_markRebound : tree.Grows (tree.markRebound id) where
  scopes scope entry found := ⟨entry, found, .refl entry⟩
  decls other decl found := by
    rw [markRebound, Array.getElem?_modify, found]
    split
    · refine ⟨_, rfl, ?_⟩
      rcases decl with ⟨name, kind, position, scope⟩
      cases kind with
      | assigned final node before => exact ⟨rfl, rfl, .rebound final node before⟩
      | _ => exact .refl _
    · exact ⟨decl, rfl, .refl decl⟩

theorem Formed.markRebound (formed : tree.Formed) : (tree.markRebound id).Formed where
  root := formed.root
  inside := formed.inside
  listed scope entry name other found member := by
    obtain ⟨decl, stored, named, placed⟩ := formed.listed found member
    obtain ⟨newer, stored, older⟩ := grows_markRebound.decls stored
    exact ⟨newer, stored, older.name.trans named, older.scope.trans placed⟩
  latest := formed.latest

end MarkRebound

/-! ### Trees built by these operations -/

/-- A tree made from a root scope by opening scopes, declaring names and noting assignments further in,
where scopes open and names are declared in scopes of the tree. -/
inductive Built : ScopeTree → Prop
  | new (owner : NodeId) : Built (.new owner)
  | push {tree : ScopeTree} {parent : ScopeId} (kind : ScopeKind) (owner : NodeId) : Built tree →
      parent < tree.scopes.size → Built (tree.push kind parent owner).2
  | declare {tree : ScopeTree} {scope : ScopeId} (name : String) (kind : DeclKind)
      (position : Position) : Built tree → scope < tree.scopes.size →
      Built (tree.declare scope name kind position).2
  | rebound {tree : ScopeTree} (id : DeclId) : Built tree → Built (tree.markRebound id)

theorem Built.formed (built : tree.Built) : tree.Formed := by
  induction built with
  | new owner => exact formed_new owner
  | push kind owner _ inside formed => exact formed.push inside kind owner
  | declare name kind position _ _ formed => exact formed.declare _ name kind position
  | rebound _ _ formed => exact formed.markRebound

end ScopeTree

end ScopedScript

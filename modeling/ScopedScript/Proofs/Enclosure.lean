/-
**Walks outward agree.**

What a name refers to, what an assignment reaches, which function is around a scope and whether one
scope is inside another are all found on the way outward, scope by scope:

* `ScopeTree.Formed.isWithin_trans` and others: being inside is an order, with the root on top;
* `ScopeTree.Formed.lookup_eq_some_iff`: a lookup finds the innermost scope that declares the name;
* `ScopeTree.Formed.lookupAssignable_eq`: an assignment reaches what a lookup finds, if that is not
  outside the function around it;
* `ScopeTree.walks_agree`: **all this of every tree that is built by its operations.**
-/

import ScopedScript.Proofs.Sight

namespace ScopedScript

namespace ScopeTree

variable {tree : ScopeTree} {scope inner outer function : ScopeId} {name : String} {id : DeclId}
variable {near far : List ScopeId}

theorem isWithin_iff : tree.isWithin inner outer ↔ outer ∈ tree.ancestors inner := by
  rw [isWithin_eq_contains]
  exact List.contains_iff_mem

theorem find?_append (near far : List ScopeId) :
    tree.find? name (near ++ far) = (tree.find? name near).or (tree.find? name far) := by
  induction near with
  | nil => rfl
  | cons first rest ih =>
    rw [List.cons_append, find?, find?, ih]
    cases tree.getIn? first name <;> rfl

/-- The walk for assignments stops behind the first function. -/
theorem untilFunction_append (plain : ∀ scope ∈ near, tree.kind? scope ≠ some .function)
    (stops : tree.kind? function = some .function) :
    tree.untilFunction (near ++ function :: far) = near ++ [function] := by
  induction near with
  | nil => rw [List.nil_append, untilFunction, if_pos stops, List.nil_append]
  | cons first rest ih =>
    obtain ⟨here, there⟩ := List.forall_mem_cons.mp plain
    rw [List.cons_append, untilFunction, if_neg here, ih there, List.cons_append]

theorem untilFunction_eq_self {scopes : List ScopeId}
    (plain : ∀ scope ∈ scopes, tree.kind? scope ≠ some .function) :
    tree.untilFunction scopes = scopes := by
  induction scopes with
  | nil => rfl
  | cons first rest ih =>
    obtain ⟨here, there⟩ := List.forall_mem_cons.mp plain
    rw [untilFunction, if_neg here, ih there]

namespace Formed

variable (formed : tree.Formed) (inside : scope < tree.scopes.size)

include formed inside

/-! ### Being inside -/

theorem isWithin_refl : tree.isWithin scope scope := by
  obtain ⟨rest, shape⟩ := (formed.ascent_ancestors inside).cons_eq
  rw [isWithin_iff, shape]
  exact List.mem_cons_self

/-- From a scope around another one, the same scopes follow. -/
theorem ancestors_suffix (split : tree.ancestors scope = near ++ outer :: far) :
    tree.ancestors outer = outer :: far := by
  have ascent := formed.ascent_ancestors inside
  rw [split] at ascent
  exact ancestors_eq ascent.suffix formed.descend

theorem isWithin_trans (first : tree.isWithin scope inner) (second : tree.isWithin inner outer) :
    tree.isWithin scope outer := by
  rw [isWithin_iff] at *
  obtain ⟨near, far, split⟩ := List.append_of_mem first
  rw [formed.ancestors_suffix inside split] at second
  rw [split]
  exact List.mem_append_right _ second

theorem le_of_isWithin (within : tree.isWithin scope outer) : outer ≤ scope :=
  (formed.ascent_ancestors inside).le formed.descend outer (isWithin_iff.mp within)

/-- What stands further in among the scopes around a scope is not around what stands further out. -/
theorem not_isWithin (split : tree.ancestors scope = near ++ far) (nearer : inner ∈ near)
    (further : outer ∈ far) : ¬ tree.isWithin outer inner := by
  intro within
  have ascent := formed.ascent_ancestors inside
  have member : outer ∈ tree.ancestors scope := by
    rw [split]
    exact List.mem_append_right _ further
  have below := formed.le_of_isWithin inside (isWithin_iff.mpr member)
  have above := formed.le_of_isWithin (Nat.lt_of_le_of_lt below inside) within
  have descends := ascent.descending formed.descend
  rw [split] at descends
  have apart := (List.pairwise_append.mp descends).2.2 inner nearer outer further
  exact absurd above (Nat.not_le_of_gt apart)

/-- Of the scopes around a scope, each one is inside those that follow. -/
theorem isWithin_last (split : tree.ancestors scope = (near ++ [outer]) ++ far)
    (nearer : inner ∈ near ++ [outer]) : tree.isWithin inner outer := by
  rw [List.append_assoc, List.singleton_append] at split
  rw [isWithin_iff]
  rcases List.mem_append.mp nearer with before | last
  · obtain ⟨first, between, rfl⟩ := List.append_of_mem before
    rw [List.append_assoc, List.cons_append] at split
    rw [formed.ancestors_suffix inside split]
    exact List.mem_cons_of_mem _ (List.mem_append_right _ List.mem_cons_self)
  · rw [List.mem_singleton.mp last, formed.ancestors_suffix inside split]
    exact List.mem_cons_self

theorem isWithin_root : tree.isWithin scope ScopeTree.root := by
  rw [isWithin_iff]
  have ascent := formed.ascent_ancestors inside
  generalize tree.ancestors scope = scopes at ascent
  induction ascent with
  | @last scope top =>
    by_cases outermost : scope = ScopeTree.root
    · rw [outermost]
      exact List.mem_cons_self
    · obtain ⟨entry, found, none⟩ := Option.map_eq_some_iff.mp top
      obtain ⟨parent, up, -⟩ := formed.inside found outermost
      rw [none] at up
      cases up
  | next up _ ih =>
    obtain ⟨entry, found, -⟩ := Option.map_eq_some_iff.mp up
    exact List.mem_cons_of_mem _ (ih (Nat.lt_trans (formed.descend up) (lt_size found)))

/-! ### What is found -/

/-- **A lookup finds the innermost scope that declares the name**, and its last declaration of it. -/
theorem lookup_eq_some_iff (lists : tree.Lists) :
    tree.lookup scope name = some (outer, id) ↔ tree.isWithin scope outer ∧
      (tree.Declares outer name id ∧ ∀ other, tree.Declares outer name other → other ≤ id) ∧
      ∀ around other, tree.isWithin scope around → tree.Declares around name other →
        tree.isWithin outer around := by
  rw [lookup_eq_find?, find?_eq_some_iff, ← getIn?_eq_some_iff formed lists]
  constructor
  · rintro ⟨near, far, split, absent, latest⟩
    refine ⟨?_, latest, fun around other within declares => ?_⟩
    · rw [isWithin_iff, split]
      exact List.mem_append_right _ List.mem_cons_self
    · rw [isWithin_iff, split] at within
      rw [isWithin_iff, formed.ancestors_suffix inside split]
      rcases List.mem_append.mp within with nearer | further
      · exact absurd declares ((getIn?_eq_none_iff formed lists).mp (absent around nearer) other)
      · exact further
  · rintro ⟨within, latest, innermost⟩
    obtain ⟨near, far, split⟩ := List.append_of_mem (isWithin_iff.mp within)
    refine ⟨near, far, split, fun around nearer => ?_, latest⟩
    refine (getIn?_eq_none_iff formed lists).mpr fun other declares => ?_
    have within' : tree.isWithin scope around := by
      rw [isWithin_iff, split]
      exact List.mem_append_left _ nearer
    exact formed.not_isWithin inside split nearer List.mem_cons_self
      (innermost around other within' declares)

/-- **An assignment reaches what a lookup finds**, unless that is outside the function around it. -/
theorem lookupAssignable_eq : tree.lookupAssignable scope name =
    (tree.lookup scope name).filter fun found =>
      (tree.enclosingFunction scope).all fun function => tree.isWithin found.1 function := by
  rw [lookupAssignable_eq_find?, lookup_eq_find?]
  cases around : tree.enclosingFunction scope with
  | none =>
    have plain : ∀ inner ∈ tree.ancestors scope, tree.kind? inner ≠ some .function := by
      simpa [enclosingFunction_eq_find?] using around
    rw [untilFunction_eq_self plain]
    cases tree.find? name (tree.ancestors scope) <;> rfl
  | some function =>
    rw [enclosingFunction_eq_find?] at around
    obtain ⟨stops, near, far, split, plain⟩ := List.find?_eq_some_iff_append.mp around
    have split' : tree.ancestors scope = (near ++ [function]) ++ far := by
      rw [split, List.append_assoc, List.singleton_append]
    have reached : tree.untilFunction (tree.ancestors scope) = near ++ [function] := by
      rw [split, untilFunction_append (by simpa using plain) (by simpa using stops)]
    rw [reached, split', find?_append (near ++ [function])]
    cases found : tree.find? name (near ++ [function]) with
    | some pair =>
      obtain ⟨before, after, shape, -⟩ := find?_eq_some_iff.mp found
      have within : tree.isWithin pair.1 function :=
        formed.isWithin_last inside split' (by rw [shape]; simp)
      exact (if_pos within).symm
    | none =>
      refine (Option.filter_eq_none_iff.mpr fun pair found' => ?_).symm
      obtain ⟨before, after, shape, -⟩ := find?_eq_some_iff.mp found'
      exact formed.not_isWithin inside split' (by simp) (by rw [shape]; simp)

end Formed

/-! ### Trees that are built -/

/-- **The walks through a tree agree with each other**, in every tree that is built by opening scopes in
scopes that are there and declaring names in them. The scopes that each of them goes through are the
whole way outward, which ends at a scope inside nothing; being inside is a partial order in which the
root is greatest; a lookup finds the innermost scope that declares the name, and its last declaration;
and an assignment reaches what a lookup finds, unless that is outside the function around it. -/
theorem walks_agree {tree : ScopeTree} (built : tree.Built) :
    (∀ scope < tree.scopes.size, Ascent tree.links scope (tree.ancestors scope)) ∧
    (∀ scope < tree.scopes.size, tree.isWithin scope scope ∧ tree.isWithin scope root) ∧
    (∀ inner < tree.scopes.size, ∀ middle outer, tree.isWithin inner middle →
      tree.isWithin middle outer → tree.isWithin inner outer) ∧
    (∀ one < tree.scopes.size, ∀ two < tree.scopes.size, tree.isWithin one two →
      tree.isWithin two one → one = two) ∧
    ∀ scope < tree.scopes.size, ∀ name,
      (∀ outer id, tree.lookup scope name = some (outer, id) ↔ tree.isWithin scope outer ∧
        (tree.Declares outer name id ∧ ∀ other, tree.Declares outer name other → other ≤ id) ∧
        ∀ around other, tree.isWithin scope around → tree.Declares around name other →
          tree.isWithin outer around) ∧
      tree.lookupAssignable scope name = (tree.lookup scope name).filter fun found =>
        (tree.enclosingFunction scope).all fun function => tree.isWithin found.1 function := by
  have formed := built.formed
  refine ⟨fun scope inside => formed.ascent_ancestors inside,
    fun scope inside => ⟨formed.isWithin_refl inside, formed.isWithin_root inside⟩,
    fun inner inside middle outer => formed.isWithin_trans inside,
    fun one inside two inside' first second => ?_,
    fun scope inside name => ⟨fun outer id => formed.lookup_eq_some_iff inside built.lists,
      formed.lookupAssignable_eq inside⟩⟩
  exact Nat.le_antisymm (formed.le_of_isWithin inside' second) (formed.le_of_isWithin inside first)

/-- A function with a block in it, and a variable around it. -/
def sheltered : ScopeTree :=
  let outer := ((new 0).declare root "x" (.assigned false 1 false) .start).2
  let opened := (outer.push .function root 2).2
  let declared := (opened.declare 1 "y" (.parameter 0) .start).2
  (declared.push .block 1 3).2

theorem walks_agree_sheltered : sheltered.Built ∧ sheltered.lookup 2 "x" = some (root, 0) ∧
    sheltered.lookupAssignable 2 "x" = none ∧ sheltered.lookupAssignable 2 "y" = some (1, 1) := by
  have built : sheltered.Built := .push _ _ (.declare _ _ _ (.push _ _
    (.declare _ _ _ (.new 0) (by decide)) (by decide)) (by decide)) (by decide)
  obtain ⟨-, -, -, -, finds⟩ := walks_agree built
  have reaches := fun name => (finds 2 (by decide) name).2
  refine ⟨built, by decide, ?_, ?_⟩
  · rw [reaches "x"]
    decide
  · rw [reaches "y"]
    decide

end ScopeTree

end ScopedScript

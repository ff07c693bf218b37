/-
**The tree of scopes.**

Scopes and declarations are numbered in the order in which they arise; scope `0` is the root. A scope
remembers every declaration made in it, and for each name the last one:

* `ScopeTree.push`, `ScopeTree.declare`: how a tree grows;
* `ScopeTree.lookup`: the innermost declaration of a name;
* `ScopeTree.lookupAssignable`: the same, but not beyond the parameters of the enclosing function;
* `ScopeTree.ancestors`: a scope and what encloses it, innermost first. Each walk comes to a function
  of this list, by `ScopeTree.search_eq`.
-/

import Std.Data.TreeMap
import ScopedScript.Ast
import ScopedScript.Builtin.Signature

namespace ScopedScript

abbrev ScopeId := Nat

abbrev DeclId := Nat

inductive DeclKind where
  /-- A variable, by the assignment `node`; `rebound` once an inner block of the same function
  assigns it again. -/
  | assigned (final : Bool) (node : NodeId) (rebound : Bool)
  | parameter (index : Nat)
  | function (node : NodeId) (arity : Nat)
  | loopVariable (node : NodeId)
  | comprehensionVariable (node : NodeId)
  | builtin (kind : ExportKind)
deriving DecidableEq, Repr

structure Decl where
  name : String
  kind : DeclKind
  position : Position
  scope : ScopeId
deriving DecidableEq, Repr

namespace Decl

/-- A variable that may not be assigned again. -/
def isFinal (decl : Decl) : Bool :=
  match decl.kind with
  | .assigned true _ _ => true
  | _ => false

/-- A function of the program or of the language. -/
def isFunction (decl : Decl) : Bool :=
  match decl.kind with
  | .function _ _ | .builtin (.function _) => true
  | _ => false

def isBuiltin (decl : Decl) : Bool :=
  match decl.kind with
  | .builtin _ => true
  | _ => false

end Decl

inductive ScopeKind where
  | root | block | function | loop | comprehension
deriving DecidableEq, Repr

structure Scope where
  kind : ScopeKind
  parent : Option ScopeId
  owner : NodeId
  /-- The declarations by name, latest first. -/
  names : List (String × DeclId)
  /-- Every declaration made here, in order. -/
  declarations : Array DeclId
deriving Repr

/-- The declaration that a new use of the name in this scope sees. -/
def Scope.get? (scope : Scope) (name : String) : Option DeclId := scope.names.lookup name

/-- Scopes and declarations by number, and the scope that each node opens. -/
structure ScopeTree where
  scopes : Array Scope
  decls : Array Decl
  owners : Std.TreeMap NodeId ScopeId

namespace ScopeTree

def root : ScopeId := 0

def new (owner : NodeId) : ScopeTree where
  scopes := #[⟨.root, none, owner, [], #[]⟩]
  decls := #[]
  owners := (∅ : Std.TreeMap NodeId ScopeId).insert owner root

/-- Opens a scope inside `parent`; gives its number. -/
def push (tree : ScopeTree) (kind : ScopeKind) (parent : ScopeId) (owner : NodeId) :
    ScopeId × ScopeTree :=
  (tree.scopes.size,
    { tree with
      scopes := tree.scopes.push ⟨kind, some parent, owner, [], #[]⟩
      owners := tree.owners.insert owner tree.scopes.size })

/-- Declares a name in a scope; later uses see this declaration. Gives its number. -/
def declare (tree : ScopeTree) (scope : ScopeId) (name : String) (kind : DeclKind)
    (position : Position) : DeclId × ScopeTree :=
  let id := tree.decls.size
  (id,
    { tree with
      decls := tree.decls.push ⟨name, kind, position, scope⟩
      scopes := tree.scopes.modify scope fun entry =>
        { entry with
          names := (name, id) :: entry.names
          declarations := entry.declarations.push id } })

/-- Notes that an inner block assigns a variable again. -/
def markRebound (tree : ScopeTree) (decl : DeclId) : ScopeTree :=
  { tree with
    decls := tree.decls.modify decl fun entry =>
      match entry.kind with
      | .assigned final node _ => { entry with kind := .assigned final node true }
      | _ => entry }

def scopeOf? (tree : ScopeTree) (owner : NodeId) : Option ScopeId := tree.owners[owner]?

def parent? (tree : ScopeTree) (scope : ScopeId) : Option ScopeId :=
  tree.scopes[scope]?.bind Scope.parent

def kind? (tree : ScopeTree) (scope : ScopeId) : Option ScopeKind :=
  tree.scopes[scope]?.map Scope.kind

/-- The last declaration of a name in one scope. -/
def getIn? (tree : ScopeTree) (scope : ScopeId) (name : String) : Option DeclId :=
  tree.scopes[scope]?.bind fun entry => entry.get? name

/-! ### Walks -/

/-- Walks outward from a scope, over at most `bound` scopes. At each one `visit` says whether the walk
ends there, and with what. -/
def walk {α : Type} (tree : ScopeTree) (visit : ScopeId → Scope → Option (Option α)) :
    Nat → ScopeId → Option α
  | 0, _ => none
  | bound + 1, scope =>
    match tree.scopes[scope]? with
    | none => none
    | some entry =>
      match visit scope entry with
      | some result => result
      | none =>
        match entry.parent with
        | none => none
        | some parent => tree.walk visit bound parent

/-- A walk from a scope to the root. A scope opens inside one with a smaller number, so its number
bounds the walk. -/
def search {α : Type} (tree : ScopeTree) (scope : ScopeId)
    (visit : ScopeId → Scope → Option (Option α)) : Option α :=
  tree.walk visit (scope + 1) scope

/-- The innermost declaration of a name as seen from a scope. -/
def lookup (tree : ScopeTree) (scope : ScopeId) (name : String) : Option (ScopeId × DeclId) :=
  tree.search scope fun id entry => (entry.get? name).map fun decl => some (id, decl)

/-- What an assignment to a name in a scope reaches: never beyond the parameters of the function
around it. -/
def lookupAssignable (tree : ScopeTree) (scope : ScopeId) (name : String) :
    Option (ScopeId × DeclId) :=
  tree.search scope fun id entry =>
    match entry.get? name with
    | some decl => some (some (id, decl))
    | none => if entry.kind = .function then some none else none

/-- The innermost function scope around a scope, or the scope itself. -/
def enclosingFunction (tree : ScopeTree) (scope : ScopeId) : Option ScopeId :=
  tree.search scope fun id entry => if entry.kind = .function then some (some id) else none

/-- Whether `ancestor` is the scope or encloses it. -/
def isWithin (tree : ScopeTree) (scope ancestor : ScopeId) : Bool :=
  (tree.search scope fun id _ => if id = ancestor then some (some ()) else none).isSome

/-! ### The scopes on the way -/

/-- A scope and what encloses it, innermost first, over at most `bound` scopes. -/
def climb (tree : ScopeTree) : Nat → ScopeId → List ScopeId
  | 0, _ => []
  | bound + 1, scope =>
    match tree.scopes[scope]? with
    | none => []
    | some entry =>
      scope ::
        match entry.parent with
        | none => []
        | some parent => tree.climb bound parent

/-- A scope and what encloses it, innermost first. -/
def ancestors (tree : ScopeTree) (scope : ScopeId) : List ScopeId :=
  tree.climb (scope + 1) scope

/-- The first of these scopes that declares a name, and its last declaration there. -/
def find? (tree : ScopeTree) (name : String) : List ScopeId → Option (ScopeId × DeclId)
  | [] => none
  | scope :: rest =>
    match tree.getIn? scope name with
    | some decl => some (scope, decl)
    | none => tree.find? name rest

/-- These scopes up to the first function scope, which is included. -/
def untilFunction (tree : ScopeTree) : List ScopeId → List ScopeId
  | [] => []
  | scope :: rest =>
    if tree.kind? scope = some .function then [scope] else scope :: tree.untilFunction rest

/-- A search comes to what is computed from the scopes on the way, one after the other. -/
theorem search_eq {α : Type} {tree : ScopeTree} {visit : ScopeId → Scope → Option (Option α)}
    (compute : List ScopeId → Option α) (ends : compute [] = none)
    (passes : ∀ scope entry rest, tree.scopes[scope]? = some entry →
      compute (scope :: rest) = (visit scope entry).getD (compute rest)) (scope : ScopeId) :
    tree.search scope visit = compute (tree.ancestors scope) := by
  rw [search, ancestors]
  generalize scope + 1 = bound
  induction bound generalizing scope with
  | zero => exact ends.symm
  | succ bound ih =>
    rw [walk, climb]
    cases found : tree.scopes[scope]? with
    | none => exact ends.symm
    | some entry =>
      simp only [passes scope entry _ found]
      cases visit scope entry with
      | some result => rfl
      | none =>
        cases entry.parent with
        | none => exact ends.symm
        | some parent => exact ih parent

theorem lookup_eq_find? (tree : ScopeTree) (scope : ScopeId) (name : String) :
    tree.lookup scope name = tree.find? name (tree.ancestors scope) := by
  refine search_eq (tree.find? name) rfl (fun scope entry rest found => ?_) scope
  rw [find?, getIn?, found, Option.bind_some]
  cases entry.get? name <;> rfl

theorem lookupAssignable_eq_find? (tree : ScopeTree) (scope : ScopeId) (name : String) :
    tree.lookupAssignable scope name =
      tree.find? name (tree.untilFunction (tree.ancestors scope)) := by
  refine search_eq (fun scopes => tree.find? name (tree.untilFunction scopes)) rfl
    (fun scope entry rest found => ?_) scope
  rw [untilFunction, kind?, found, Option.map_some]
  by_cases stops : entry.kind = .function
  · rw [if_pos (congrArg some stops), find?, getIn?, found, Option.bind_some]
    cases entry.get? name <;> simp [stops, find?]
  · rw [if_neg (stops ∘ Option.some.inj), find?, getIn?, found, Option.bind_some]
    cases entry.get? name <;> simp [stops]

theorem enclosingFunction_eq_find? (tree : ScopeTree) (scope : ScopeId) :
    tree.enclosingFunction scope =
      (tree.ancestors scope).find? fun ancestor => tree.kind? ancestor = some .function := by
  refine search_eq (List.find? _) rfl (fun scope entry rest found => ?_) scope
  rw [List.find?_cons, kind?, found, Option.map_some]
  by_cases stops : entry.kind = .function <;> simp [stops]

theorem isWithin_eq_contains (tree : ScopeTree) (scope ancestor : ScopeId) :
    tree.isWithin scope ancestor = (tree.ancestors scope).contains ancestor := by
  have found : tree.search scope (fun id _ => if id = ancestor then some (some ()) else none) =
      if (tree.ancestors scope).contains ancestor then some () else none := by
    refine search_eq (fun scopes => if scopes.contains ancestor then some () else none) rfl
      (fun scope entry rest _ => ?_) scope
    by_cases here : scope = ancestor
    · simp [here]
    · simp [here, Ne.symm here]
  rw [isWithin, found]
  cases (tree.ancestors scope).contains ancestor <;> rfl

end ScopeTree

end ScopedScript

/-
**Resolving names.**

The steps of a program are taken one after another. Each use of a name is looked up among the scopes
as they are at that moment; a name that is not found then is looked at again when all is declared,
which tells a name used too early from one that is never declared:

* `Resolver.take`: the effect of one step;
* `Resolver.late`: the verdict on a name that was not found at its use;
* `Program.resolve`: the tree of scopes, what each name refers to, and the problems.
-/

import ScopedScript.Diagnostic
import ScopedScript.Options
import ScopedScript.Scope.Steps

namespace ScopedScript

/-- What a name refers to: the scope that holds the declaration, and the declaration. -/
structure Resolution where
  scope : ScopeId
  decl : DeclId
deriving DecidableEq, Repr

/-- A use of a name that was not found when it was met. -/
structure Deferred where
  name : String
  scope : ScopeId
  position : Position
deriving DecidableEq, Repr

/-- What name resolution has done so far. -/
structure Resolver where
  tree : ScopeTree
  current : ScopeId
  resolutions : Std.TreeMap NodeId Resolution
  deferred : List Deferred
  problems : List Diagnostic

namespace Resolver

/-- The root scope with the built-in names in it. -/
def builtins (owner : NodeId) : ScopeTree :=
  Export.standard.foldl
    (fun tree entry => (tree.declare ScopeTree.root entry.name (.builtin entry.kind) .nowhere).2)
    (ScopeTree.new owner)

/-- Before the first step: the root scope with the built-in names. -/
def initial (owner : NodeId) : Resolver where
  tree := builtins owner
  current := ScopeTree.root
  resolutions := ∅
  deferred := []
  problems := []

def complain (resolver : Resolver) (problem : Problem) (name : Ident) : Resolver :=
  { resolver with problems := resolver.problems ++ [⟨problem, name.position⟩] }

def bind (resolver : Resolver) (name : Ident) (resolution : Resolution) : Resolver :=
  { resolver with resolutions := resolver.resolutions.insert name.id resolution }

/-- Declares a name in the current scope, and makes it refer to that declaration. -/
def declare (resolver : Resolver) (name : Ident) (kind : DeclKind) : Resolver :=
  let (decl, tree) := resolver.tree.declare resolver.current name.name kind name.position
  { resolver with tree := tree }.bind name ⟨resolver.current, decl⟩

/-- A use refers to the innermost declaration that exists by now, if any. -/
def use (resolver : Resolver) (name : Ident) : Resolver :=
  match resolver.tree.lookup resolver.current name.name with
  | some (scope, decl) => resolver.bind name ⟨scope, decl⟩
  | none =>
    { resolver with
      deferred := resolver.deferred ++ [⟨name.name, resolver.current, name.position⟩] }

/-- An assignment declares a variable, or assigns again what it reaches. -/
def assign (resolver : Resolver) (name : Ident) (node : NodeId) (final : Bool) : Resolver :=
  let fresh := DeclKind.assigned final node false
  match resolver.tree.lookupAssignable resolver.current name.name with
  | none => resolver.declare name fresh
  | some (scope, id) =>
    match resolver.tree.decls[id]? with
    | none => resolver.declare name fresh
    | some decl =>
      if decl.isBuiltin then resolver.complain (.builtinAssigned name.name) name
      else if decl.isFinal then resolver.complain (.finalAssigned name.name) name
      else if final || scope == resolver.current || decl.isFunction then
        resolver.declare name fresh
      else { resolver with tree := resolver.tree.markRebound id }.bind name ⟨scope, id⟩

/-- The declaration that a definition of this name would clash with: a function of the current
scope, or a built-in name. -/
def clash? (resolver : Resolver) (name : String) : Option Decl :=
  let own := (resolver.tree.getIn? resolver.current name).bind fun id =>
    resolver.tree.decls[id]?.filter Decl.isFunction
  own <|> (resolver.tree.lookup resolver.current name).bind fun found =>
    resolver.tree.decls[found.2]?.filter Decl.isBuiltin

/-- A definition declares its function, unless it clashes and may not. -/
def define (policy : Redeclaration) (resolver : Resolver) (name : Ident) (node : NodeId)
    (arity : Nat) : Resolver :=
  match policy, resolver.clash? name.name with
  | .refuse, some decl =>
    if decl.isBuiltin then resolver.complain (.functionIsBuiltin name.name) name
    else resolver.complain (.functionRepeated name.name) name
  | _, _ => resolver.declare name (.function node arity)

/-- A parameter is declared even if its name repeats an earlier one. -/
def parameter (resolver : Resolver) (name : Ident) (index : Nat) : Resolver :=
  let resolver :=
    if (resolver.tree.getIn? resolver.current name.name).isSome then
      resolver.complain (.parameterRepeated name.name) name
    else resolver
  resolver.declare name (.parameter index)

/-- Opens a scope inside the current one and goes into it. -/
def enter (resolver : Resolver) (kind : ScopeKind) (owner : NodeId) : Resolver :=
  let (scope, tree) := resolver.tree.push kind resolver.current owner
  { resolver with tree := tree, current := scope }

/-- Goes back to the scope around the current one. -/
def leave (resolver : Resolver) : Resolver :=
  { resolver with current := (resolver.tree.parent? resolver.current).getD ScopeTree.root }

def take (policy : Redeclaration) (resolver : Resolver) : ScopeStep → Resolver
  | .enter kind owner => resolver.enter kind owner
  | .leave => resolver.leave
  | .use name => resolver.use name
  | .declare name kind => resolver.declare name kind
  | .parameter name index => resolver.parameter name index
  | .define name node arity => resolver.define policy name node arity
  | .assign name node final => resolver.assign name node final

/-- The verdict on a name that was not found at its use, once everything is declared. -/
def late (tree : ScopeTree) (deferred : Deferred) : Diagnostic :=
  match tree.lookup deferred.scope deferred.name with
  | some _ => ⟨.usedTooEarly deferred.name, deferred.position⟩
  | none => ⟨.unresolved deferred.name, deferred.position⟩

end Resolver

/-- The scopes of a program, what its names refer to, and what is wrong with them. -/
structure Scoping where
  tree : ScopeTree
  resolutions : Std.TreeMap NodeId Resolution
  problems : List Diagnostic

def Program.resolve (policy : Redeclaration) (program : Program) : Scoping :=
  let final := program.scopeSteps.foldl (Resolver.take policy) (.initial program.id)
  { tree := final.tree
    resolutions := final.resolutions
    problems := final.problems ++ final.deferred.map (Resolver.late final.tree) }

end ScopedScript

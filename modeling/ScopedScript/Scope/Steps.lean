/-
**The order of scoping.**

A program is a sequence of steps for whoever resolves its names: scopes open and close, names are
declared, assigned and used. `Program.scopeSteps` lists them in the order in which they take effect.
The source of a loop and of a comprehension comes before the scope of its variable, and the value of
an assignment before its target.
-/

import ScopedScript.Scope.Tree

namespace ScopedScript

inductive ScopeStep where
  | enter (kind : ScopeKind) (owner : NodeId)
  | leave
  | use (name : Ident)
  /-- The variable of a loop or a comprehension. -/
  | declare (name : Ident) (kind : DeclKind)
  | parameter (name : Ident) (index : Nat)
  | define (name : Ident) (node : NodeId) (arity : Nat)
  /-- An assignment to a name, by the node of the assignment. -/
  | assign (name : Ident) (node : NodeId) (final : Bool)
deriving DecidableEq, Repr

def paramSteps (params : List Ident) : List ScopeStep :=
  params.mapIdx fun index param => .parameter param index

mutual

def Expr.scopeSteps : Expr → List ScopeStep
  | .int _ _ | .bool _ _ | .text _ _ | .none _ => []
  | .name tag name => [.use ⟨tag.id, name, tag.position⟩]
  | .binary _ _ left right => left.scopeSteps ++ right.scopeSteps
  | .unary _ _ operand => operand.scopeSteps
  | .index _ base index => base.scopeSteps ++ index.scopeSteps
  | .array _ items => exprsSteps items
  | .sized _ size => size.scopeSteps
  | .map _ entries => entriesSteps entries
  | .comprehension tag element binder source filter =>
    source.scopeSteps ++ [.enter .comprehension tag.id,
      .declare binder (.comprehensionVariable tag.id)] ++ optionSteps filter
      ++ element.scopeSteps ++ [.leave]
  | .call _ callee args => .use callee :: exprsSteps args

def exprsSteps : List Expr → List ScopeStep
  | [] => []
  | first :: rest => first.scopeSteps ++ exprsSteps rest

/-- The steps of map entries in a row, each key before its value. -/
def entriesSteps : List (Expr × Expr) → List ScopeStep
  | [] => []
  | (key, value) :: rest => key.scopeSteps ++ value.scopeSteps ++ entriesSteps rest

/-- The steps of an expression that may be absent. -/
def optionSteps : Option Expr → List ScopeStep
  | none => []
  | some expr => expr.scopeSteps

end

/-- The steps of an assignment: the value first. -/
def assignSteps (tag : Tag) (target : Target) (value : Expr) (final : Bool) : List ScopeStep :=
  value.scopeSteps ++
    match target with
    | .name ident => [.assign ident tag.id final]
    | .element _ base index => base.scopeSteps ++ index.scopeSteps

mutual

def Stmt.scopeSteps : Stmt → List ScopeStep
  | .expr value => value.scopeSteps
  | .assign tag target value final => assignSteps tag target value final
  | .cond _ condition body branches =>
    condition.scopeSteps ++ body.scopeSteps ++ branchesSteps branches
  | .loop _ condition body => condition.scopeSteps ++ body.scopeSteps
  | .each tag binder source body =>
    source.scopeSteps ++ [.enter .loop tag.id, .declare binder (.loopVariable tag.id)]
      ++ body.scopeSteps ++ [.leave]
  | .define tag name params body =>
    [.define name tag.id params.length, .enter .function tag.id] ++ paramSteps params
      ++ body.scopeSteps ++ [.leave]
  | .ret _ value => optionSteps value

/-- The steps of a block, in a scope of its own. -/
def Block.scopeSteps : Block → List ScopeStep
  | .mk tag stmts => .enter .block tag.id :: (stmtsSteps stmts ++ [.leave])

def stmtsSteps : List Stmt → List ScopeStep
  | [] => []
  | first :: rest => first.scopeSteps ++ stmtsSteps rest

/-- The steps of clauses in a row, each condition before its block. -/
def branchesSteps : List Branch → List ScopeStep
  | [] => []
  | .mk _ condition body :: rest =>
    optionSteps condition ++ body.scopeSteps ++ branchesSteps rest

end

def Program.scopeSteps (program : Program) : List ScopeStep := program.body.scopeSteps

end ScopedScript

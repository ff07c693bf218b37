/-
**Checking the types of a program.**

Every expression, assignment and condition registers rules for its types; then the rules are settled
in the order of their dependencies. A name takes the type of its declaration, so its use may be
registered before the assignment that gives the type:

* `Expr.registrations`, `Stmt.registrations`: what a construct registers, in order;
* `seeds`: the declarations whose type does not come from an expression;
* `Program.check`: the types of nodes and declarations, and the problems: those found while
  registering, then those found while settling.
-/

import ScopedScript.Scope.Resolve
import ScopedScript.Typing.RuleSet
import ScopedScript.Typing.Rules

namespace ScopedScript

/-- What a construct registers. -/
inductive Registration where
  | set (key : Attribute) (ty : Ty)
  | fail (key : Attribute)
  | rule (rule : Rule Diagnostic)
  /-- A problem that needs no types. -/
  | problem (diagnostic : Diagnostic)

namespace Registration

def node (tag : Tag) (deps : List Attribute) (compute : List Ty → Except Diagnostic Ty) :
    Registration :=
  .rule ⟨deps, some (.node tag.id), tag.position, compute⟩

def copy (input output : Attribute) (position : Position) : Registration :=
  .rule ⟨[input], some output, position, Typing.one .unknown .ok⟩

def check (deps : List Attribute) (position : Position)
    (test : List Ty → Except Diagnostic Unit) : Registration :=
  .rule ⟨deps, none, position, fun types => do test types; return .unknown⟩

end Registration

/-- The attribute that holds the type of an expression. -/
def Expr.typeKey (expr : Expr) : Attribute := .node expr.id

namespace Scoping

/-- The declaration that a node refers to. -/
def declOf? (scoping : Scoping) (node : NodeId) : Option (DeclId × Decl) :=
  scoping.resolutions[node]?.bind fun resolution =>
    scoping.tree.decls[resolution.decl]?.map fun decl => (resolution.decl, decl)

/-- A name takes the type of its declaration; without one it fails, as that is reported already. -/
def nameRegistration (scoping : Scoping) (tag : Tag) : Registration :=
  match scoping.resolutions[tag.id]? with
  | some resolution => .copy (.decl resolution.decl) (.node tag.id) tag.position
  | none => .fail (.node tag.id)

/-- How many arguments a declaration takes, and its signature if it is built in. -/
def callable? : DeclKind → Option (Nat × Option Signature)
  | .function _ arity => some (arity, none)
  | .builtin (.function signature) => some (signature.arity, some signature)
  | _ => none

def callRegistrations (scoping : Scoping) (tag : Tag) (callee : Ident) (args : List Expr) :
    List Registration :=
  let out := Attribute.node tag.id
  match scoping.declOf? callee.id with
  | none => [.fail out]
  | some (_, decl) =>
    match callable? decl.kind with
    | none => [.problem ⟨.notCallable callee.name, callee.position⟩, .fail out]
    | some (arity, signature) =>
      if args.length ≠ arity then
        [.problem ⟨.argumentCount callee.name arity args.length, callee.position⟩, .fail out]
      else
        match signature with
        | none => [.set out .unknown]
        | some signature =>
          [.node tag (args.map Expr.typeKey)
            (Typing.call callee.name signature (args.map Expr.position))]

end Scoping

def comprehensionRegistration (tag : Tag) (source : Expr) (filter : Option Expr) : Registration :=
  .node tag (source.typeKey :: (filter.map Expr.typeKey).toList)
    (Typing.comprehension source.position (filter.map Expr.position))

mutual

/-- What an expression registers, its parts first. -/
def Expr.registrations (scoping : Scoping) : Expr → List Registration
  | .int tag _ => [.set (.node tag.id) .int]
  | .bool tag _ => [.set (.node tag.id) .bool]
  | .text tag _ => [.set (.node tag.id) .string]
  | .none tag => [.set (.node tag.id) .none]
  | .name tag _ => [scoping.nameRegistration tag]
  | .binary tag op left right =>
    left.registrations scoping ++ right.registrations scoping ++
      [.node tag [left.typeKey, right.typeKey]
        (Typing.two .unknown (Typing.binary op tag.position))]
  | .unary tag op operand =>
    operand.registrations scoping ++
      [.node tag [operand.typeKey] (Typing.one .unknown (Typing.unary op tag.position))]
  | .index tag base index =>
    base.registrations scoping ++ index.registrations scoping ++
      [.node tag [base.typeKey, index.typeKey]
        (Typing.two .unknown (Typing.index tag.position))]
  | .array tag items =>
    exprsRegistrations scoping items ++
      [.node tag (items.map Expr.typeKey) fun _ => .ok .array]
  | .sized tag size =>
    size.registrations scoping ++
      [.node tag [size.typeKey] fun types => do
        Typing.one () (Typing.fits .arraySize size.position) types
        return .array]
  | .map tag entries =>
    entriesRegistrations scoping entries ++
      [.node tag (entries.map fun entry => entry.1.typeKey)
        (Typing.keys (entries.map fun entry => entry.1.position))]
  | .comprehension tag element _ source filter =>
    source.registrations scoping ++ optionRegistrations scoping filter
      ++ element.registrations scoping ++ [comprehensionRegistration tag source filter]
  | .call tag callee args =>
    exprsRegistrations scoping args ++ scoping.callRegistrations tag callee args

def exprsRegistrations (scoping : Scoping) : List Expr → List Registration
  | [] => []
  | first :: rest => first.registrations scoping ++ exprsRegistrations scoping rest

def entriesRegistrations (scoping : Scoping) : List (Expr × Expr) → List Registration
  | [] => []
  | (key, value) :: rest =>
    key.registrations scoping ++ value.registrations scoping ++ entriesRegistrations scoping rest

/-- What an expression that may be absent registers. -/
def optionRegistrations (scoping : Scoping) : Option Expr → List Registration
  | none => []
  | some expr => expr.registrations scoping

end

/-- What the condition of a statement registers. -/
def conditionRegistrations (scoping : Scoping) (condition : Expr) : List Registration :=
  condition.registrations scoping ++
    [.check [condition.typeKey] condition.position
      (Typing.one () (Typing.fits .condition condition.position))]

/-- What an assignment to a name registers for its declaration: only the assignment that introduced
a variable, never assigned again further in, gives it its type. -/
def nameTargetRegistrations (scoping : Scoping) (tag : Tag) (value : Expr) (ident : Ident) :
    List Registration :=
  match scoping.declOf? ident.id with
  | some (id, decl) =>
    match decl.kind with
    | .assigned _ node false =>
      if node = tag.id then [.copy value.typeKey (.decl id) tag.position] else []
    | _ => []
  | none => []

def assignRegistrations (scoping : Scoping) (tag : Tag) (target : Target) (value : Expr) :
    List Registration :=
  value.registrations scoping ++ .copy value.typeKey (.node tag.id) tag.position ::
    match target with
    | .name ident => nameTargetRegistrations scoping tag value ident
    | .element slot base index =>
      base.registrations scoping ++ index.registrations scoping ++
        [.node slot [base.typeKey, index.typeKey]
          (Typing.two .unknown (Typing.index slot.position)),
        .check [value.typeKey, .node slot.id] value.position
          (Typing.two () (Typing.store value.position))]

mutual

def Stmt.registrations (scoping : Scoping) : Stmt → List Registration
  | .expr value => value.registrations scoping
  | .assign tag target value _ => assignRegistrations scoping tag target value
  | .cond _ condition body branches =>
    conditionRegistrations scoping condition ++ body.registrations scoping
      ++ branchesRegistrations scoping branches
  | .loop _ condition body =>
    conditionRegistrations scoping condition ++ body.registrations scoping
  | .each _ _ source body =>
    source.registrations scoping ++
      .check [source.typeKey] source.position
        (Typing.one () (Typing.fits .loopSource source.position)) :: body.registrations scoping
  | .define tag _ _ body => .set (.node tag.id) .unknown :: body.registrations scoping
  | .ret _ value => optionRegistrations scoping value

def Block.registrations (scoping : Scoping) : Block → List Registration
  | .mk _ stmts => stmtsRegistrations scoping stmts

def stmtsRegistrations (scoping : Scoping) : List Stmt → List Registration
  | [] => []
  | first :: rest => first.registrations scoping ++ stmtsRegistrations scoping rest

def branchesRegistrations (scoping : Scoping) : List Branch → List Registration
  | [] => []
  | .mk _ none body :: rest => body.registrations scoping ++ branchesRegistrations scoping rest
  | .mk _ (some condition) body :: rest =>
    conditionRegistrations scoping condition ++ body.registrations scoping
      ++ branchesRegistrations scoping rest

end

/-- The type that a declaration has without looking at any expression. -/
def DeclKind.seed? : DeclKind → Option Ty
  | .builtin (.constant ty) => some ty
  | .assigned _ _ false => none
  | _ => some .unknown

/-- The declarations whose type does not come from an expression. -/
def seeds (tree : ScopeTree) : List Registration :=
  tree.decls.toList.zipIdx.filterMap fun entry =>
    entry.1.kind.seed?.map fun ty => .set (.decl entry.2) ty

def Program.registrations (program : Program) (scoping : Scoping) : List Registration :=
  seeds scoping.tree ++ program.body.registrations scoping

def RuleSet.register (set : RuleSet Diagnostic) : Registration → RuleSet Diagnostic
  | .set key ty => set.set key ty
  | .fail key => set.fail key
  | .rule rule => set.rule rule
  | .problem _ => set

/-- The problem of a registration, if it is one. -/
def Registration.problem? : Registration → Option Diagnostic
  | .problem diagnostic => some diagnostic
  | _ => none

def Program.rules (program : Program) (scoping : Scoping) : RuleSet Diagnostic :=
  (program.registrations scoping).foldl RuleSet.register .empty

/-- The types of a program, and the problems with them. -/
def Program.check (program : Program) (scoping : Scoping) : Solution Diagnostic :=
  let solution := (program.rules scoping).solve fun position => ⟨.undetermined, position⟩
  { solution with
    errors := (program.registrations scoping).filterMap Registration.problem? ++ solution.errors }

end ScopedScript

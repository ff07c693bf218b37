/-
**Analysis of a program.**

Three passes look at a program: names, types, and structure. All of them run, whatever the others
find, and what they find is listed in reading order:

* `Block.misplaced`: the structural problems, a `return` outside every function and clauses after
  an `else`;
* `Analysis`: what a program without problems is known to be;
* `Program.analyze`: the analysis, or all problems.
-/

import ScopedScript.Typing.Check

namespace ScopedScript

/-! ### Structure -/

/-- The clauses that follow an `else`; `seen` says that one came before. -/
def clauseProblems : Bool → List Branch → List Diagnostic
  | _, [] => []
  | seen, .mk position condition _ :: rest =>
    let problem := if condition.isSome then Problem.elsifAfterElse else .elseAfterElse
    (if seen then [⟨problem, position⟩] else []) ++ clauseProblems (seen || condition.isNone) rest

mutual

/-- The structural problems of a statement; `inside` says that a function is around it. -/
def Stmt.misplaced (inside : Bool) : Stmt → List Diagnostic
  | .ret position _ => if inside then [] else [⟨.returnOutside, position⟩]
  | .define _ _ _ body => body.misplaced true
  | .cond _ _ body branches =>
    clauseProblems false branches ++ body.misplaced inside ++ branchesMisplaced inside branches
  | .loop _ _ body => body.misplaced inside
  | .each _ _ _ body => body.misplaced inside
  | .expr _ | .assign _ _ _ _ => []

def Block.misplaced (inside : Bool) : Block → List Diagnostic
  | .mk _ stmts => stmtsMisplaced inside stmts

/-- The structural problems of statements in a row. -/
def stmtsMisplaced (inside : Bool) : List Stmt → List Diagnostic
  | [] => []
  | first :: rest => first.misplaced inside ++ stmtsMisplaced inside rest

/-- The structural problems in clauses in a row. -/
def branchesMisplaced (inside : Bool) : List Branch → List Diagnostic
  | [] => []
  | .mk _ _ body :: rest => body.misplaced inside ++ branchesMisplaced inside rest

end

/-! ### The whole analysis -/

/-- What is known of a program without problems. -/
structure Analysis where
  tree : ScopeTree
  resolutions : Std.TreeMap NodeId Resolution
  types : Std.TreeMap NodeId Ty
  declTypes : Std.TreeMap DeclId Ty

/-- Analyses a program: all that is known of it, or all that is wrong with it. -/
def Program.analyze (program : Program) (options : Options) : Except (List Diagnostic) Analysis :=
  let scoping := program.resolve options.redeclaration
  let solution := program.check scoping
  let problems := scoping.problems ++ solution.errors ++ program.body.misplaced false
  if problems.isEmpty then
    .ok
      { tree := scoping.tree
        resolutions := scoping.resolutions
        types := solution.nodeTypes
        declTypes := solution.declTypes }
  else .error (Diagnostic.sort problems)

end ScopedScript

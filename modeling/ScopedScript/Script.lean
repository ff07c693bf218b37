/-
**Scripts.**

A script is a program that was read and analysed without problems. It can be run any number of
times; runs share nothing but the folder:

* `Script.compile`, `Script.ofProgram`: a script from a text, or from a program built otherwise;
* `Host`: what a run is given;
* `Script.start`: the first configuration of a run;
* `Script.runOn`: a run, `Ending` how it ended, `Ending.folder` the files it leaves;
* `Failure`: why a program gave no value.
-/

import ScopedScript.Ast.Parse
import ScopedScript.Machine.Run
import ScopedScript.Token.Scan

namespace ScopedScript

/-- A program without problems, and how it is to be run. -/
structure Script where
  program : Program
  analysis : Analysis
  options : Options

/-! ### The functions of a program -/

mutual

/-- The functions that a statement defines, outer ones first. -/
def Stmt.functions : Stmt → List Function
  | .define tag name params body => ⟨tag.id, name, params, body⟩ :: body.functions
  | .cond _ _ body branches => body.functions ++ branchesFunctions branches
  | .loop _ _ body => body.functions
  | .each _ _ _ body => body.functions
  | _ => []

/-- The functions that a block defines, in source order. -/
def Block.functions : Block → List Function
  | .mk _ stmts => stmtsFunctions stmts

def stmtsFunctions : List Stmt → List Function
  | [] => []
  | stmt :: rest => stmt.functions ++ stmtsFunctions rest

def branchesFunctions : List Branch → List Function
  | [] => []
  | .mk _ _ body :: rest => body.functions ++ branchesFunctions rest

end

/-- The functions of a program by node; of two with one node the later counts. -/
def Program.functionTable (program : Program) : Std.TreeMap NodeId Function :=
  program.body.functions.foldl (fun table function => table.insert function.id function) ∅

/-- How a run ended, and the world it ended in, in which only the value of the run is referred to. -/
structure Ending where
  outcome : Outcome
  world : World

/-- The files that a run leaves once its value is given up as well. -/
def Ending.folder (ending : Ending) : Folder :=
  match ending.outcome with
  | .value value => (ending.world.release [] [value]).files.folder
  | _ => ending.world.files.folder

/-- Why a program gave no value: it has problems and is not run, or its run failed. -/
inductive Failure where
  | diagnostics (problems : List Diagnostic)
  | fault (reason : Fault)

def Failure.message : Failure → String
  | .diagnostics problems =>
    "analysis failed with " ++ Decimal.natText problems.length ++ " diagnostic(s)"
  | .fault reason => reason.text

/-- What a run is given: the arguments, the folder, a limit on the output if there is one, the size
up to which an array can be made, and the order in which each frame gives up its values. -/
structure Host where
  args : List String
  folder : Folder
  limit : Option Nat
  largest : Nat := World.usualLargest
  places : Nat → List Nat := fun _ => []

/-- No arguments, an empty folder and no limits. -/
def Host.bare : Host := { args := [], folder := .empty, limit := none }

namespace Script

def ofProgram (program : Program) (options : Options) : Except (List Diagnostic) Script := do
  let analysis ← program.analyze options
  return { program, analysis, options }

def compile (source : String) (options : Options) : Except (List Diagnostic) Script := do
  let lexemes ← Token.scan source
  let program ← Program.parse lexemes
  ofProgram program options

def code (script : Script) : Code where
  analysis := script.analysis
  functions := script.program.functionTable
  maxCallDepth := script.options.maxCallDepth

/-- The first frame, which holds the built-in values. -/
def firstStore (host : Host) : Store :=
  Constant.all.foldl (fun store constant =>
    match store.act (constant.value host.args) with
    | (.ok value, store) => store.bind 0 constant.name value
    | (.error _, store) => store)
    ⟨.root ScopeTree.root, 0, none, .new host.folder host.limit host.largest, [], ⟨host.places, 0⟩⟩

def start (script : Script) (host : Host) : Config :=
  ⟨.enter script.program.body, [], firstStore host⟩

def stepBudget : Nat := 1 <<< 62

/-- Runs a script. The value of a `return` outside functions is the value of the run. The first
frame is given up at the end. -/
def runOn (script : Script) (host : Host) : Ending :=
  match script.code.run stepBudget (script.start host) with
  | (.value value, store) =>
    let result := store.returning.getD value
    ⟨.value result, store.world.release [result] store.remains⟩
  | (outcome, store) => ⟨outcome, store.world.release [] store.remains⟩

/-- Runs a script with arguments, in a folder, with an optional limit on its output. -/
def run (script : Script) (args : List String) (folder : Folder) (limit : Option Nat) : Ending :=
  script.runOn { args, folder, limit }

end Script

end ScopedScript

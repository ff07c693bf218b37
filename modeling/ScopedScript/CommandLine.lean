/-
**The command line.**

A command names a source file and the arguments of the program, with options before, between and
after them:

* `Invocation.read`: what the words of a command ask for;
* `CommandLine.run`: what a command prints, the folder it leaves and its exit code.
-/

import ScopedScript.Script

namespace ScopedScript

/-- A source file to run or to check. -/
structure Request where
  file : Option String
  args : List String
  check : Bool
  printResult : Bool
  shadowFunctions : Bool
  maxCallDepth : Option Nat
deriving DecidableEq, Repr

inductive Invocation where
  | run (request : Request)
  | help
  | version
  | misuse
deriving DecidableEq, Repr

namespace Request

def empty : Request := ⟨none, [], false, false, false, none⟩

/-- Takes a word that is no option: the file first, then arguments. A file has a name. -/
def word (request : Request) (word : String) : Option Request :=
  match request.file with
  | none => if word = "" then none else some { request with file := some word }
  | some _ => some { request with args := request.args ++ [word] }

/-- Takes an option without a value; each can be given once. -/
def flag (request : Request) (name : String) : Option Request :=
  match name with
  | "--check" => if request.check then none else some { request with check := true }
  | "--print-result" =>
    if request.printResult then none else some { request with printResult := true }
  | "--shadow-functions" =>
    if request.shadowFunctions then none else some { request with shadowFunctions := true }
  | "--verbose" => some request
  | _ => none

/-- The largest call depth that can be asked for. -/
def largestDepth : Nat := UInt64.size - 1

/-- A natural number with an optional plus sign. -/
def depth? (text : String) : Option Nat := do
  let digits := match text.toList with
    | '+' :: rest => rest
    | chars => chars
  let depth ← Decimal.digits? digits
  if depth ≤ largestDepth then some depth else none

/-- Takes the limit on nested calls, which can be given once. -/
def limit (request : Request) (text : String) : Option Request :=
  match request.maxCallDepth, depth? text with
  | none, some depth => some { request with maxCallDepth := some depth }
  | _, _ => none

end Request

namespace Invocation

/-- A command is complete when it names a file. -/
def complete (request : Request) : Invocation :=
  if request.file.isSome then .run request else .misuse

def words (request : Request) : List String → Invocation
  | [] => complete request
  | word :: rest =>
    match request.word word with
    | some request => words request rest
    | none => .misuse

/-- What a group of one-letter options asks for at once, if it does. -/
def letters : List Char → Option Invocation
  | [] => none
  | 'v' :: rest => letters rest
  | 'h' :: _ => some .help
  | 'V' :: _ => some .version
  | _ :: _ => some .misuse

/-- The part of a text after a beginning, if it has that beginning. -/
def rest? : List Char → List Char → Option String
  | [], text => some (String.ofList text)
  | char :: front, other :: text => if char = other then rest? front text else none
  | _ :: _, [] => none

def take (request : Request) : List String → Invocation
  | [] => complete request
  | "--" :: rest => words request rest
  | "--help" :: _ => .help
  | "--version" :: _ => .version
  | "--max-call-depth" :: value :: rest =>
    if value.toList.head? = some '-' then .misuse
    else
      match request.limit value with
      | some request => take request rest
      | none => .misuse
  | word :: rest =>
    match word.toList with
    | '-' :: '-' :: _ =>
      match (rest? "--max-call-depth=".toList word.toList).elim (request.flag word) request.limit with
      | some request => take request rest
      | none => .misuse
    | '-' :: char :: chars =>
      match letters (char :: chars) with
      | some invocation => invocation
      | none => take request rest
    | _ =>
      match request.word word with
      | some request => take request rest
      | none => .misuse

def read (words : List String) : Invocation := take .empty words

end Invocation

structure Exit where
  code : Nat
  stdout : ByteArray
  stderr : String
  folder : Folder

namespace CommandLine

def usage : String := "Usage: ns [OPTIONS] <FILE> [ARGS]...\n"

def version : String := "ns 0.1.0\n"

def options (request : Request) : Options where
  redeclaration := if request.shadowFunctions then .shadow else .refuse
  maxCallDepth := request.maxCallDepth.getD ({} : Options).maxCallDepth

/-- The message about a source file that cannot be read. -/
def unreadable (file : String) (error : OsError) : String :=
  "Error: failed to read " ++ file ++ "\n\nCaused by:\n    " ++ error.message ++ "\n"

/-- The message about the problems of a program. -/
def problems (file : String) (diagnostics : List Diagnostic) : String :=
  String.join (diagnostics.map fun diagnostic => file ++ ": " ++ diagnostic.report.text ++ "\n") ++
    Decimal.natText diagnostics.length ++ " error(s)\n"

def finish (request : Request) (file : String) (ending : Ending) : Exit :=
  let printed := ending.world.output.bytes
  match ending.outcome with
  | .value value =>
    let result := if request.printResult then value.shown ending.world.heap ++ "\n" else ""
    ⟨0, printed ++ result.toUTF8, "", ending.folder⟩
  | .fault fault => ⟨2, printed, file ++ ": " ++ fault.text ++ "\n", ending.folder⟩
  | .unfinished => ⟨2, printed, "", ending.folder⟩

def serve (request : Request) (file : String) (host : Host) : Exit :=
  match host.folder.readText file with
  | .error error => ⟨1, .empty, unreadable file error, host.folder⟩
  | .ok source =>
    match Script.compile source (options request) with
    | .error diagnostics => ⟨1, .empty, problems file diagnostics, host.folder⟩
    | .ok script =>
      if request.check then ⟨0, .empty, "", host.folder⟩
      else finish request file (script.runOn { host with args := request.args })

def run (words : List String) (folder : Folder) : Exit :=
  match Invocation.read words with
  | .help => ⟨0, usage.toUTF8, "", folder⟩
  | .version => ⟨0, version.toUTF8, "", folder⟩
  | .misuse => ⟨2, .empty, usage, folder⟩
  | .run request =>
    match request.file with
    | some file => serve request file { args := [], folder, limit := none }
    | none => ⟨2, .empty, usage, folder⟩

end CommandLine

end ScopedScript

/-
**What the language provides.**

The built-in names with their types, grouped into two libraries. Analysis needs no more of them than
this:

* `Constant`, `Builtin`: the built-in values and functions;
* `Signature`: parameters with the types they accept, and the type of the result;
* `Export`: a name that a library provides, `Library.standard` the two libraries in order.
-/

import ScopedScript.Ty

namespace ScopedScript

/-- A parameter of a built-in function; no accepted types mean any value. -/
structure Param where
  name : String
  accepts : List Ty
deriving DecidableEq, Repr

/-- The parameters and the result of a built-in function. -/
structure Signature where
  params : List Param
  returns : Ty
deriving DecidableEq, Repr

def Signature.arity (signature : Signature) : Nat := signature.params.length

inductive Constant where
  | true_ | false_ | none_ | args
deriving DecidableEq, Repr

namespace Constant

def all : List Constant := [.true_, .false_, .none_, .args]

def name : Constant → String
  | .true_ => "True"
  | .false_ => "False"
  | .none_ => "None"
  | .args => "args"

def ty : Constant → Ty
  | .true_ | .false_ => .bool
  | .none_ => .none
  | .args => .array

def ofName? (name : String) : Option Constant := all.find? fun constant => constant.name == name

end Constant

inductive Builtin where
  | range | indexer | sort | len | int | print | println
  | open_ | close | read | write
deriving DecidableEq, Repr

namespace Builtin

def core : List Builtin := [.range, .indexer, .sort, .len, .int, .print, .println]

def files : List Builtin := [.open_, .close, .read, .write]

def all : List Builtin := core ++ files

def name : Builtin → String
  | .range => "range"
  | .indexer => "indexer"
  | .sort => "sort"
  | .len => "len"
  | .int => "int"
  | .print => "print"
  | .println => "println"
  | .open_ => "open"
  | .close => "close"
  | .read => "read"
  | .write => "write"

def signature : Builtin → Signature
  | .range => ⟨[⟨"n", [.int]⟩], .array⟩
  | .indexer => ⟨[⟨"collection", [.array, .map]⟩], .array⟩
  | .sort => ⟨[⟨"array", [.array]⟩], .array⟩
  | .len => ⟨[⟨"collection", [.array, .map]⟩], .int⟩
  | .int => ⟨[⟨"text", [.string]⟩], .int⟩
  | .print | .println => ⟨[⟨"value", []⟩], .none⟩
  | .open_ => ⟨[⟨"path", [.string]⟩, ⟨"mode", [.string]⟩], .file⟩
  | .close => ⟨[⟨"file", [.file]⟩], .none⟩
  | .read => ⟨[⟨"file", [.file]⟩], .string⟩
  | .write => ⟨[⟨"file", [.file]⟩, ⟨"value", []⟩], .none⟩

def ofName? (name : String) : Option Builtin := all.find? fun builtin => builtin.name == name

end Builtin

/-- What kind of thing a library provides under a name. -/
inductive ExportKind where
  | function (signature : Signature)
  | constant (ty : Ty)
deriving DecidableEq, Repr

structure Export where
  name : String
  kind : ExportKind
deriving DecidableEq, Repr

def Constant.provided (constant : Constant) : Export := ⟨constant.name, .constant constant.ty⟩

/-- The name and signature of a built-in function. -/
def Builtin.provided (builtin : Builtin) : Export := ⟨builtin.name, .function builtin.signature⟩

structure Library where
  name : String
  constants : List Constant
  functions : List Builtin
deriving DecidableEq, Repr

namespace Library

/-- Everything that needs no files. -/
def core : Library := ⟨"core", Constant.all, Builtin.core⟩

/-- Files read and written by lines. -/
def files : Library := ⟨"io", [], Builtin.files⟩

def standard : List Library := [core, files]

def provided (library : Library) : List Export :=
  library.constants.map Constant.provided ++ library.functions.map Builtin.provided

def find? (library : Library) (name : String) : Option Export :=
  library.provided.find? fun entry => entry.name == name

/-- The function that a library provides under a name. -/
def function? (library : Library) (name : String) : Option Builtin :=
  library.functions.find? fun builtin => builtin.name == name

def ofName? (name : String) : Option Library :=
  standard.find? fun library => library.name == name

end Library

/-- Everything that the language provides, in order. -/
def Export.standard : List Export := Library.standard.flatMap Library.provided

def Export.find? (name : String) : Option Export :=
  Export.standard.find? fun entry => entry.name == name

end ScopedScript

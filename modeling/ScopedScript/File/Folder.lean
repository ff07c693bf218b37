/-
**The folder of a run.**

A run sees one folder of files, and two devices under `/dev`: one that takes everything and holds
nothing, and one that is always full. A path is resolved name by name:

* `OsError`: why a file operation fails, `OsError.message` its wording;
* `Folder.locate`: what a path leads to;
* `Folder.source`, `Folder.create`: a path opened for reading, and one created or emptied for writing;
* `Folder.overwrite`: bytes written at an offset.
-/

import ScopedScript.Bindings

namespace ScopedScript

inductive OsError where
  | notFound | permissionDenied | notDirectory | isDirectory | noSpace | nameTooLong
  | nulInName | invalidText
deriving DecidableEq, Repr

def OsError.message : OsError → String
  | .notFound => "No such file or directory (os error 2)"
  | .permissionDenied => "Permission denied (os error 13)"
  | .notDirectory => "Not a directory (os error 20)"
  | .isDirectory => "Is a directory (os error 21)"
  | .noSpace => "No space left on device (os error 28)"
  | .nameTooLong => "File name too long (os error 36)"
  | .nulInName => "file name contained an unexpected NUL byte"
  | .invalidText => "stream did not contain valid UTF-8"

/-- What an open file reads from or writes to. -/
inductive Endpoint where
  | file (name : String)
  | directory
  /-- The device that is empty and takes everything. -/
  | null
  /-- The device that has no room. -/
  | full
deriving DecidableEq, Repr

/-- The directories that a path can pass through. -/
inductive Place where
  | root | devices | here
deriving DecidableEq, Repr

def Place.parent : Place → Place
  | .root | .devices | .here => .root

/-- What a path leads to. `slash` says that the path ends in a slash. -/
inductive Located where
  | directory
  | present (endpoint : Endpoint) (slash : Bool)
  | absent (place : Place) (name : String) (slash : Bool)
deriving DecidableEq, Repr

structure Folder where
  files : Bindings ByteArray

inductive Entry where
  | directory (place : Place)
  | leaf (endpoint : Endpoint)
deriving DecidableEq, Repr

def pathParts : List Char → List String
  | [] => [""]
  | char :: rest =>
    match char, pathParts rest with
    | '/', parts => "" :: parts
    | _, [] => [String.singleton char]
    | _, part :: parts => (String.singleton char ++ part) :: parts

namespace Folder

def empty : Folder := ⟨.empty⟩

def content (folder : Folder) (name : String) : ByteArray := (folder.files.get? name).getD .empty

def entry? (folder : Folder) (place : Place) (name : String) : Option Entry :=
  match place with
  | .root => if name = "dev" then some (.directory .devices) else none
  | .devices =>
    if name = "null" then some (.leaf .null) else if name = "full" then some (.leaf .full) else none
  | .here => (folder.files.get? name).map fun _ => .leaf (.file name)

def longestName : Nat := 255

/-- The length in bytes from which a path is too long. -/
def pathLimit : Nat := 4096

/-- Follows the parts of a path from a directory. -/
def follow (folder : Folder) : Place → List String → Except OsError Located
  | _, [] => .ok .directory
  | place, part :: rest =>
    if part = "" ∨ part = "." then follow folder place rest
    else if part = ".." then follow folder place.parent rest
    else if longestName < part.utf8ByteSize then .error .nameTooLong
    else
      match folder.entry? place part with
      | some (.directory inner) => follow folder inner rest
      | some (.leaf endpoint) =>
        if rest.all (· = "") then .ok (.present endpoint !rest.isEmpty) else .error .notDirectory
      | none => if rest.all (· = "") then .ok (.absent place part !rest.isEmpty) else .error .notFound

/-- What a path leads to; one that starts with a slash starts at the root. -/
def locate (folder : Folder) (path : String) : Except OsError Located :=
  if path.toList.contains '\x00' then .error .nulInName
  else if path = "" then .error .notFound
  else if pathLimit ≤ path.utf8ByteSize then .error .nameTooLong
  else follow folder (if path.toList.head? = some '/' then .root else .here) (pathParts path.toList)

/-- What a path that is opened for reading reads from. -/
def source (folder : Folder) (path : String) : Except OsError Endpoint := do
  match ← folder.locate path with
  | .directory => return .directory
  | .present endpoint false => return endpoint
  | .present _ true => throw .notDirectory
  | .absent _ _ _ => throw .notFound

/-- Opens a path for writing: a file is created or loses its content. -/
def create (folder : Folder) (path : String) : Except OsError (Endpoint × Folder) := do
  match ← folder.locate path with
  | .directory | .present _ true | .absent _ _ true => throw .isDirectory
  | .present (.file name) false | .absent .here name false =>
    return (.file name, ⟨folder.files.set name .empty⟩)
  | .present endpoint false => return (endpoint, folder)
  | .absent _ _ false => throw .permissionDenied

/-- Bytes written into a content at an offset; a gap before them is filled with zeros. -/
def overwrite (content : ByteArray) (offset : Nat) (bytes : ByteArray) : ByteArray :=
  let front :=
    if content.size < offset then content ++ ⟨Array.replicate (offset - content.size) 0⟩
    else content.extract 0 offset
  front ++ bytes ++ content.extract (offset + bytes.size) content.size

/-- Writes bytes to an endpoint at an offset; no bytes change nothing. -/
def write (folder : Folder) (sink : Endpoint) (offset : Nat) (bytes : ByteArray) :
    Except OsError Folder :=
  if bytes.isEmpty then .ok folder
  else
    match sink with
    | .file name => .ok ⟨folder.files.set name (overwrite (folder.content name) offset bytes)⟩
    | .null => .ok folder
    | .full => .error .noSpace
    | .directory => .error .isDirectory

/-- At most `count` bytes from an offset of an endpoint. A line of the device that has no room would
never end, so nothing is read from it. -/
def read (folder : Folder) (source : Endpoint) (offset count : Nat) : Except OsError (List UInt8) :=
  match source with
  | .file name => .ok ((folder.content name).extract offset (offset + count)).data.toList
  | .null => .ok []
  | .full => .error .permissionDenied
  | .directory => .error .isDirectory

def size (folder : Folder) : Endpoint → Nat
  | .file name => (folder.content name).size
  | _ => 0

def readText (folder : Folder) (path : String) : Except OsError String := do
  let source ← folder.source path
  let bytes ← folder.read source 0 (folder.size source)
  match String.fromUTF8? ⟨bytes.toArray⟩ with
  | some text => return text
  | none => throw .invalidText

end Folder

end ScopedScript

/-
**Open files.**

A file is open for reading by lines or for writing, both through a buffer, until it is closed:

* `Reader.line`: the next line, taken in blocks from the file;
* `Writer.put`, `Writer.flush`: text kept back until the buffer has no room, and written out;
* `Handle`: an open file or a closed one.
-/

import ScopedScript.File.Folder

namespace ScopedScript

/-- The size of the buffers of open files, in bytes. -/
def bufferSize : Nat := 8192

/-! ### Reading -/

/-- A file open for reading: the bytes taken from it and not used yet, and where the next ones
start. -/
structure Reader where
  source : Endpoint
  offset : Nat
  buffer : List UInt8

def lineFeed : UInt8 := 10

def chopped (char : Char) (chars : List Char) : List Char :=
  if chars.getLast? = some char then chars.dropLast else chars

namespace Reader

def new (source : Endpoint) : Reader := ⟨source, 0, []⟩

/-- Takes the next block if no bytes are left. -/
def filled (folder : Folder) (reader : Reader) : Except OsError Reader :=
  match reader.buffer with
  | [] => do
    let block ← folder.read reader.source reader.offset bufferSize
    return { reader with offset := reader.offset + block.length, buffer := block }
  | _ :: _ => .ok reader

/-- The bytes up to the end of the line, after those found `before`; at most `blocks` blocks. -/
def gather (folder : Folder) : Nat → List UInt8 → Reader → Except OsError (List UInt8 × Reader)
  | 0, before, reader => .ok (before, reader)
  | blocks + 1, before, reader => do
    let reader ← reader.filled folder
    match reader.buffer.span (· != lineFeed) with
    | (part, feed :: rest) => return (before ++ part ++ [feed], { reader with buffer := rest })
    | ([], []) => return (before, reader)
    | (part, []) => gather folder blocks (before ++ part) { reader with buffer := [] }

/-- The next line without its end, or nothing at the end of the file. The line is used up even if it
is no text. -/
def line (folder : Folder) (reader : Reader) : Except OsError (Option String) × Reader :=
  match reader.gather folder (folder.size reader.source + 2) [] with
  | .error error => (.error error, reader)
  | .ok ([], rest) => (.ok none, rest)
  | .ok (bytes, rest) =>
    match String.fromUTF8? ⟨bytes.toArray⟩ with
    | none => (.error .invalidText, rest)
    | some text => (.ok (some (String.ofList (chopped '\r' (chopped '\n' text.toList)))), rest)

end Reader

/-! ### Writing -/

/-- A file open for writing: the bytes kept back, and where they go. -/
structure Writer where
  sink : Endpoint
  offset : Nat
  buffer : ByteArray

namespace Writer

def new (sink : Endpoint) : Writer := ⟨sink, 0, .empty⟩

/-- Writes bytes past the buffer. -/
def direct (folder : Folder) (writer : Writer) (bytes : ByteArray) :
    Except OsError (Folder × Writer) := do
  let after ← folder.write writer.sink writer.offset bytes
  return (after, { writer with offset := writer.offset + bytes.size })

/-- Writes out the bytes kept back. -/
def flush (folder : Folder) (writer : Writer) : Except OsError (Folder × Writer) := do
  let (after, writer) ← writer.direct folder writer.buffer
  return (after, { writer with buffer := .empty })

/-- Takes bytes: those that the buffer has no room for make it write out first, and those that are
larger than any buffer go past it. -/
def put (folder : Folder) (writer : Writer) (bytes : ByteArray) :
    Except OsError (Folder × Writer) := do
  let (folder, writer) ←
    if bufferSize - writer.buffer.size < bytes.size then writer.flush folder else pure (folder, writer)
  if bufferSize ≤ bytes.size then writer.direct folder bytes
  else return (folder, { writer with buffer := writer.buffer ++ bytes })

/-- Takes the pieces of a text one by one. What was taken before a failure stays. -/
def putAll (folder : Folder) (writer : Writer) :
    List String → Except OsError Unit × Folder × Writer
  | [] => (.ok (), folder, writer)
  | piece :: rest =>
    match writer.put folder piece.toUTF8 with
    | .ok (folder, writer) => putAll folder writer rest
    | .error error => (.error error, folder, writer)

end Writer

/-! ### Handles -/

/-- Which way a file is open, if it still is. -/
inductive FileMode where
  | reading | writing | closed
deriving DecidableEq, Repr

def FileMode.name : FileMode → String
  | .reading => "reading"
  | .writing => "writing"
  | .closed => "closed"

inductive Handle where
  | reading (reader : Reader)
  | writing (writer : Writer)
  | closed

instance : Inhabited Handle := ⟨.closed⟩

namespace Handle

def mode : Handle → FileMode
  | .reading _ => .reading
  | .writing _ => .writing
  | .closed => .closed

def keepsBytes : Handle → Bool
  | .writing writer => !writer.buffer.isEmpty
  | _ => false

end Handle

end ScopedScript

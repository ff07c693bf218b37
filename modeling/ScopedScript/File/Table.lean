/-
**The files of a run.**

The folder together with every file that was opened. An operation that fails can still leave a trace,
so each gives its result and the files after it:

* `Files.openFile`, `Files.close`, `Files.readLine`, `Files.writeLine`: what programs do with files;
* `Files.abandon`: what becomes of a file that nothing refers to any more.
-/

import ScopedScript.Fault

namespace ScopedScript

/-- A folder and the files opened in it, by handle. -/
structure Files where
  folder : Folder
  handles : Array Handle

namespace Files

def new (folder : Folder) : Files := ⟨folder, #[]⟩

def handle (files : Files) (number : Nat) : Handle := files.handles.getD number .closed

def setHandle (files : Files) (number : Nat) (handle : Handle) : Files :=
  { files with handles := files.handles.setIfInBounds number handle }

def add (files : Files) (path : String) (handle : Handle) : FileRef × Files :=
  (⟨files.handles.size, path⟩, { files with handles := files.handles.push handle })

def openFile (files : Files) (path mode : String) : Except FileFault (FileRef × Files) :=
  if mode = "r" ∨ mode = "read" then
    match files.folder.source path with
    | .ok source => .ok (files.add path (.reading (.new source)))
    | .error error => .error (.openReading path error)
  else if mode = "w" ∨ mode = "write" then
    match files.folder.create path with
    | .ok (sink, folder) => .ok ({ files with folder }.add path (.writing (.new sink)))
    | .error error => .error (.openWriting path error)
  else .error (.unknownMode mode)

/-- Closes a file. A file whose last bytes cannot be written out is closed all the same. -/
def close (files : Files) (ref : FileRef) : Except FileFault Unit × Files :=
  match files.handle ref.handle with
  | .closed => (.error (.alreadyClosed ref.path), files)
  | .reading _ => (.ok (), files.setHandle ref.handle .closed)
  | .writing writer =>
    match writer.flush files.folder with
    | .ok (folder, _) => (.ok (), { files with folder }.setHandle ref.handle .closed)
    | .error error => (.error (.flush ref.path error), files.setHandle ref.handle .closed)

/-- The next line of a file, or nothing at its end. -/
def readLine (files : Files) (ref : FileRef) : Except FileFault (Option String) × Files :=
  match files.handle ref.handle with
  | .reading reader =>
    let (result, rest) := reader.line files.folder
    (result.mapError (.read ref.path), files.setHandle ref.handle (.reading rest))
  | handle => (.error (.notReading ref.path handle.mode), files)

/-- Writes the pieces of a line and its end to a file. -/
def writeLine (files : Files) (ref : FileRef) (pieces : List String) :
    Except FileFault Unit × Files :=
  match files.handle ref.handle with
  | .writing writer =>
    let (result, folder, writer) := writer.putAll files.folder (pieces ++ ["\n"])
    (result.mapError (.write ref.path),
      { files with folder }.setHandle ref.handle (.writing writer))
  | handle => (.error (.notWriting ref.path handle.mode), files)

/-- Writes out what a handle keeps back, if that is possible, and closes it. -/
def abandon (files : Files) (number : Nat) : Files :=
  match files.handle number with
  | .writing writer =>
    match writer.flush files.folder with
    | .ok (folder, _) => { files with folder }.setHandle number .closed
    | .error _ => files.setHandle number .closed
  | _ => files.setHandle number .closed

end Files

end ScopedScript

/-
**The command.**

Reads the files of the working directory, carries out the command on them, and writes back those
that changed.
-/

import ScopedScript.CommandLine

namespace ScopedScript

def workingFolder : IO Folder := do
  let mut files : Bindings ByteArray := .empty
  for entry in ← (← IO.currentDir).readDir do
    unless ← entry.path.isDir do
      files := files.set entry.fileName (← IO.FS.readBinFile entry.path)
  return ⟨files⟩

def saveFolder (before after : Folder) : IO Unit :=
  for (name, content) in after.files.entries do
    unless (before.files.get? name).any (·.data == content.data) do
      IO.FS.writeBinFile name content

end ScopedScript

open ScopedScript in
def main (words : List String) : IO UInt32 := do
  let folder ← workingFolder
  let exit := CommandLine.run words folder
  saveFolder folder exit.folder
  (← IO.getStdout).write exit.stdout
  (← IO.getStderr).putStr exit.stderr
  return exit.code.toUInt32

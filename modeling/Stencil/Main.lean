import Stencil.CommandLine.Program
import Stencil.Text.Digest

/-!
# The command line

The program itself. It looks at the files, the environment and the standard input that the command line
is about, lets the library work on them, and writes what has changed.

* `main`: the program.
-/

namespace Stencil.Main

open Stencil.CommandLine

/-- The environment of the process. -/
def environment : IO Variable.Environment := do
  let bytes ← IO.FS.readBinFile "/proc/self/environ"
  let text := (String.fromUTF8? bytes).getD ""
  return (Text.pieces (Char.ofNat 0) text.toList).filterMap fun v => Assignment.split? (String.ofList v)

/-- Files with what really stands at a place. -/
def addPlace (fs : Files) (p : Place) : IO Files := do
  let path := (FilePath.ofPlace p).text
  try
    if ← (← IO.FS.realPath path).isDir then return fs.put p .directory
    else return fs.overwrite p (← IO.FS.readBinFile path)
  catch _ => return fs

/-- Files with what really stands at a place and above it. -/
def addWay (fs : Files) (p : Place) : IO Files :=
  (List.range p.length).foldlM (fun fs n => addPlace fs (p.take (n + 1))) fs

/-- Files with all that really stands in a directory. -/
def addDirectory (fs : Files) (p : Place) : IO Files := do
  let fs ← addWay fs p
  if !fs.isDirectory p then return fs
  let names ← (← IO.FS.realPath (FilePath.ofPlace p).text).readDir
  names.foldlM (fun fs e => addPlace fs (p ++ [e.fileName])) fs

/-- The workspace without files. -/
def emptyWorkspace : IO Workspace := do
  let cwd := (FilePath.ofString (← IO.currentDir).toString).place []
  return ⟨.empty, ← environment, cwd, "data/config", Digest.ofString, .empty⟩

/-- The workspace that a command needs. -/
def workspaceFor (c : Command) : IO Workspace := do
  let w ← emptyWorkspace
  let files ← (c.paths.map (·.place w.cwd)).foldlM addWay (← addWay w.files w.cwd)
  let files ← addDirectory files (w.projectRoot c.root ++ Config.projectDirectory)
  return { w with files }

/-- All bytes of a stream behind those that have been read. -/
partial def readAll (s : IO.FS.Stream) (front : ByteArray) : IO ByteArray := do
  let bytes ← s.read 65536
  if bytes.isEmpty then return front else readAll s (front ++ bytes)

/-- The workspace and the standard input that a command line needs. -/
def inputs (words : List String) : IO (Workspace × ByteArray) := do
  match Program.main.invocation words with
  | .run c =>
    let stdin ← if c.readsInput then readAll (← IO.getStdin) .empty else pure .empty
    return (← workspaceFor c, stdin)
  | _ => return (← emptyWorkspace, .empty)

/-- What was written is passed on. -/
def emit (o : Output) : IO Unit := do
  (← IO.getStdout).putStr o.out
  (← IO.getStderr).putStr o.err

/-- The code of an outcome, after all that it says has been written. -/
def conclude : Except Fault Outcome → IO UInt32
  | .ok (.ended e) => do
    emit e.output
    return e.code.toUInt32
  | .ok (.help program) => do
    emit (.line ("usage: " ++ program))
    return 0
  | .ok .misuse => do
    emit (.errorLine ("usage: " ++ programName))
    return 2
  | .error _ => do
    emit (.errorLine "Error: the input cannot be used")
    return 1

end Stencil.Main

/-- The program. -/
def main (words : List String) : IO UInt32 := do
  let (w, stdin) ← Stencil.Main.inputs words
  let time := toString (← IO.monoMsNow)
  let (w', x) := Stencil.CommandLine.Program.main.run time words stdin w
  for (p, content) in w.files.changes w'.files do
    IO.FS.writeBinFile (Stencil.FilePath.ofPlace p).text content
  Stencil.Main.conclude x.result

import Stencil.Error.Basic
import Stencil.Files.FilePath

/-!
# Files

The files and directories that can be reached, each at its place. A file remembers when it was
written: the number of the write, which no two writes share.

* `Files.read`, `Files.write`: the content of a file;
* `Files.names`: the names in a directory;
* `find?_put_self`, `find?_put_of_ne`: a file is seen at its own place and nowhere else.
-/

namespace Stencil

/-- What stands at a place. -/
inductive FileEntry
  | file (content : ByteArray) (stamp : Nat)
  | directory
  deriving Inhabited

/-- Files and directories. -/
structure Files where
  entries : List (Place × FileEntry)
  /-- The number of the next write. -/
  clock : Nat
  deriving Inhabited

namespace Files

/-- No file at all. -/
def empty : Files := ⟨[], 0⟩

/-- What stands at a place; the root of the file system is a directory. -/
def find? (fs : Files) (p : Place) : Option FileEntry :=
  if p.isEmpty then some .directory else fs.entries.lookup p

/-- Something put at a place. -/
def put (fs : Files) (p : Place) (e : FileEntry) : Files :=
  { fs with entries := (p, e) :: fs.entries.filter fun q => q.1 ≠ p }

/-- Nothing at a place. -/
def remove (fs : Files) (p : Place) : Files :=
  { fs with entries := fs.entries.filter fun q => q.1 ≠ p }

theorem find?_put_self (fs : Files) {p : Place} (h : p ≠ []) (e : FileEntry) :
    (fs.put p e).find? p = some e := by
  simp [find?, put, h]

/-- What is kept under one key is not seen under another one. -/
theorem lookup_filter_ne {α β : Type} [DecidableEq α] [BEq α] [LawfulBEq α] (es : List (α × β))
    {p q : α} (h : q ≠ p) :
    (es.filter fun r => r.1 ≠ p).lookup q = es.lookup q := by
  induction es with
  | nil => rfl
  | cons e es ih =>
    obtain ⟨r, e⟩ := e
    by_cases hr : r = p
    · subst hr
      have hb : (q == r) = false := by simpa using h
      simpa [List.lookup_cons, hb] using ih
    · by_cases hq : q = r
      · subst hq
        simp [hr]
      · have hb : (q == r) = false := by simpa using hq
        simpa [hr, List.lookup_cons, hb] using ih

theorem find?_put_of_ne (fs : Files) {p q : Place} (h : q ≠ p) (e : FileEntry) :
    (fs.put p e).find? q = fs.find? q := by
  have hb : (q == p) = false := by simpa using h
  by_cases hq : q = []
  · simp [find?, hq]
  · have hl := lookup_filter_ne fs.entries h
    simp only [find?, put, List.lookup_cons, hb]
    simpa [hq] using hl

/-- Whether a directory stands at a place. -/
def isDirectory (fs : Files) (p : Place) : Bool :=
  match fs.find? p with
  | some .directory => true
  | _ => false

/-- The names in a directory. -/
def names (fs : Files) (p : Place) : List String :=
  fs.entries.filterMap fun e => if e.1.dropLast = p then e.1.getLast? else none

/-! ## Access -/

/-- The greatest number of bytes in a name. -/
def maxNameLength : Nat := 255

/-- The greatest number of bytes in a path. -/
def maxPathLength : Nat := 4095

/-- One step on a path: it has to start from a directory. -/
def walk (fs : Files) (at' : Place) (name : String) : Except FileReason Place :=
  match fs.find? at' with
  | none => .error .notFound
  | some (.file _ _) => .error .notDirectory
  | some .directory =>
    if maxNameLength < name.utf8ByteSize then .error .nameTooLong else .ok (FilePath.step at' name)

/-- The place that a path leads to, from one directory to the next. -/
def locate (fs : Files) (cwd : Place) (p : FilePath) : Except Fault Place :=
  let refuse (reason : FileReason) : Fault := FileError.mk reason p.text
  if p.segments.any (·.toList.contains (Char.ofNat 0)) then .error Breach.nullInPath
  else if maxPathLength < p.text.utf8ByteSize then .error (refuse .nameTooLong)
  else (p.segments.foldlM fs.walk (if p.absolute then [] else cwd)).mapError refuse

/-- The content of the file that a path leads to. -/
def read (fs : Files) (cwd : Place) (p : FilePath) : Except Fault ByteArray := do
  let place ← fs.locate cwd p
  match fs.find? place with
  | some (.file content _) => return content
  | some .directory => .error (FileError.mk .isDirectory p.text)
  | none => .error (FileError.mk .notFound p.text)

/-- The file at a place written anew. -/
def overwrite (fs : Files) (place : Place) (content : ByteArray) : Files :=
  { fs.put place (.file content fs.clock) with clock := fs.clock + 1 }

/-- The file that a path leads to written anew, or made if there is none. -/
def write (fs : Files) (cwd : Place) (p : FilePath) (content : ByteArray) : Except Fault Files := do
  let place ← fs.locate cwd p
  match fs.find? place.dropLast, fs.find? place with
  | _, some .directory => .error (FileError.mk .isDirectory p.text)
  | some .directory, _ => return fs.overwrite place content
  | some (.file _ _), _ => .error (FileError.mk .notDirectory p.text)
  | none, _ => .error (FileError.mk .notFound p.text)

/-- The file that a path leads to removed. -/
def delete (fs : Files) (cwd : Place) (p : FilePath) : Except Fault Files := do
  let place ← fs.locate cwd p
  match fs.find? place with
  | some (.file _ _) => return fs.remove place
  | some .directory => .error (FileError.mk .isDirectory p.text)
  | none => .error (FileError.mk .notFound p.text)

/-- Whether there is a file with a given content at a place. -/
def holds (fs : Files) (p : Place) (content : ByteArray) : Bool :=
  match fs.find? p with
  | some (.file c _) => c.data == content.data
  | _ => false

/-- The files of `after` that were not there before with the same content. -/
def changes (before after : Files) : List (Place × ByteArray) :=
  after.entries.filterMap fun e =>
    match e.2 with
    | .file content _ => if before.holds e.1 content then none else some (e.1, content)
    | .directory => none

end Files

end Stencil

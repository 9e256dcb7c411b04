import Stencil.Text.Pieces

/-!
# Paths of files

A path names a file from the root of the file system or from the directory that is worked in. Doubled
slashes and single points in a path mean nothing and are left out; two points go one directory up.

* `FilePath.ofString`, `FilePath.text`: paths and their texts;
* `FilePath.place`: where a path leads to, going by its text alone.
-/

namespace Stencil

/-- The place of a file: the names on the way from the root of the file system to it. -/
abbrev Place := List String

/-- A path. -/
structure FilePath where
  /-- Whether it begins at the root of the file system. -/
  absolute : Bool
  /-- The names on the way, with two points for a step up. -/
  segments : List String
  deriving DecidableEq, Inhabited

namespace FilePath

/-- A path from its text. -/
def ofString (s : String) : FilePath where
  absolute := s.toList.head? == some '/'
  segments := ((Text.pieces '/' s.toList).map String.ofList).filter fun t => t ≠ "" ∧ t ≠ "."

/-- The text of a path; that of the empty one is a point. -/
def text (p : FilePath) : String :=
  let way := "/".intercalate p.segments
  if p.absolute then "/" ++ way else if p.segments.isEmpty then "." else way

/-- The path that leads to a place. -/
def ofPlace (p : Place) : FilePath := ⟨true, p⟩

/-- A path that begins where another one ends. -/
def join (p q : FilePath) : FilePath :=
  if q.absolute then q else { p with segments := p.segments ++ q.segments }

/-- The place one step further on. -/
def step (at' : Place) (name : String) : Place :=
  if name = ".." then at'.dropLast else at' ++ [name]

/-- Where a path leads to from a directory, going by its text alone. -/
def place (cwd : Place) (p : FilePath) : Place :=
  p.segments.foldl step (if p.absolute then [] else cwd)

/-- The ending of a name: what stands from its last point on, unless the name begins or ends there. -/
def ending (name : String) : String :=
  let tail := name.toList.reverse.takeWhile (· ≠ '.')
  let n := tail.length
  if tail.isEmpty || name.length ≤ n + 1 then ""
  else String.ofList (name.toList.drop (name.length - (n + 1)))

/-- Whether the name of a file ends in a text. -/
def endsIn (name text : String) : Bool := text.toList.isSuffixOf name.toList

end FilePath

end Stencil

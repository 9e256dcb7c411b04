import Stencil.Files.Store

/-!
# Texts in files

Texts are encoded in UTF-8. When a text is read from a file, every line break, be it a carriage return,
a line feed or both, becomes a line feed; when it is written, it stays as it is. The standard input is
read as it is.

* `Text.ofBytes`: the text that bytes are;
* `Text.unifyBreaks`: a text with line feeds only;
* `Files.readText`, `Files.writeText`: the texts of files.
-/

namespace Stencil

/-- A text whose line breaks are line feeds. -/
def Text.unifyBreaks : List Char → List Char
  | [] => []
  | '\r' :: '\n' :: r => '\n' :: unifyBreaks r
  | '\r' :: r => '\n' :: unifyBreaks r
  | c :: r => c :: unifyBreaks r

/-- The text that bytes are. -/
def Text.ofBytes (bytes : ByteArray) : Except Breach String :=
  match String.fromUTF8? bytes with
  | some s => .ok s
  | none => .error .undecodable

namespace Files

/-- The text of the file that a path leads to, with line feeds only. -/
def readText (fs : Files) (cwd : Place) (p : FilePath) : Except Fault String :=
  (fs.read cwd p).bind fun bytes =>
    ((Text.ofBytes bytes).map fun s => String.ofList (Text.unifyBreaks s.toList)).mapError Fault.breach

/-- A text written to the file that a path leads to. -/
def writeText (fs : Files) (cwd : Place) (p : FilePath) (s : String) : Except Fault Files :=
  fs.write cwd p s.toUTF8

end Files

end Stencil

import Stencil.CommandLine.Assignment
import Stencil.Files.Content
import Stencil.Value.Display
import Stencil.Yaml.Tree

/-!
# Bindings for a template

The bindings of a template come from a file, which is a YAML mapping, and from assignments on the
command line, which win. In the file every value has to be a scalar; its text is bound to the text of
its key, and a null binds nothing. Surrogates are kept, also in the names.

* `Bindings.ofEntries`: the bindings that the entries of a mapping make;
* `Bindings.ofText`: the bindings that a document makes;
* `Bindings.load`: the bindings of a file, if one is given.
-/

namespace Stencil.Bindings

/-- The bindings with those of one more entry of the file that is called `path`. -/
def addEntry (path : String) (m : Mapping) (entry : Key × Value) : Except Fault Mapping :=
  match entry.2 with
  | .null => .ok m
  | .scalar s => do
    let value ← (textOf (Value.scalar s).codeText?).mapError Fault.breach
    let name ← (textOf entry.1.codeText?).mapError Fault.breach
    return m.put (.ofText name) (.ofText value)
  | _ => do
    let name ← (textOf entry.1.text?).mapError Fault.breach
    throw (.error (.bindingNotScalar path name))

/-- The bindings that the entries of a mapping make. -/
def ofEntries (path : String) (entries : Mapping) : Except Fault Mapping :=
  entries.foldlM (addEntry path) []

/-- The bindings that a document makes; an empty one makes none. -/
def ofText (path text : String) : Except Fault Mapping :=
  match Yaml.read text with
  | .ok .null => .ok []
  | .ok (.map entries) => ofEntries path entries
  | .ok _ => .error (Error.bindingsNotMapping path)
  | .error (.flaw f) => .error (Error.brokenBindings path f.message)
  | .error (.breach b) => .error b

/-- The bindings of a file, by its path as it was given; without a path there are none. -/
def load (files : Files) (cwd : Place) (path : Option String) : Except Fault Mapping :=
  match path with
  | none => .ok []
  | some "" => .ok []
  | some path => (files.readText cwd (.ofString path)).bind (ofText path)

/-- The bindings of a file with those of assignments on top. -/
def collect (files : Files) (cwd : Place) (path : Option String) (items : List String) :
    Except Fault Mapping := do
  let m ← load files cwd path
  (Assignment.bindings m items).mapError Fault.error

end Stencil.Bindings

import Stencil.Text.Ragged
import Stencil.Yaml.Flaw

/-!
# Tokens

The parts of a YAML document: brackets and indicators, scalars, anchors, tags and directives. A block
collection has no brackets in the text; its tokens `blockSequence`, `blockMapping` and `blockEnd`, and
the token `key` in front of a key on one line with its colon, come from the lay-out.

A list of tokens ends in `streamEnd`, or in `broken` where the text cannot be read any further.
-/

namespace Stencil.Yaml

/-- A tag as it is written. -/
inductive WrittenTag
  /-- A whole tag. -/
  | verbatim (name : String)
  /-- A handle that stands for the beginning of the tag, and the end of it. -/
  | short (handle ending : String)
  deriving DecidableEq, Inhabited

/-- A directive. -/
inductive Directive
  /-- The version of the format. -/
  | version (major minor : Nat)
  /-- What a handle of tags stands for. -/
  | handle (handle beginning : String)
  /-- A directive without meaning. -/
  | reserved
  deriving DecidableEq, Inhabited

/-- A token. -/
inductive Token
  | directive (d : Directive)
  | documentStart
  | documentEnd
  | blockSequence
  | blockMapping
  | blockEnd
  | flowSequence
  | flowSequenceEnd
  | flowMapping
  | flowMappingEnd
  /-- A dash in front of an item. -/
  | item
  /-- A comma. -/
  | comma
  /-- The beginning of a key. -/
  | key
  /-- A colon in front of a value. -/
  | value
  | alias (name : String)
  | anchor (name : String)
  | tag (t : WrittenTag)
  /-- A scalar, and whether it is plain, so that its kind is found from its text. -/
  | scalar (text : CodeText) (plain : Bool)
  | streamEnd
  | broken (f : Failure)
  deriving DecidableEq, Inhabited

end Stencil.Yaml

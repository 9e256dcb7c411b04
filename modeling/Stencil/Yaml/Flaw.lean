import Stencil.Error.Basic

/-!
# What can be wrong with a YAML document

The causes for which a text is no YAML document (`Flaw`), with their wording, and the failures of
reading in general: a flaw, or a breach where a well-formed scalar has no value.
-/

namespace Stencil.Yaml

/-- Why a text is no YAML document. -/
inductive Flaw
  /-- A character that must not occur at all. -/
  | unprintable (c : Char)
  /-- A character that begins nothing. -/
  | stray (c : Char)
  /-- A line that has to be a key lacks its colon. -/
  | lostColon
  /-- A dash, a question mark or a colon where a collection cannot begin. -/
  | misplaced (indicator : Char)
  /-- A closing bracket without an opening one. -/
  | unopened (bracket : Char)
  /-- A line that begins with a percent sign and is no directive. -/
  | badDirective
  /-- An anchor or an alias without a proper name. -/
  | badAnchor
  /-- A tag that is not written properly. -/
  | badTag
  /-- A backslash that begins no escape. -/
  | badEscape
  /-- A quoted text that does not end. -/
  | unclosedQuote
  /-- The border of a document inside a quoted text. -/
  | borderInQuotes
  /-- A block of text whose first line is not written properly. -/
  | badBlockHeader
  /-- Content is missing or something else stands in its place. -/
  | noContent
  /-- A collection that is neither continued nor closed properly. -/
  | brokenCollection
  /-- Two directives for one thing. -/
  | repeatedDirective
  /-- A version of the format other than the first. -/
  | foreignVersion
  /-- A tag whose handle is not defined. -/
  | unknownHandle (handle : String)
  /-- An alias whose anchor is not defined. -/
  | unknownAlias (name : String)
  /-- An anchor that is defined twice. -/
  | repeatedAnchor (name : String)
  /-- More than one document. -/
  | manyDocuments
  /-- A tag that stands for no kind of value. -/
  | unknownTag (name : String)
  /-- A tag for another kind of node. -/
  | wrongShape (name : String)
  /-- A collection as a key. -/
  | unusableKey
  /-- Something to be merged that is no mapping. -/
  | unmergeable
  deriving DecidableEq, Inhabited

/-- The wording of a flaw. -/
def Flaw.message : Flaw → String
  | .unprintable c => "the character " ++ Text.quoted (String.ofList [c]) ++ " is not allowed"
  | .stray c => "the character " ++ Text.quoted (String.ofList [c]) ++ " cannot begin anything"
  | .lostColon => "a key has no colon"
  | .misplaced c => Text.quoted (String.ofList [c]) ++ " is not allowed here"
  | .unopened c => Text.quoted (String.ofList [c]) ++ " closes nothing"
  | .badDirective => "the directive cannot be read"
  | .badAnchor => "the name of an anchor or an alias cannot be read"
  | .badTag => "the tag cannot be read"
  | .badEscape => "unknown escape"
  | .unclosedQuote => "the quoted text does not end"
  | .borderInQuotes => "a document ends inside a quoted text"
  | .badBlockHeader => "the first line of a block of text cannot be read"
  | .noContent => "content is missing"
  | .brokenCollection => "a collection is neither continued nor closed"
  | .repeatedDirective => "a directive is repeated"
  | .foreignVersion => "the version is not supported"
  | .unknownHandle h => "the tag handle " ++ Text.quoted h ++ " is not defined"
  | .unknownAlias n => "the alias " ++ Text.quoted n ++ " is not defined"
  | .repeatedAnchor n => "the anchor " ++ Text.quoted n ++ " is defined twice"
  | .manyDocuments => "there is more than one document"
  | .unknownTag n => "the tag " ++ Text.quoted n ++ " is not known"
  | .wrongShape n => "the tag " ++ Text.quoted n ++ " does not fit its node"
  | .unusableKey => "a collection cannot be a key"
  | .unmergeable => "only mappings can be merged"

/-- Why a text cannot be read. -/
inductive Failure
  /-- It is no YAML document. -/
  | flaw (f : Flaw)
  /-- It is one, but a scalar in it has no value. -/
  | breach (b : Breach)
  deriving DecidableEq, Inhabited

/-- The result that a flaw prevents. -/
def reject {α : Type} (f : Flaw) : Except Failure α := .error (.flaw f)

/-- The result that a breach prevents. -/
def violate {α : Type} (b : Breach) : Except Failure α := .error (.breach b)

end Stencil.Yaml

import Stencil.Markers
import Stencil.Workspace

/-!
# Settings

What the sections of a configuration say: the markers, whether nested start markers are refused, and
how much is logged.

* `Settings.sectionOf`: a section;
* `Settings.marker`, `Settings.markers`: the markers;
* `Settings.isStrict`: whether nested start markers are refused;
* `Settings.levelReading`, `Settings.level`: the level of logging.
-/

namespace Stencil

/-- The levels of logging. -/
inductive Level
  | debug
  | info
  | warning
  | error
  | critical
  deriving DecidableEq, Inhabited

namespace Level

/-- The name of a level. -/
def name : Level → String
  | .debug => "DEBUG"
  | .info => "INFO"
  | .warning => "WARNING"
  | .error => "ERROR"
  | .critical => "CRITICAL"

/-- The weight of a level: lines of a lower weight are not shown. -/
def weight : Level → Nat
  | .debug => 10
  | .info => 20
  | .warning => 30
  | .error => 40
  | .critical => 50

/-- The level from which on lines are shown: the lowest one, if everything has to be told. -/
def shown (l : Level) (verbose : Bool) : Level := if verbose then .debug else l

/-- The level of a weight. -/
def ofWeight? (n : Nat) : Option Level :=
  [debug, info, warning, error, critical].find? fun l => l.weight = n

/-- What the name of a level is read as. -/
inductive Reading
  | weight (n : Nat)
  /-- There is no such level, which a text says. -/
  | unknown (text : String)
  deriving DecidableEq, Inhabited

/-- The names that have weights. -/
def named : List (String × Nat) :=
  [("CRITICAL", 50), ("FATAL", 50), ("ERROR", 40), ("WARN", 30), ("WARNING", 30), ("INFO", 20),
    ("DEBUG", 10), ("NOTSET", 0)]

/-- The reading of a name. -/
def read (name : String) : Reading :=
  match named.lookup name with
  | some n => .weight n
  | none => .unknown ("Level " ++ name)

/-- The level of a reading; that of warnings, if it is not one of the five. -/
def ofReading : Reading → Level
  | .weight n => (ofWeight? n).getD .warning
  | .unknown _ => .warning

end Level

namespace Settings

/-- A section of a configuration. One that is missing or counts as false is empty. -/
def sectionOf (config : Mapping) (name : String) : Value :=
  match config.getStr? name with
  | some v => if v.truth then v else .map []
  | none => .map []

/-- An entry of a section, which has to be a mapping. -/
def entryOf (config : Mapping) (name entry : String) : Except Fault (Option Value) :=
  match sectionOf config name with
  | .map m => .ok (Mapping.getStr? m entry)
  | _ => .error Breach.noEntries

/-- The start marker or the end marker of a configuration; null, if there is none. -/
def marker (config : Mapping) (field : String) : Except Fault Value :=
  (entryOf config "delimiters" field).map (·.getD .null)

/-- The markers of a configuration. -/
def markers (config : Mapping) : Except Fault Markers := do
  let start ← marker config "start"
  let stop ← marker config "end"
  (Markers.ofValues start stop).mapError Fault.error

/-- Whether nested start markers are refused. -/
def isStrict (config : Mapping) : Except Fault Bool :=
  (entryOf config "scan" "strict_syntax_check").map fun v => (v.getD (.bool false)).truth

/-- The name of the level of logging in upper case; that of warnings, unless the configuration says
    otherwise. Letters beyond ASCII stay as they are: the schema admits no name with any. -/
def levelName (config : Mapping) : Except Fault String := do
  let v := (← entryOf config "logging" "level").getD .null
  let name ← (textOf (if v.truth then v else .str "WARNING").text?).mapError Fault.breach
  return String.ofList (name.toList.map Char.toUpper)

/-- What the name of the level of logging is read as. -/
def levelReading (config : Mapping) : Except Fault Level.Reading :=
  (levelName config).map Level.read

/-- The level of logging. -/
def level (config : Mapping) : Except Fault Level := (levelReading config).map Level.ofReading

end Settings

end Stencil

import Stencil.Number.Numeral
import Stencil.Number.Shortest
import Stencil.Text.Quoted
import Stencil.Value.Basic

/-!
# The text of a value

A value is shown in two ways. Its *text* is what a template is filled with: a text stands for
itself. Its *literal* is unambiguous: texts are quoted, also inside lists and mappings. An integer
of more than `Numeral.maxDigits` digits has neither, and so has nothing that contains one.

The text of a ragged text is ragged, so it comes in two versions: as it is, and as it can be shown.

* `Value.literal?`, `Value.text?`: the two forms;
* `Value.codeText?`: the text with its surrogates;
* `Value.text?_str`: the text of a text.
-/

namespace Stencil

/-- The style of numbers in texts and literals. -/
def displayStyle : FloatStyle := ⟨"nan", "inf", false⟩

/-- A number in at least `width` digits. -/
def padded (width n : Nat) : String :=
  let ds := Numeral.natText n
  String.ofList (List.replicate (width - ds.length) '0' ++ ds)

/-! ## Dates -/

/-- A day as `year-month-day`. -/
def Day.text (d : Day) : String :=
  padded 4 d.year ++ "-" ++ padded 2 d.month ++ "-" ++ padded 2 d.day

/-- The distance from universal time as `+hours:minutes`. -/
def offsetText (minutes : Int) : String :=
  (if minutes < 0 then "-" else "+") ++ padded 2 (minutes.natAbs / 60) ++ ":" ++
    padded 2 (minutes.natAbs % 60)

/-- A time of a day. -/
def Clock.text (c : Clock) : String :=
  padded 2 c.hour ++ ":" ++ padded 2 c.minute ++ ":" ++ padded 2 c.second ++
    (if c.micro = 0 then "" else "." ++ padded 6 c.micro) ++
    match c.offset with
    | none => ""
    | some m => offsetText m

/-- A day, or a moment of a day. -/
def dateText (d : Day) : Option Clock → String
  | none => d.text
  | some c => d.text ++ " " ++ c.text

/-- The literal of a distance from universal time, as whole days and seconds. -/
def offsetLiteral (minutes : Int) : String :=
  if minutes = 0 then "datetime.timezone.utc"
  else if minutes < 0 then
    "datetime.timezone(datetime.timedelta(days=-1, seconds=" ++
      Numeral.intText (minutes * 60 + 86400) ++ "))"
  else
    "datetime.timezone(datetime.timedelta(seconds=" ++ Numeral.intText (minutes * 60) ++ "))"

/-- The literal of a day or a moment. Seconds and parts of a second that are zero are left out. -/
def dateLiteral (d : Day) (clock : Option Clock) : String :=
  let numbers (ns : List Nat) := ", ".intercalate (ns.map fun n => Numeral.intText (n : Nat))
  match clock with
  | none => "datetime.date(" ++ numbers [d.year, d.month, d.day] ++ ")"
  | some c =>
    let tail :=
      if c.micro ≠ 0 then [c.second, c.micro] else if c.second ≠ 0 then [c.second] else []
    "datetime.datetime(" ++ numbers ([d.year, d.month, d.day, c.hour, c.minute] ++ tail) ++
      (match c.offset with
        | none => ""
        | some m => ", tzinfo=" ++ offsetLiteral m) ++ ")"

/-! ## Literals -/

/-- The literal of a scalar. -/
def Scalar.literal? : Scalar → Option String
  | .null => some "None"
  | .bool b => some (if b then "True" else "False")
  | .int i => Numeral.intText? i
  | .float x => some (x.text displayStyle)
  | .str s => some (Text.quoted s)
  | .ragged t => some (String.ofList (Text.quoteCodes t.codes))
  | .date d c => some (dateLiteral d c)

/-- The literals of the items of a tuple, between parentheses; a single item is followed by a
    comma. -/
def tupleLiteral : List String → String
  | [s] => "(" ++ s ++ ",)"
  | ss => "(" ++ ", ".intercalate ss ++ ")"

/-- The literal of a key. -/
def Key.literal? : Key → Option String
  | .scalar s => s.literal?
  | .tuple ks => (literals? ks).map tupleLiteral
where
  /-- The literals of the keys of a list. -/
  literals? : List Key → Option (List String)
    | [] => some []
    | k :: ks => k.literal?.bind fun s => (literals? ks).map (s :: ·)

/-- The literal of a value. -/
def Value.literal? : Value → Option String
  | .scalar s => s.literal?
  | .list vs => (literals? vs).map fun ss => "[" ++ ", ".intercalate ss ++ "]"
  | .tuple vs => (literals? vs).map tupleLiteral
  | .map es => (entries? es).map fun ss => "\x7b" ++ ", ".intercalate ss ++ "\x7d"
where
  /-- The literals of the values of a list. -/
  literals? : List Value → Option (List String)
    | [] => some []
    | v :: vs => v.literal?.bind fun s => (literals? vs).map (s :: ·)
  /-- The literals of the entries of a mapping. -/
  entries? : Mapping → Option (List String)
    | [] => some []
    | (k, v) :: es =>
      k.literal?.bind fun s => v.literal?.bind fun t =>
        (entries? es).map ((s ++ ": " ++ t) :: ·)

/-! ## Texts -/

/-- The text of a value, as it can be shown. -/
def Value.text? : Value → Option String
  | .str s => some s
  | .ragged t => some t.shown
  | .scalar (.date d c) => some (dateText d c)
  | v => v.literal?

/-- The text of a key, as it can be shown. -/
def Key.text? (k : Key) : Option String := k.toValue.text?

/-- The text of a value, with its surrogates. -/
def Value.codeText? : Value → Option CodeText
  | .ragged t => some (.ragged t)
  | v => v.text?.map .whole

/-- The text of a key, with its surrogates. -/
def Key.codeText? (k : Key) : Option CodeText := k.toValue.codeText?

/-- A text is shown as it can be. -/
theorem Value.text?_eq_map_shown (v : Value) : v.text? = v.codeText?.map CodeText.shown := by
  unfold codeText?
  split
  · rfl
  · cases v.text? <;> rfl

@[simp]
theorem Value.text?_str (s : String) : (Value.str s).text? = some s := rfl

@[simp]
theorem Key.text?_str (s : String) : (Key.str s).text? = some s := rfl

end Stencil

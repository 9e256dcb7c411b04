import Stencil.Number.Numeral
import Stencil.Value.Basic

/-!
# Timestamps

A timestamp is a day, `year-month-day`, or a moment: a day, a time with an optional fraction of a
second, and an optional distance from universal time. How one is written is one question, and whether
the calendar and the clock have it is another.

* `Timestamp.ofChars?`: the numbers of a text that is written like a timestamp;
* `Timestamp.isPlain`: whether a plain scalar is taken for a timestamp;
* `Timestamp.scalar?`: the day or the moment, if there is such a one.
-/

namespace Stencil.Yaml

/-- The numbers of a timestamp, as they are written. -/
structure Timestamp where
  day : Day
  clock : Option Clock
  deriving DecidableEq, Inhabited

namespace Timestamp

/-- The ASCII digits in front of a text, at least `least` and at most `most`, as a number. -/
def number? (least most : Nat) (cs : List Char) : Option (Nat × List Char) :=
  let ds := (cs.take most).takeWhile Char.isDigit
  if ds.length < least then none else (Numeral.digits? ds).map (·, cs.drop ds.length)

/-- The text behind a character. -/
def behind? (c : Char) : List Char → Option (List Char)
  | d :: r => if d = c then some r else none
  | [] => none

/-- A day, and what follows it. -/
def day? (cs : List Char) : Option (Day × List Char) := do
  let (year, r) ← number? 4 4 cs
  let (month, r) ← number? 1 2 (← behind? '-' r)
  let (day, r) ← number? 1 2 (← behind? '-' r)
  return (⟨year, month, day⟩, r)

/-- A fraction of a second in millionths, as far as it is written, and what follows it. -/
def fraction (cs : List Char) : Nat × List Char :=
  match cs with
  | '.' :: r =>
    let (ds, r) := r.span Char.isDigit
    let six := ds.take 6 ++ List.replicate (6 - ds.length) '0'
    ((Numeral.digits? six).getD 0, r)
  | _ => (0, cs)

/-- Whether a character is a blank or a tab. -/
def isSpace (c : Char) : Bool := c == ' ' || c == '\t'

/-- A distance from universal time at the end of a text, which may be missing. -/
def offset? (cs : List Char) : Option (Option Int) :=
  match cs with
  | [] => some none
  | _ =>
    match cs.dropWhile isSpace with
    | ['Z'] => some (some 0)
    | sign :: r =>
      if sign = '-' ∨ sign = '+' then do
        let (hours, r) ← number? 1 2 r
        let minutes ←
          match r with
          | [] => some 0
          | _ => do
            let (minutes, r) ← number? 2 2 (← behind? ':' r)
            if r.isEmpty then some minutes else none
        let n : Int := hours * 60 + minutes
        some (some (if sign = '-' then -n else n))
      else none
    | [] => none

/-- A time of a day, with all that follows it. -/
def clock? (cs : List Char) : Option Clock := do
  let (hour, r) ← number? 1 2 cs
  let (minute, r) ← number? 2 2 (← behind? ':' r)
  let (second, r) ← number? 2 2 (← behind? ':' r)
  let (micro, r) := fraction r
  let offset ← offset? r
  return ⟨hour, minute, second, micro, offset⟩

/-- The numbers of a text that is written like a timestamp. -/
def ofChars? (cs : List Char) : Option Timestamp := do
  let (day, r) ← day? cs
  match r with
  | [] => return ⟨day, none⟩
  | c :: rest =>
    let r ←
      if c = 'T' ∨ c = 't' then some rest
      else if isSpace c then some (rest.dropWhile isSpace)
      else none
    return ⟨day, ← clock? r⟩

/-- Whether a plain scalar is taken for a timestamp: a day without a time has to be written in full. -/
def isPlain (cs : List Char) : Bool :=
  match ofChars? cs with
  | some ⟨_, none⟩ => cs.length == 10
  | some ⟨_, some _⟩ => true
  | none => false

/-- The number of days of a month. -/
def daysOf (year month : Nat) : Nat :=
  if month = 2 then
    if year % 4 = 0 ∧ (year % 100 ≠ 0 ∨ year % 400 = 0) then 29 else 28
  else if month = 4 ∨ month = 6 ∨ month = 9 ∨ month = 11 then 30
  else 31

/-- Whether the calendar has a day. -/
def isDay (d : Day) : Bool :=
  1 ≤ d.year && 1 ≤ d.month && d.month ≤ 12 && 1 ≤ d.day && d.day ≤ daysOf d.year d.month

/-- Whether a clock shows a time, at a distance of less than a day from universal time. -/
def isClock (c : Clock) : Bool :=
  c.hour < 24 && c.minute < 60 && c.second < 60 && (c.offset.getD 0).natAbs < 24 * 60

/-- The day or the moment that a timestamp stands for. -/
def scalar? (t : Timestamp) : Option Scalar :=
  if isDay t.day && t.clock.all isClock then some (.date t.day t.clock) else none

end Timestamp

end Stencil.Yaml

import Stencil.Number.Numeral
import Stencil.Text.Pieces
import Stencil.Yaml.Flaw

/-!
# Numbers in documents

The numbers that scalars stand for. Underscores in them do not count. Integers are written in base
ten, with `0b`, `0x` or `0` in front in base two, sixteen or eight, or with colons in base sixty;
numbers with a point may be written in base sixty, too.

* `integer`: the integer that a scalar stands for;
* `float`: the number in double precision that a scalar stands for.
-/

namespace Stencil.Yaml

/-- A text without its underscores. -/
def withoutLow (cs : List Char) : List Char := cs.filter (· != '_')

/-- The result of a reader that has to succeed. -/
def readable {α : Type} : Option α → Except Failure α
  | some a => .ok a
  | none => violate .badNumber

/-- A number without its sign, which must not be missing, and whether the sign is a minus. -/
def splitNumberSign (cs : List Char) : Except Failure (Bool × List Char) :=
  if cs.isEmpty then violate .emptyNumber else .ok (Numeral.splitSign cs)

/-! ## Integers -/

/-- An integer in base ten. -/
def decimal (cs : List Char) : Except Failure Int :=
  let cs := Numeral.trimMargins cs
  if Numeral.maxDigits < (Numeral.splitSign cs).2.length then violate .longInteger
  else readable (Numeral.integer? cs)

/-- An integer in base sixty, as the numbers between its colons. -/
def sexagesimal (parts : List (List Char)) : Except Failure Int :=
  parts.foldlM (fun n part => (decimal part).map (60 * n + ·)) 0

/-- An integer without its sign. -/
def unsignedInteger (cs : List Char) : Except Failure Int :=
  match cs with
  | [] => violate .emptyNumber
  | ['0'] => .ok 0
  | '0' :: 'b' :: r => readable (Numeral.integerIn? 2 'b' r)
  | '0' :: 'x' :: r => readable (Numeral.integerIn? 16 'x' r)
  | '0' :: _ => readable (Numeral.integerIn? 8 'o' cs)
  | _ => if cs.contains ':' then sexagesimal (Text.pieces ':' cs) else decimal cs

/-- The integer that a scalar stands for. -/
def integer (cs : List Char) : Except Failure Int := do
  let (negative, ds) ← splitNumberSign (withoutLow cs)
  let n ← unsignedInteger ds
  return if negative then -n else n

/-! ## Numbers in double precision -/

/-- A number in base ten. -/
def decimalFloat (cs : List Char) : Except Failure Double :=
  readable (Numeral.double? (Numeral.trimMargins cs))

/-- The sum of numbers, each one worth sixty times as much as the one before it, from the first one
    on, which is worth `unit` times its size. -/
def sumSixtieths (unit : Nat) : Double → List Double → Double
  | sum, [] => sum
  | sum, x :: xs => sumSixtieths (60 * unit) (sum.add (x.scale unit)) xs

/-- A number without its sign. -/
def unsignedFloat (cs : List Char) : Except Failure Double :=
  if cs = ".inf".toList then .ok (.infinite false)
  else if cs = ".nan".toList then .ok .nan
  else if cs.contains ':' then do
    let parts ← (Text.pieces ':' cs).mapM decimalFloat
    return sumSixtieths 1 (.zero false) parts.reverse
  else decimalFloat cs

/-- The number in double precision that a scalar stands for. -/
def float (cs : List Char) : Except Failure Double := do
  let (negative, ds) ← splitNumberSign ((withoutLow cs).map Char.toLower)
  let x ← unsignedFloat ds
  return if negative then x.neg else x

end Stencil.Yaml

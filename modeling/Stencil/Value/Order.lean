import Stencil.Sort
import Stencil.Value.Mapping

/-!
# The order of keys

Keys of one kind have an order: numbers by size, texts by their code points, days and moments by time,
tuples by their first difference. Keys of different kinds cannot be compared, nor can moments with and
without a known distance from universal time, nor null.

* `Key.before?`: whether a key comes before another one, if they can be compared;
* `Mapping.sorted?`: a mapping in the order of its keys, if any two of them can be compared;
* `sorted?_perm`: it has the same entries.
-/

namespace Stencil

/-! ## Numbers -/

/-- Where a number lies among all numbers. -/
inductive Position
  /-- Nowhere: it is no number. -/
  | nowhere
  /-- Below all fractions. -/
  | lowest
  /-- At a fraction with a positive denominator. -/
  | ratio (num : Int) (den : Nat)
  /-- Above all fractions. -/
  | highest
  deriving DecidableEq, Inhabited

/-- Whether a position is below another one. -/
def Position.below : Position → Position → Bool
  | .ratio a b, .ratio c d => a * d < c * b
  | .ratio _ _, .highest => true
  | .lowest, .ratio _ _ => true
  | .lowest, .highest => true
  | _, _ => false

/-- The position of a number in double precision. -/
def Double.position (x : Double) : Position :=
  match x, x.fraction? with
  | .infinite negative, _ => if negative then .lowest else .highest
  | _, some (num, den) => .ratio num den
  | _, none => .nowhere

/-- The position of a scalar that is a number or counts as one. -/
def Scalar.position? : Scalar → Option Position
  | .bool b => some (.ratio b.toNat 1)
  | .int i => some (.ratio i 1)
  | .float x => some x.position
  | _ => none

/-! ## Time -/

/-- The number of days from the first of March of the year zero to a day. -/
def Day.number (d : Day) : Nat :=
  -- Years begin in March, so that the leap day is the last one.
  let year := if d.month ≤ 2 then d.year - 1 else d.year
  365 * year + year / 4 - year / 100 + year / 400 + (153 * ((d.month + 9) % 12) + 2) / 5 + d.day - 1

/-- The number of millionths of a second from the first of March of the year zero to a moment. -/
def Clock.moment (day : Day) (c : Clock) : Int :=
  let minutes : Int := (day.number * 24 + c.hour) * 60 + c.minute - c.offset.getD 0
  (minutes * 60 + c.second) * 1000000 + c.micro

/-! ## Keys -/

/-- The code points of a text. -/
def Scalar.codes? : Scalar → Option (List CodePoint)
  | .str s => some (CodeText.whole s).codes
  | .ragged t => some t.codes
  | _ => none

/-- Whether a text comes before another one: the first code points that differ decide. -/
def CodePoint.before (ps qs : List CodePoint) : Bool := ps.map toNat < qs.map toNat

/-- Whether a scalar comes before another one, if they can be compared. -/
def Scalar.before? : Scalar → Scalar → Option Bool
  | .str s, .str t => some (s < t)
  | .date d none, .date d' none => some (d.number < d'.number)
  | .date d (some c), .date d' (some c') =>
    if c.offset.isSome = c'.offset.isSome then some (c.moment d < c'.moment d') else none
  | s, t =>
    match s.codes?, t.codes?, s.position?, t.position? with
    | some ps, some qs, _, _ => some (CodePoint.before ps qs)
    | _, _, some p, some q => some (p.below q)
    | _, _, _, _ => none

/-- Whether a key comes before another one, if they can be compared. -/
def Key.before? : Key → Key → Option Bool
  | .scalar s, .scalar t => s.before? t
  | .tuple ks, .tuple ls => listBefore? ks ls
  | _, _ => none
where
  /-- Whether a tuple comes before another one: the first items that differ decide. -/
  listBefore? : List Key → List Key → Option Bool
    | [], ls => some !ls.isEmpty
    | _ :: _, [] => some false
    | k :: ks, l :: ls => if k.same l then listBefore? ks ls else k.before? l

namespace Mapping

/-- Whether two keys are the same or can be compared. -/
def comparable (k l : Key) : Bool := k.same l || (k.before? l).isSome

/-- A mapping in the order of its keys, if any two of them can be compared. -/
def sorted? (m : Mapping) : Option Mapping :=
  if (keys m).all fun k => (keys m).all (comparable k) then
    some (sort (fun a b => b.1.before? a.1 != some true) m)
  else none

theorem sorted?_perm {m n : Mapping} (h : sorted? m = some n) : n.Perm m := by
  unfold sorted? at h
  split at h
  · cases h
    exact sort_perm _ m
  · cases h

end Mapping

end Stencil

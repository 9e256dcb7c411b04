import Stencil.Error.Basic
import Stencil.Text.Blank

/-!
# Identifiers

What stands between the markers of a placeholder. A body that does not start with a question mark
is the name of a value that has to be there. Otherwise the value is optional: the name ends at the
first blank, and the default stands in quotes behind the first `defVal="` after that blank. In a
default a star before a quote makes the quote a part of the default.

* `Identifier.parse`: the identifier of a body;
* `escape`, `unescape?`: a default as it is written, and back;
* `unescape?_escape`: a default that does not end in a star is read back.
-/

namespace Stencil

/-- The identifier of a placeholder. -/
inductive Identifier
  /-- A name that must have a value. -/
  | mandatory (name : String)
  /-- A name with a default that is used if the name has no value. -/
  | optional (name default : String)
  deriving DecidableEq, Inhabited

namespace Identifier

/-- The name that a value is looked up under. -/
def name : Identifier → String
  | .mandatory n => n
  | .optional n _ => n

/-- The default of an optional identifier. -/
def default? : Identifier → Option String
  | .mandatory _ => none
  | .optional _ d => some d

/-- What introduces a default. -/
def defaultToken : List Char := ['d', 'e', 'f', 'V', 'a', 'l', '=', '"']

/-- A default as it is written: a star is put before every quote. -/
def escape : List Char → List Char
  | [] => []
  | c :: r => if c = '"' then '*' :: '"' :: escape r else c :: escape r

/-- A default up to its closing quote, the first quote that has no star before it. -/
def unescape? : List Char → Option (List Char)
  | [] => none
  | '*' :: '"' :: r => (unescape? r).map ('"' :: ·)
  | c :: r => if c = '"' then some [] else (unescape? r).map (c :: ·)

/-- What is left of `text` if it starts with `front`. -/
def dropFront? : (front text : List Char) → Option (List Char)
  | [], text => some text
  | _ :: _, [] => none
  | f :: front, c :: text => if f = c then dropFront? front text else none

/-- What follows the first occurrence of `token` in a text. -/
def afterFirst? (token : List Char) : List Char → Option (List Char)
  | [] => dropFront? token []
  | c :: r =>
    match dropFront? token (c :: r) with
    | some rest => some rest
    | none => afterFirst? token r

/-- The default among the parameters of an optional identifier. -/
def readDefault (parameters : List Char) : Except DefaultFlaw (List Char) :=
  match afterFirst? defaultToken parameters with
  | none => .error .noToken
  | some rest =>
    match unescape? rest with
    | none => .error .noClosingQuote
    | some d => .ok d

/-- The name and the default of an optional identifier, whose body is `?` and `rest`. -/
def readOptional (rest : List Char) : Except DefaultFlaw (List Char × List Char) :=
  -- A blank with nothing behind it does not begin any parameters.
  match rest.span (!Text.isBlank ·) with
  | (_, []) => .error .noParameters
  | (_, [_]) => .error .noParameters
  | (name, _ :: parameters) => (readDefault parameters).map (name, ·)

/-- The identifier of a body. -/
def parse (body : List Char) : Except Error Identifier :=
  match body with
  | '?' :: rest =>
    match readOptional rest with
    | .ok (name, default) => .ok (.optional (String.ofList name) (String.ofList default))
    | .error flaw => .error (.missingDefault flaw (String.ofList body))
  | _ => .ok (.mandatory (String.ofList body))

/-! ## Writing defaults and reading them back -/

/-- No escaped text starts with a quote: a quote is written with its star. -/
theorem head?_escape (d : List Char) :
    (escape d).head? = d.head?.map fun c => if c = '"' then '*' else c := by
  cases d with
  | nil => rfl
  | cons c r => by_cases hq : c = '"' <;> simp [escape, hq]

/-- A character that neither closes a default nor escapes a quote is read as it is. -/
theorem unescape?_cons {c : Char} {r : List Char} (hq : c ≠ '"')
    (hs : c = '*' → r.head? ≠ some '"') : unescape? (c :: r) = (unescape? r).map (c :: ·) := by
  conv => lhs; unfold unescape?
  split
  · simp_all
  · next r' he =>
    simp only [List.cons.injEq] at he
    exact absurd (by rw [he.2]; rfl) (hs he.1)
  · next he =>
    simp only [List.cons.injEq] at he
    obtain ⟨rfl, rfl⟩ := he
    simp [hq]

/-- Escaping leaves the end of a text alone: after it an escaped text is read as before. -/
theorem unescape?_escape_append {d : List Char} (h : d.getLast? ≠ some '*') (post : List Char) :
    unescape? (escape d ++ '"' :: post) = some d := by
  induction d with
  | nil => simp [escape, unescape?]
  | cons c r ih =>
    have hr : r.getLast? ≠ some '*' := by
      cases r with
      | nil => simp
      | cons x r => simpa [List.getLast?_cons_cons] using h
    by_cases hq : c = '"'
    · -- A quote is written with its star, and the two are read back as one.
      subst hq
      simp [escape, unescape?, ih hr]
    · have hstep : unescape? (c :: (escape r ++ '"' :: post)) =
          (unescape? (escape r ++ '"' :: post)).map (c :: ·) := by
        refine unescape?_cons hq fun hs => ?_
        cases r with
        | nil =>
          -- The last character is no star, so the closing quote is not taken for
          -- an escaped one.
          exact absurd (by simp [hs]) h
        | cons x r =>
          -- A star inside is not followed by a quote: every quote of the default
          -- has a star of its own before it.
          by_cases hx : x = '"' <;> simp [escape, hx]
      have hesc : escape (c :: r) = c :: escape r := by simp [escape, hq]
      rw [hesc, List.cons_append, hstep, ih hr]
      rfl

theorem unescape?_escape {d : List Char} (h : d.getLast? ≠ some '*') :
    unescape? (escape d ++ ['"']) = some d :=
  unescape?_escape_append h []

end Identifier

end Stencil

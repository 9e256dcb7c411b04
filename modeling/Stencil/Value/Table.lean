import Stencil.Value.Display

/-!
# Tables

The display of a value for a reader: a mapping has a line for every entry, and an entry whose value
takes several lines is followed by them, each set in by two more blanks. Texts are quoted.

* `Value.table?`: the display of a value;
* `Value.isPrintable`: whether the display can be printed.
-/

namespace Stencil

/-- The line of an entry, or its lines if its value takes several. -/
def entryLines (margin key value : String) : String :=
  if value.toList.contains '\n' then margin ++ key ++ ":\n" ++ value
  else margin ++ key ++ ": " ++ value

/-- The blanks in front of the lines at a depth. -/
def margin (depth : Nat) : String := String.ofList (List.replicate (2 * depth) ' ')

/-- The display of a value at a depth. -/
def Value.table? (depth : Nat) : Value → Option String
  | .map es => (rows? depth es).map ("\n".intercalate ·)
  | .str s => some (Text.quoted s)
  | .ragged t => some (String.ofList (Text.quoteCodes t.codes))
  | v => v.text?
where
  /-- The displays of the entries of a mapping. -/
  rows? (depth : Nat) : Mapping → Option (List String)
    | [] => some []
    | (k, v) :: es =>
      (v.table? (depth + 1)).bind fun t => k.text?.bind fun s =>
        (rows? depth es).map (entryLines (margin depth) s t :: ·)

/-- Whether a key that stands in front of a row has no surrogates. In a tuple they are escaped. -/
def Key.isPrintable : Key → Bool
  | .scalar (.ragged _) => false
  | _ => true

/-- Whether all keys in front of the rows of the display of a value have no surrogates. -/
def Value.isPrintable : Value → Bool
  | .map es => rowsPrintable es
  | _ => true
where
  /-- Whether all rows of a mapping can be printed. -/
  rowsPrintable : Mapping → Bool
    | [] => true
    | (k, v) :: es => k.isPrintable && v.isPrintable && rowsPrintable es

end Stencil

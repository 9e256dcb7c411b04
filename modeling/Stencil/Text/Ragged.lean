/-!
# Ragged texts

An escape can spell a surrogate, a code point that is no character. A text with surrogates is *ragged*:
it can be kept, compared and escaped again, but it has no encoding in UTF-8, so it cannot be written.

* `CodePoint`: a character or a surrogate;
* `Ragged`: a text with a surrogate in it;
* `CodeText.ofCodes`: the text of any code points;
* `CodeText.codes_ofCodes`, `CodeText.ofCodes_codes`: a text is told by its code points.
-/

namespace Stencil

/-- A code point: a character, or one of the 2048 surrogates. -/
inductive CodePoint
  | char (c : Char)
  | surrogate (i : Fin 0x800)
  deriving DecidableEq, Inhabited

namespace CodePoint

/-- The number of a code point. -/
def toNat : CodePoint → Nat
  | char c => c.toNat
  | surrogate i => 0xD800 + i

/-- The code point of a number below `0x110000`. -/
def ofNat (n : Nat) : CodePoint :=
  if h : 0xD800 ≤ n ∧ n < 0xE000 then .surrogate ⟨n - 0xD800, by omega⟩ else .char (Char.ofNat n)

/-- Whether a code point is a surrogate. -/
def isSurrogate : CodePoint → Bool
  | char _ => false
  | surrogate _ => true

/-- A code point where only characters can be shown: the replacement character stands for a
    surrogate. -/
def shown : CodePoint → Char
  | char c => c
  | surrogate _ => Char.ofNat 0xFFFD

@[simp]
theorem shown_char (c : Char) : (char c).shown = c := rfl

/-- What is no surrogate is shown as it is. -/
theorem char_shown {p : CodePoint} (h : p.isSurrogate = false) : .char p.shown = p := by
  cases p with
  | char c => rfl
  | surrogate i => cases h

/-- A code point is told by its number. -/
theorem ofNat_toNat (p : CodePoint) : ofNat p.toNat = p := by
  cases p with
  | char c =>
    have hvalid : c.toNat < 0xD800 ∨ 0xDFFF < c.toNat := c.valid.imp id And.left
    rw [toNat, ofNat, dif_neg (by omega), Char.ofNat_toNat]
  | surrogate i =>
    have hi := i.isLt
    rw [toNat, ofNat, dif_pos (by omega)]
    exact congrArg surrogate (Fin.ext (Nat.add_sub_cancel_left _ _))

end CodePoint

/-- A text with at least one surrogate in it. -/
structure Ragged where
  codes : List CodePoint
  any_isSurrogate : codes.any CodePoint.isSurrogate
  deriving DecidableEq

namespace Ragged

instance : Inhabited Ragged := ⟨⟨[.surrogate 0], rfl⟩⟩

/-- A ragged text where only characters can be shown. -/
def shown (t : Ragged) : String := String.ofList (t.codes.map CodePoint.shown)

/-- There is a surrogate in a ragged text, so it is not empty. -/
theorem codes_ne_nil (t : Ragged) : t.codes ≠ [] := fun h => by
  have hany := t.any_isSurrogate
  rw [h] at hany
  cases hany

theorem shown_ne (t : Ragged) : t.shown ≠ "" := fun h => by
  rw [shown, String.ofList_eq_empty_iff, List.map_eq_nil_iff] at h
  exact t.codes_ne_nil h

end Ragged

/-- A text of code points. -/
inductive CodeText
  /-- All of them are characters. -/
  | whole (s : String)
  | ragged (t : Ragged)
  deriving DecidableEq, Inhabited

namespace CodeText

/-- The text of code points. -/
def ofCodes (ps : List CodePoint) : CodeText :=
  if h : ps.any CodePoint.isSurrogate then .ragged ⟨ps, h⟩
  else .whole (String.ofList (ps.map CodePoint.shown))

/-- The code points of a text. -/
def codes : CodeText → List CodePoint
  | whole s => s.toList.map .char
  | ragged t => t.codes

/-- A text where only characters can be shown. -/
def shown : CodeText → String
  | whole s => s
  | ragged t => t.shown

/-- Only the empty text is shown as one. -/
theorem shown_ne {s : CodeText} (h : s ≠ whole "") : s.shown ≠ "" := by
  cases s with
  | whole s => exact fun h' => h (congrArg whole h')
  | ragged t => exact t.shown_ne

theorem map_shown_map_char (cs : List Char) : (cs.map CodePoint.char).map CodePoint.shown = cs := by
  have hid : CodePoint.shown ∘ CodePoint.char = id := funext CodePoint.shown_char
  rw [List.map_map, hid, List.map_id]

/-- A text of characters is whole. -/
@[simp]
theorem ofCodes_map_char (cs : List Char) : ofCodes (cs.map .char) = .whole (String.ofList cs) := by
  have hnone : (cs.map CodePoint.char).any CodePoint.isSurrogate = false := by
    rw [List.any_map, List.any_eq_false]
    exact fun c _ => Bool.false_ne_true
  rw [ofCodes, dif_neg (by rw [hnone]; exact Bool.false_ne_true), map_shown_map_char]

/-- The text of the code points of a text is that text. -/
@[simp]
theorem ofCodes_codes (t : CodeText) : ofCodes t.codes = t := by
  cases t with
  | whole s => rw [codes, ofCodes_map_char, String.ofList_toList]
  | ragged t => exact dif_pos t.any_isSurrogate

theorem ofCodes_toList (s : String) : ofCodes (s.toList.map .char) = .whole s :=
  ofCodes_codes (.whole s)

/-- The code points that a text is made of are its code points. -/
@[simp]
theorem codes_ofCodes (ps : List CodePoint) : (ofCodes ps).codes = ps := by
  rw [ofCodes]
  split
  · rfl
  · next h =>
    rw [Bool.not_eq_true, List.any_eq_false] at h
    rw [codes, String.toList_ofList, List.map_map]
    conv => rhs; rw [← List.map_id ps]
    exact List.map_congr_left fun p hp => CodePoint.char_shown (Bool.eq_false_iff.2 (h p hp))

/-- A text is told by its code points. -/
theorem codes_injective {s t : CodeText} (h : s.codes = t.codes) : s = t := by
  rw [← ofCodes_codes s, h, ofCodes_codes]

/-- A text is shown code point by code point. -/
theorem toList_shown (t : CodeText) : t.shown.toList = t.codes.map CodePoint.shown := by
  cases t with
  | whole s => rw [codes, map_shown_map_char, shown]
  | ragged t => rw [shown, Ragged.shown, String.toList_ofList, codes]

/-- What is shown of code points is what is shown of each. -/
theorem shown_ofCodes (ps : List CodePoint) :
    (ofCodes ps).shown = String.ofList (ps.map CodePoint.shown) := by
  rw [← String.toList_inj, toList_shown, codes_ofCodes, String.toList_ofList]

end CodeText

end Stencil

import Stencil.Number.Double
import Stencil.Text.Ragged

/-!
# Values

The values that documents hold and that templates are filled with: scalars, lists,
tuples, and mappings in the order in which their keys were first written.

A key is a value that holds no list and no mapping, so that it can be compared for good.
Numbers are one key if they are equal (`Key.same`): `1`, `1.0` and `true` all are.

* `Value.rec_on_parts`: a property holds of all values if it passes from the parts of a
  value to the value;
* `Key.same`: whether two keys name the same entry;
* `Value.truth`: whether a value counts as true.
-/

namespace Stencil

/-- A day of the calendar. -/
structure Day where
  year : Nat
  month : Nat
  day : Nat
  deriving DecidableEq, Inhabited

/-- A time of a day, with the distance of its clock from universal time in minutes, if known. -/
structure Clock where
  hour : Nat
  minute : Nat
  second : Nat
  micro : Nat
  offset : Option Int
  deriving DecidableEq, Inhabited

/-- A value without parts. -/
inductive Scalar
  | null
  | bool (b : Bool)
  | int (i : Int)
  | float (x : Double)
  | str (s : String)
  /-- A text with surrogates. -/
  | ragged (t : Ragged)
  /-- A day, or a moment of a day. -/
  | date (day : Day) (clock : Option Clock)
  deriving DecidableEq, Inhabited

/-- A text of code points as a scalar. -/
def Scalar.ofText : CodeText → Scalar
  | .whole s => .str s
  | .ragged t => .ragged t

/-- A text is told by the scalar that it is. -/
theorem Scalar.ofText_injective {s t : CodeText} (h : ofText s = ofText t) : s = t := by
  cases s <;> cases t <;> cases h <;> rfl

/-- The key of an entry of a mapping. -/
inductive Key
  | scalar (s : Scalar)
  | tuple (items : List Key)
  deriving Inhabited

/-- A value. -/
inductive Value
  | scalar (s : Scalar)
  | list (items : List Value)
  | tuple (items : List Value)
  | map (entries : List (Key × Value))
  deriving Inhabited

/-- A mapping, as the list of its entries. -/
abbrev Mapping := List (Key × Value)

namespace Value

/-- The absent value. -/
@[match_pattern] abbrev null : Value := .scalar .null

/-- A truth value. -/
@[match_pattern] abbrev bool (b : Bool) : Value := .scalar (.bool b)

/-- An integer. -/
@[match_pattern] abbrev int (i : Int) : Value := .scalar (.int i)

/-- A number in double precision. -/
@[match_pattern] abbrev float (x : Double) : Value := .scalar (.float x)

/-- A text. -/
@[match_pattern] abbrev str (s : String) : Value := .scalar (.str s)

/-- A text with surrogates. -/
@[match_pattern] abbrev ragged (t : Ragged) : Value := .scalar (.ragged t)

/-- A text of code points. -/
abbrev ofText (t : CodeText) : Value := .scalar (.ofText t)

end Value

/-- A text as a key. -/
@[match_pattern] abbrev Key.str (s : String) : Key := .scalar (.str s)

/-- A text of code points as a key. -/
abbrev Key.ofText (t : CodeText) : Key := .scalar (.ofText t)

/-! ## Equality -/

mutual

/-- Keys can be told apart. -/
def Key.decEq : (k l : Key) → Decidable (k = l)
  | .scalar s, .scalar t => if h : s = t then isTrue (h ▸ rfl) else isFalse (by simp [h])
  | .tuple ks, .tuple ls =>
    match Key.decEqList ks ls with
    | isTrue h => isTrue (h ▸ rfl)
    | isFalse h => isFalse (by simp [h])
  | .scalar _, .tuple _ => isFalse (by simp)
  | .tuple _, .scalar _ => isFalse (by simp)

/-- Lists of keys can be told apart. -/
def Key.decEqList : (ks ls : List Key) → Decidable (ks = ls)
  | [], [] => isTrue rfl
  | [], _ :: _ => isFalse (by simp)
  | _ :: _, [] => isFalse (by simp)
  | k :: ks, l :: ls =>
    match Key.decEq k l, Key.decEqList ks ls with
    | isTrue h, isTrue h' => isTrue (h ▸ h' ▸ rfl)
    | isFalse h, _ => isFalse (by simp [h])
    | _, isFalse h => isFalse (by simp [h])

end

instance : DecidableEq Key := Key.decEq

mutual

/-- Values can be told apart. -/
def Value.decEq : (v w : Value) → Decidable (v = w)
  | .scalar s, .scalar t => if h : s = t then isTrue (h ▸ rfl) else isFalse (by simp [h])
  | .list vs, .list ws =>
    match Value.decEqList vs ws with
    | isTrue h => isTrue (h ▸ rfl)
    | isFalse h => isFalse (by simp [h])
  | .tuple vs, .tuple ws =>
    match Value.decEqList vs ws with
    | isTrue h => isTrue (h ▸ rfl)
    | isFalse h => isFalse (by simp [h])
  | .map es, .map fs =>
    match Value.decEqEntries es fs with
    | isTrue h => isTrue (h ▸ rfl)
    | isFalse h => isFalse (by simp [h])
  | .scalar _, .list _ => isFalse (by simp)
  | .scalar _, .tuple _ => isFalse (by simp)
  | .scalar _, .map _ => isFalse (by simp)
  | .list _, .scalar _ => isFalse (by simp)
  | .list _, .tuple _ => isFalse (by simp)
  | .list _, .map _ => isFalse (by simp)
  | .tuple _, .scalar _ => isFalse (by simp)
  | .tuple _, .list _ => isFalse (by simp)
  | .tuple _, .map _ => isFalse (by simp)
  | .map _, .scalar _ => isFalse (by simp)
  | .map _, .list _ => isFalse (by simp)
  | .map _, .tuple _ => isFalse (by simp)

/-- Lists of values can be told apart. -/
def Value.decEqList : (vs ws : List Value) → Decidable (vs = ws)
  | [], [] => isTrue rfl
  | [], _ :: _ => isFalse (by simp)
  | _ :: _, [] => isFalse (by simp)
  | v :: vs, w :: ws =>
    match Value.decEq v w, Value.decEqList vs ws with
    | isTrue h, isTrue h' => isTrue (h ▸ h' ▸ rfl)
    | isFalse h, _ => isFalse (by simp [h])
    | _, isFalse h => isFalse (by simp [h])

/-- Entries of mappings can be told apart. -/
def Value.decEqEntries : (es fs : Mapping) → Decidable (es = fs)
  | [], [] => isTrue rfl
  | [], _ :: _ => isFalse (by simp)
  | _ :: _, [] => isFalse (by simp)
  | (k, v) :: es, (l, w) :: fs =>
    match Key.decEq k l, Value.decEq v w, Value.decEqEntries es fs with
    | isTrue h, isTrue h', isTrue h'' => isTrue (h ▸ h' ▸ h'' ▸ rfl)
    | isFalse h, _, _ => isFalse (by simp [h])
    | _, isFalse h, _ => isFalse (by simp [h])
    | _, _, isFalse h => isFalse (by simp [h])

end

instance : DecidableEq Value := Value.decEq

/-! ## Induction -/

/-- To show a property of all values it is enough to show it of the scalars and to pass
    from the parts of a list, a tuple or a mapping to the whole. -/
theorem Value.rec_on_parts {P : Value → Prop} (scalar : ∀ s, P (.scalar s))
    (list : ∀ vs, (∀ v ∈ vs, P v) → P (.list vs)) (tuple : ∀ vs, (∀ v ∈ vs, P v) → P (.tuple vs))
    (map : ∀ es, (∀ e ∈ es, P e.2) → P (.map es)) (v : Value) : P v :=
  -- The parts of a list are the list itself as data, so its property is that of
  -- all its items, and likewise for entries.
  @Value.rec P (fun vs => ∀ v ∈ vs, P v) (fun es => ∀ e ∈ es, P e.2) (fun e => P e.2)
    scalar list tuple map (by simp) (fun _ _ h hs => by simpa using ⟨h, hs⟩)
    (by simp) (fun _ _ h hs => by simpa using ⟨h, fun k w hm => hs (k, w) hm⟩)
    (fun _ _ h => h) v

/-! ## Keys -/

/-- A scalar in the form in which equal numbers are one: truth values and whole numbers in
    double precision as integers. -/
def Scalar.canonical : Scalar → Scalar
  | .bool b => .int b.toNat
  | .float x =>
    match x.whole? with
    | some i => .int i
    | none => .float x
  | s => s

/-- A key with all its scalars in canonical form. -/
def Key.canonical : Key → Key
  | .scalar s => .scalar s.canonical
  | .tuple ks => .tuple (canonicalList ks)
where
  /-- The keys of a list in canonical form. -/
  canonicalList : List Key → List Key
    | [] => []
    | k :: ks => k.canonical :: canonicalList ks

/-- Whether two keys name the same entry of a mapping. -/
def Key.same (k l : Key) : Bool := k.canonical = l.canonical

@[simp]
theorem Key.same_self (k : Key) : k.same k := by simp [Key.same]

theorem Key.same_comm (k l : Key) : k.same l = l.same k := by simp [Key.same, eq_comm]

/-- Keys that name the same entry as a third one name the same entry. -/
theorem Key.same_trans {k l m : Key} (h : k.same l) (h' : l.same m) : k.same m := by
  simp only [Key.same, decide_eq_true_eq] at *
  exact h.trans h'

/-- Texts name the same entry if they are the same. -/
@[simp]
theorem Key.same_str (s t : String) : (Key.str s).same (.str t) = decide (s = t) := by
  simp [Key.same, Key.canonical, Scalar.canonical]

/-- The value that a key is. -/
def Key.toValue : Key → Value
  | .scalar s => .scalar s
  | .tuple ks => .tuple (toValues ks)
where
  /-- The values that the keys of a list are. -/
  toValues : List Key → List Value
    | [] => []
    | k :: ks => k.toValue :: toValues ks

/-- The key that a value is, if it holds no list and no mapping. -/
def Value.toKey? : Value → Option Key
  | .scalar s => some (.scalar s)
  | .tuple vs => (toKeys? vs).map .tuple
  | .list _ => none
  | .map _ => none
where
  /-- The keys that the values of a list are, if all of them are keys. -/
  toKeys? : List Value → Option (List Key)
    | [] => some []
    | v :: vs => v.toKey?.bind fun k => (toKeys? vs).map (k :: ·)

/-! ## Kinds and truth -/

/-- The word for the kind of a value. -/
def Value.kindWord : Value → String
  | .null => "NoneType"
  | .bool _ => "bool"
  | .int _ => "int"
  | .float _ => "float"
  | .str _ => "str"
  | .ragged _ => "str"
  | .scalar (.date _ none) => "date"
  | .scalar (.date _ (some _)) => "datetime"
  | .list _ => "list"
  | .tuple _ => "tuple"
  | .map _ => "dict"

/-- Whether a value counts as true: it is not null, false, zero or empty. -/
def Value.truth : Value → Bool
  | .null => false
  | .bool b => b
  | .int i => i != 0
  | .float x => !x.isZero
  | .str s => s != ""
  | .ragged _ => true
  | .scalar (.date _ _) => true
  | .list vs => !vs.isEmpty
  | .tuple vs => !vs.isEmpty
  | .map es => !es.isEmpty

/-- The entries of a value that is a mapping. -/
def Value.entries? : Value → Option Mapping
  | .map es => some es
  | _ => none

/-- The text of a value that is one. -/
def Value.str? : Value → Option String
  | .str s => some s
  | _ => none

/-- The text of a value that is one, as it can be shown. -/
def Value.shown? : Value → Option String
  | .str s => some s
  | .ragged t => some t.shown
  | _ => none

@[simp]
theorem Value.shown?_str (s : String) : (Value.str s).shown? = some s := rfl

theorem Value.shown?_ofText (t : CodeText) : (Value.ofText t).shown? = some t.shown := by
  cases t <;> rfl

end Stencil

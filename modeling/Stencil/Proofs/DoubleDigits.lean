import Mathlib.Data.List.DropRight
import Mathlib.Tactic.Linarith
import Mathlib.Tactic.Ring
import Stencil.Number.Shortest
import Stencil.Proofs.JsonRoundTrip

/-!
# The digits of numbers in double precision

The significand of a number in double precision has 53 bits at most, and all that is computed keeps to
that. On the grid of seventeen digits the point that is nearest to such a number is read back as the
number: it is closer than half a unit of the grid, and a unit there is less than a unit of the
significand, as `2 ^ 53 < 10 ^ 16`. So the search for the shortest numeral finds one.

* `Double.IsProper`, `Double.isProper_ofRatio`: the significand has 53 bits at most;
* `Double.exists_onGrid?_seventeen`: there is a hit among the points with seventeen digits;
* `Double.isNumeral_shortest`: so there are digits, and the first one is not zero.
-/

namespace Stencil

namespace Double

/-! ## The bits of the significand -/

/-- A finite number with a significand of 53 bits at most, or a number that is not finite. -/
def IsProper : Double → Prop
  | .finite _ m _ => m < twoPow 53
  | _ => True

theorem twoPow_eq (n : Nat) : twoPow n = 2 ^ n := rfl

theorem tenPow_eq (n : Nat) : tenPow n = 10 ^ n := rfl

variable {x y : Double} {num den k : Nat} {e e' : Int}

theorem isProper_zero (negative : Bool) : (zero negative).IsProper := by
  change 0 < twoPow 53
  decide

theorem IsProper.neg (h : x.IsProper) : x.neg.IsProper := by
  cases x with
  | finite n m e => exact h
  | _ => trivial

/-- The quotient is below `k` if the ratio is below `k` units. -/
theorem scaleDiv_fst_lt_iff (hden : 0 < den) : (scaleDiv num den e).1 < k ↔
    num * 2 ^ (-e).toNat < k * (den * 2 ^ e.toNat) :=
  Nat.div_lt_iff_lt_mul (Nat.mul_pos hden (Nat.two_pow_pos _))

/-- In units that are larger a number counts less. -/
theorem scaleDiv_fst_lt_of_le (hden : 0 < den) (he : e ≤ e') (h : (scaleDiv num den e).1 < k) :
    (scaleDiv num den e').1 < k := by
  rw [scaleDiv_fst_lt_iff hden] at h ⊢
  calc num * 2 ^ (-e').toNat ≤ num * 2 ^ (-e).toNat :=
        Nat.mul_le_mul_left _ (Nat.pow_le_pow_right (by decide) (by omega))
    _ < k * (den * 2 ^ e.toNat) := h
    _ ≤ k * (den * 2 ^ e'.toNat) :=
        Nat.mul_le_mul_left _ (Nat.mul_le_mul_left _ (Nat.pow_le_pow_right (by decide) (by omega)))

/-- In units of half the size it counts twice as much. -/
theorem scaleDiv_fst_sub_one_lt (hden : 0 < den) (h : (scaleDiv num den e).1 < k) :
    (scaleDiv num den (e - 1)).1 < 2 * k := by
  rw [scaleDiv_fst_lt_iff hden] at h ⊢
  -- Half the unit is half the denominator if the unit is above one, and twice the numerator if not.
  rcases Int.lt_or_le 0 e with he | he
  · rw [show (-(e - 1)).toNat = 0 by omega]
    rw [show (-e).toNat = 0 by omega, show e.toNat = (e - 1).toNat + 1 by omega, Nat.pow_succ] at h
    calc num * 2 ^ 0 < k * (den * (2 ^ (e - 1).toNat * 2)) := h
      _ = 2 * k * (den * 2 ^ (e - 1).toNat) := by ring
  · rw [show (-(e - 1)).toNat = (-e).toNat + 1 by omega, show (e - 1).toNat = 0 by omega, Nat.pow_succ]
    rw [show e.toNat = 0 by omega] at h
    calc num * (2 ^ (-e).toNat * 2) = 2 * (num * 2 ^ (-e).toNat) := by ring
      _ < 2 * (k * (den * 2 ^ 0)) := Nat.mul_lt_mul_of_pos_left h (by decide)
      _ = 2 * k * (den * 2 ^ 0) := by ring

/-- The logarithms leave 53 bits at most. -/
theorem scaleDiv_fst_log_lt (hden : 0 < den) :
    (scaleDiv num den ((Nat.log2 num : Int) - Nat.log2 den - 52)).1 < 2 ^ 53 := by
  rw [scaleDiv_fst_lt_iff hden]
  generalize he : (Nat.log2 num : Int) - Nat.log2 den - 52 = e
  have hnum : num < 2 ^ (Nat.log2 num + 1) := Nat.lt_log2_self
  have hpow : 2 ^ (Nat.log2 num + 1) * 2 ^ (-e).toNat = 2 ^ 53 * (2 ^ Nat.log2 den * 2 ^ e.toNat) := by
    rw [← Nat.pow_add, ← Nat.pow_add, ← Nat.pow_add]
    congr 1
    omega
  calc num * 2 ^ (-e).toNat < 2 ^ (Nat.log2 num + 1) * 2 ^ (-e).toNat :=
        Nat.mul_lt_mul_of_pos_right hnum (Nat.two_pow_pos _)
    _ = 2 ^ 53 * (2 ^ Nat.log2 den * 2 ^ e.toNat) := hpow
    _ ≤ 2 ^ 53 * (den * 2 ^ e.toNat) := Nat.mul_le_mul_left _
        (Nat.mul_le_mul_right _ (Nat.log2_self_le (Nat.ne_of_gt hden)))

theorem scaleDiv_exponentFor_lt (num den : Nat) :
    (scaleDiv num den (exponentFor num den)).1 < 2 ^ 53 := by
  rcases Nat.eq_zero_or_pos den with rfl | hden
  · have hzero (n e) : (scaleDiv n 0 e).1 = 0 := by rw [scaleDiv, Nat.zero_mul, Nat.div_zero]
    rw [hzero]
    decide
  · rw [exponentFor]
    -- The logarithms leave 53 bits at most, and where they leave fewer there is room for one more.
    refine scaleDiv_fst_lt_of_le hden (Int.le_max_right _ _) ?_
    split
    · next h => exact scaleDiv_fst_sub_one_lt hden h
    · exact scaleDiv_fst_log_lt hden

/-- Rounding goes up by one at most. -/
theorem roundQuotient_le (q r d : Nat) : roundQuotient q r d ≤ q + 1 := by
  unfold roundQuotient
  split
  · omega
  split
  · omega
  · omega

/-- The number nearest to a ratio has 53 bits at most. -/
theorem isProper_ofRatio (negative : Bool) (num den : Nat) : (ofRatio negative num den).IsProper := by
  rw [ofRatio]
  split
  · exact isProper_zero negative
  have hround := (roundQuotient_le (scaleDiv num den (exponentFor num den)).1
    (scaleDiv num den (exponentFor num den)).2.1 (scaleDiv num den (exponentFor num den)).2.2).trans
      (scaleDiv_exponentFor_lt num den)
  dsimp only
  generalize roundQuotient _ _ _ = m at hround ⊢
  -- Rounding up may lead to the next power of two, which has one bit in larger units.
  by_cases hm : m = twoPow 53
  · rw [if_pos hm]
    dsimp only
    split
    · trivial
    · exact (by decide : twoPow 52 < twoPow 53)
  · rw [if_neg hm]
    dsimp only
    split
    · trivial
    · exact Nat.lt_of_le_of_ne hround hm

/-- So has the number nearest to a decimal. -/
theorem isProper_ofDecimal (negative : Bool) (digits : Nat) (exponent : Int) :
    (ofDecimal negative digits exponent).IsProper := by
  unfold ofDecimal
  split
  · exact isProper_zero negative
  dsimp only
  split
  · trivial
  split
  · exact isProper_zero negative
  · exact isProper_ofRatio _ _ _

/-- A sum is rounded, -/
theorem IsProper.add (hx : x.IsProper) (hy : y.IsProper) : (x.add y).IsProper := by
  unfold Double.add
  split
  · exact isProper_ofRatio _ _ _
  · exact hx
  · exact hy

/-- and so is a multiple. -/
theorem IsProper.scale (hx : x.IsProper) (n : Nat) : (x.scale n).IsProper := by
  unfold Double.scale
  split
  · exact isProper_ofRatio _ _ _
  · exact hx

end Double

open Double

/-- What is read as a number in double precision. -/
theorem Numeral.isProper_of_double? {cs : List Char} {x : Double} (h : double? cs = some x) :
    x.IsProper := by
  unfold double? at h
  dsimp only at h
  split at h
  · cases h
    trivial
  split at h
  · cases h
    trivial
  · obtain ⟨n, -, h⟩ := Option.bind_eq_some_iff.1 h
    obtain ⟨e, -, rfl⟩ := Option.map_eq_some_iff.1 h
    exact isProper_ofDecimal _ _ _

/-- A scalar that is no number in double precision, or one with 53 bits at most. -/
def Scalar.IsProper : Scalar → Prop
  | .float x => x.IsProper
  | _ => True

/-- A scalar that is no integer of too many digits. -/
def Scalar.IsShort : Scalar → Prop
  | .int i => i.natAbs < 10 ^ Numeral.maxDigits
  | _ => True

theorem Scalar.isShort_iff {s : Scalar} :
    s.IsShort ↔ ∀ i, s = .int i → i.natAbs < 10 ^ Numeral.maxDigits := by
  cases s <;> simp [IsShort]

theorem Scalar.isProper_ofText (t : CodeText) : (ofText t).IsProper := by
  cases t <;> trivial

theorem Scalar.isShort_ofText (t : CodeText) : (ofText t).IsShort := by
  cases t <;> trivial

namespace Double

variable {num den k : Nat} {e : Int}

/-! ## The grid of seventeen digits -/

/-- A number is at least the power of ten with as many digits, -/
theorem pow_countDigits_le {n : Nat} (h : 0 < n) : 10 ^ (countDigits n - 1) ≤ n := by
  by_contra hlt
  rcases Nat.eq_zero_or_pos (countDigits n - 1) with hzero | hpos
  · rw [hzero] at hlt
    exact hlt h
  · have hlen := (Nat.length_toDigits_le_iff (by decide) hpos).2 (Nat.not_le.1 hlt)
    rw [countDigits] at hpos hlen
    omega

/-- and below the next one. -/
theorem lt_pow_countDigits (n : Nat) : n < 10 ^ countDigits n :=
  (Nat.length_toDigits_le_iff (by decide) (List.length_pos_iff.2 Nat.toDigits_ne_nil)).1 (Nat.le_refl _)

/-- A ratio is at least a tenth of the power of ten that it is below. -/
theorem pointPlace_le (hnum : 0 < num) (den : Nat) :
    den * 10 ^ (pointPlace num den - 1).toNat ≤ num * 10 ^ (1 - pointPlace num den).toNat := by
  generalize hplace : pointPlace num den = place
  rw [pointPlace] at hplace
  dsimp only at hplace
  split at hplace
  · -- The numbers of digits tell that the ratio is not that small.
    have hpow : 10 ^ countDigits den * 10 ^ (place - 1).toNat =
        10 ^ (countDigits num - 1) * 10 ^ (1 - place).toNat := by
      have hpos : 0 < countDigits num := List.length_pos_iff.2 Nat.toDigits_ne_nil
      rw [← Nat.pow_add, ← Nat.pow_add]
      congr 1
      omega
    calc den * 10 ^ (place - 1).toNat ≤ 10 ^ countDigits den * 10 ^ (place - 1).toNat :=
          Nat.mul_le_mul_right _ (lt_pow_countDigits den).le
      _ = 10 ^ (countDigits num - 1) * 10 ^ (1 - place).toNat := hpow
      _ ≤ num * 10 ^ (1 - place).toNat := Nat.mul_le_mul_right _ (pow_countDigits_le hnum)
  · next hless =>
    rw [decide_eq_true_eq, Nat.not_lt] at hless
    rw [show place - 1 = countDigits num - countDigits den by omega,
      show 1 - place = -(countDigits num - countDigits den : Int) by omega]
    exact hless

/-- On the grid of seventeen digits a number is at `10 ^ 16` or beyond. -/
theorem le_of_pointPlace {place : Int}
    (h : den * 10 ^ (place - 1).toNat ≤ num * 10 ^ (1 - place).toNat) :
    10 ^ 16 * (den * 10 ^ (place - 17).toNat) ≤ num * 10 ^ (17 - place).toNat := by
  have hpow : 10 ^ (place - 1).toNat * 10 ^ (17 - place).toNat =
      10 ^ 16 * 10 ^ (place - 17).toNat * 10 ^ (1 - place).toNat := by
    rw [← Nat.pow_add, ← Nat.pow_add, ← Nat.pow_add]
    congr 1
    omega
  refine Nat.le_of_mul_le_mul_right ?_ (Nat.pow_pos (n := (1 - place).toNat) (by decide : 0 < 10))
  calc 10 ^ 16 * (den * 10 ^ (place - 17).toNat) * 10 ^ (1 - place).toNat
      = den * (10 ^ 16 * 10 ^ (place - 17).toNat * 10 ^ (1 - place).toNat) := by ring
    _ = den * 10 ^ (place - 1).toNat * 10 ^ (17 - place).toNat := by rw [← hpow]; ring
    _ ≤ num * 10 ^ (1 - place).toNat * 10 ^ (17 - place).toNat := Nat.mul_le_mul_right _ h
    _ = num * 10 ^ (17 - place).toNat * 10 ^ (1 - place).toNat := by ring

/-- A rounded quotient is off by half a unit at most. -/
theorem two_mul_roundQuotient (hden : 0 < den) (num : Nat) :
    let d := roundQuotient (num / den) (num % den) den
    2 * num ≤ 2 * (d * den) + den ∧ 2 * (d * den) ≤ 2 * num + den := by
  intro d
  have hdiv := Nat.div_add_mod num den
  have hlt := Nat.mod_lt num hden
  rw [Nat.mul_comm] at hdiv
  have hd : d = roundQuotient (num / den) (num % den) den := rfl
  generalize num / den = q at hdiv hd
  generalize num % den = r at hdiv hlt hd
  rw [roundQuotient] at hd
  split at hd
  · subst hd; constructor <;> linarith
  split at hd
  · rw [hd, Nat.add_mul]; constructor <;> linarith
  · rcases Nat.mod_two_eq_zero_or_one q with hq | hq
    · rw [hd, hq]; constructor <;> linarith
    · rw [hd, hq, Nat.add_mul]; constructor <;> linarith

/-- A numeral is read as a number that it is close to: by less than a quarter of a unit of the
    significand, or by less than half a unit, if the number is no power of two. -/
theorem readsAs_of_close {m : Nat} (hm : 0 < m)
    (hlow : 4 * m * (den * 2 ^ e.toNat) <
      4 * num * 2 ^ (-e).toNat + (if m = 2 ^ 52 then 1 else 2) * (den * 2 ^ e.toNat))
    (hhigh : 4 * num * 2 ^ (-e).toNat < (4 * m + 2) * (den * 2 ^ e.toNat)) :
    readsAs m e num den = true := by
  change (if m % 2 = 0 then
      (4 * m - if m = 2 ^ 52 ∧ leastExponent < e then 1 else 2) * (den * 2 ^ e.toNat) ≤
        4 * num * 2 ^ (-e).toNat && 4 * num * 2 ^ (-e).toNat ≤ (4 * m + 2) * (den * 2 ^ e.toNat)
    else
      (4 * m - if m = 2 ^ 52 ∧ leastExponent < e then 1 else 2) * (den * 2 ^ e.toNat) <
        4 * num * 2 ^ (-e).toNat &&
      4 * num * 2 ^ (-e).toNat < (4 * m + 2) * (den * 2 ^ e.toNat) : Bool) = true
  generalize den * 2 ^ e.toNat = unit at hlow hhigh ⊢
  generalize 4 * num * 2 ^ (-e).toNat = v at hlow hhigh ⊢
  have hlow' : (4 * m - if m = 2 ^ 52 ∧ leastExponent < e then 1 else 2) * unit < v := by
    have hle : 2 * unit ≤ 4 * m * unit := Nat.mul_le_mul_right _ (by omega)
    rw [Nat.sub_mul]
    split
    · next h =>
      rw [if_pos h.1] at hlow
      omega
    · split at hlow <;> omega
  split
  · rw [Bool.and_eq_true, decide_eq_true_eq, decide_eq_true_eq]
    exact ⟨hlow'.le, hhigh.le⟩
  · rw [Bool.and_eq_true, decide_eq_true_eq, decide_eq_true_eq]
    exact ⟨hlow', hhigh⟩

/-- Where the units of the grid are this small, the nearest point is read back. -/
theorem readsAs_roundQuotient {m a b : Nat} (hm : 0 < m) (hm' : m < 2 ^ 53) (hb : 0 < b)
    (h : 10 ^ 16 * (2 ^ (-e).toNat * b) ≤ m * 2 ^ e.toNat * a) :
    readsAs m e (roundQuotient (m * 2 ^ e.toNat * a / (2 ^ (-e).toNat * b))
      (m * 2 ^ e.toNat * a % (2 ^ (-e).toNat * b)) (2 ^ (-e).toNat * b) * b) a = true := by
  have hden : 0 < 2 ^ (-e).toNat * b := Nat.mul_pos (Nat.two_pow_pos _) hb
  have hnum : m * 2 ^ e.toNat * a = m * (a * 2 ^ e.toNat) := by ring
  -- The nearest point of the grid is off by half of its step at most.
  obtain ⟨hlow, hhigh⟩ := two_mul_roundQuotient hden (m * 2 ^ e.toNat * a)
  have hpoint (d : Nat) : 4 * (d * b) * 2 ^ (-e).toNat = 4 * (d * (2 ^ (-e).toNat * b)) := by ring
  have hpoint' (d : Nat) : 4 * (d * (2 ^ (-e).toNat * b)) = 2 * (2 * (d * (2 ^ (-e).toNat * b))) := by
    ring
  refine readsAs_of_close hm ?_ ?_
  · rw [hpoint, hpoint']
    generalize roundQuotient _ _ _ * (2 ^ (-e).toNat * b) = point at hlow ⊢
    rw [hnum] at h hlow
    generalize 2 ^ (-e).toNat * b = den at *
    generalize a * 2 ^ e.toNat = unit at *
    split
    · next hpow =>
      subst hpow
      omega
    · -- The number has 10 ^ 16 steps of the grid or more, and less than 2 ^ 53 units, so a step is
      -- shorter than a unit.
      have hlt : den < unit := by
        by_contra hle
        have := Nat.mul_le_mul hm'.le (Nat.not_lt.1 hle)
        omega
      nlinarith
  · rw [hpoint, hpoint']
    generalize roundQuotient _ _ _ * (2 ^ (-e).toNat * b) = point at hhigh ⊢
    rw [hnum] at h hhigh
    generalize 2 ^ (-e).toNat * b = den at *
    generalize a * 2 ^ e.toNat = unit at *
    have hlt : den < unit := by
        by_contra hle
        have := Nat.mul_le_mul hm'.le (Nat.not_lt.1 hle)
        omega
    nlinarith

/-- A grid with steps that are small enough has a point that is read back. -/
theorem exists_onGrid?_of_le {m : Nat} {place : Int} (hm : 0 < m) (hm' : m < 2 ^ 53)
    (h : 10 ^ 16 * (2 ^ (-e).toNat * 10 ^ (place - 17).toNat) ≤
      m * 2 ^ e.toNat * 10 ^ (17 - place).toNat) : ∃ d, onGrid? m e place 17 = some d := by
  have hreads := readsAs_roundQuotient hm hm' (Nat.pow_pos (by decide)) h
  simp only [onGrid?, twoPow_eq, tenPow_eq]
  rw [show (-((17 : Nat) - place)).toNat = (place - 17).toNat by omega]
  exact ⟨_, if_pos hreads⟩

/-- One of the points with seventeen digits is read back. -/
theorem exists_onGrid?_seventeen {m : Nat} (hm : 0 < m) (hm' : m < 2 ^ 53) (e : Int) :
    ∃ d, onGrid? m e (pointPlace (m * twoPow e.toNat) (twoPow (-e).toNat)) 17 = some d :=
  exists_onGrid?_of_le hm hm'
    (le_of_pointPlace (pointPlace_le (Nat.mul_pos hm (Nat.two_pow_pos e.toNat)) (2 ^ (-e).toNat)))

/-- Zero is not read as any other number. -/
theorem readsAs_zero {m : Nat} (hm : 0 < m) (hden : 0 < den) : readsAs m e 0 den = false := by
  have hunit : 0 < den * twoPow e.toNat := Nat.mul_pos hden (Nat.two_pow_pos _)
  have hlow : 0 < (4 * m - if m = twoPow 52 ∧ leastExponent < e then 1 else 2) *
      (den * twoPow e.toNat) := by
    refine Nat.mul_pos ?_ hunit
    split <;> omega
  simp only [readsAs, Nat.mul_zero, Nat.zero_mul]
  split
  · rw [decide_eq_false (Nat.not_le.2 hlow), Bool.false_and]
  · rw [decide_eq_false (Nat.not_lt_zero _), Bool.false_and]

/-- A hit is read back, and so it is not zero. -/
theorem ne_zero_of_onGrid? {m n d : Nat} {place : Int} (hm : 0 < m)
    (h : onGrid? m e place n = some d) : d ≠ 0 := by
  have hone {p : Nat → Bool} {a b : Nat} (h : (if p a then some a else if p b then some b else none) =
      some d) : p d := by
    grind
  have hreads := hone (p := fun d => readsAs m e (d * tenPow (-((n : Int) - place)).toNat)
    (tenPow ((n : Int) - place).toNat)) h
  rintro rfl
  rw [Nat.zero_mul, readsAs_zero hm (tenPow_eq _ ▸ Nat.pow_pos (by decide))] at hreads
  exact Bool.false_ne_true hreads

/-- If there is a hit on the last grid, the first hit is one. -/
theorem onGrid?_firstHit {m n d fuel : Nat} {place : Int} (h : onGrid? m e place (n + fuel) = some d) :
    onGrid? m e place (firstHit m e place fuel n).1 = some (firstHit m e place fuel n).2 := by
  induction fuel generalizing n with
  | zero =>
    rw [Nat.add_zero] at h
    rw [firstHit, h, Option.getD_some]
  | succ fuel ih =>
    rw [firstHit]
    cases hn : onGrid? m e place n with
    | some d => exact hn
    | none => exact ih (by rwa [Nat.add_assoc, Nat.add_comm 1])

/-! ## Digits -/

/-- A numeral of digits that does not start with a zero. -/
structure IsNumeral (ds : List Char) : Prop where
  ne_nil : ds ≠ []
  isDigit : ∀ c ∈ ds, c.isDigit
  head : ∀ r, ds ≠ '0' :: r

/-- The digits of a number other than zero. -/
theorem isNumeral_natText {n : Nat} (h : n ≠ 0) : IsNumeral (Numeral.natText n) where
  ne_nil := Nat.toDigits_ne_nil
  isDigit _ hc := Numeral.isDigit_of_mem_natText hc
  head r hr := by
    have hread := Numeral.digits?_natText n
    rw [hr, Numeral.natText_eq_zero_cons hr] at hread
    exact h (Option.some.inj (hread.symm.trans (by decide : Numeral.digits? ['0'] = some 0)))

/-- The zeros at the end may go: there is another digit in front. -/
theorem IsNumeral.withoutZeros {ds : List Char} (h : IsNumeral ds) :
    IsNumeral (shortest.withoutZeros ds) := by
  have hfront : shortest.withoutZeros ds <+: ds := List.rdropWhile_prefix _ ds
  refine ⟨fun hnil => ?_, fun c hc => h.isDigit c (hfront.subset hc), fun r hr => ?_⟩
  · have hall := List.rdropWhile_eq_nil_iff.1 hnil
    cases hds : ds with
    | nil => exact h.ne_nil hds
    | cons c r =>
      obtain rfl : c = '0' := beq_iff_eq.1 (hall c (hds ▸ List.mem_cons_self))
      exact h.head r hds
  · obtain ⟨r', hr'⟩ := hfront
    rw [hr] at hr'
    exact h.head _ hr'.symm

/-- The digits of the shortest numeral of a proper number that is not zero. -/
theorem isNumeral_shortest {m : Nat} (hpos : 0 < m) (hm : m < twoPow 53) (e : Int) :
    IsNumeral (shortest m e).1 := by
  obtain ⟨d, hd⟩ := exists_onGrid?_seventeen hpos hm e
  have hgrid : onGrid? m e _ (1 + 16) = some d := hd
  -- The search ends at a hit, as there is one with seventeen digits.
  have hhit := ne_zero_of_onGrid? hpos (onGrid?_firstHit hgrid)
  rw [shortest, if_neg (Nat.ne_of_gt hpos)]
  exact (isNumeral_natText hhit).withoutZeros

theorem shortest_zero (e : Int) : shortest 0 e = (['0'], 1) := rfl

end Double

end Stencil

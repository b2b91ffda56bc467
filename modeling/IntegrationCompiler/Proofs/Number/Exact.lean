import IntegrationCompiler.Number.Basic
import Mathlib.Algebra.Order.Ring.Cast
import Mathlib.Algebra.Order.Field.Power
import Mathlib.Algebra.Order.Ring.Rat
import Mathlib.Data.Rat.Cast.Order
import Mathlib.Data.Rat.Floor
import Mathlib.Order.WithBot

/-!
# Exact values of numbers

What numbers stand for: a fraction or an infinity, and nothing for a NaN. Integers and doubles are
compared by these values and by nothing else, so equality by value is an equivalence even where the
two kinds are mixed.

* `Number.value?` — the value of a number;
* `Binary64.cmpDyadic_eq` — dyadic fractions are compared as fractions;
* `Binary64.truncate?_of_pos` — the integer part of a positive number is its floor;
* `Number.cmp_eq`, `Number.cmp_eq_some_iff` — numbers are compared as values are;
* `Number.same_iff`, `Number.atMostZero_iff` — the two tests that are made of it.
-/

namespace IntegrationCompiler

/-- Fractions, with an infinity at either end. -/
abbrev ExactValue := WithBot (WithTop ℚ)

namespace ExactValue

/-- A fraction as a value. -/
def ofRat (r : ℚ) : ExactValue := ((r : WithTop ℚ) : ExactValue)

theorem ofRat_strictMono : StrictMono ofRat :=
  WithBot.coe_strictMono.comp WithTop.coe_strictMono

theorem compare_ofRat (r s : ℚ) : compare (ofRat r) (ofRat s) = compare r s := by
  rw [← cmp_eq_compare, ← cmp_eq_compare, ofRat_strictMono.cmp_map_eq]

theorem bot_lt_ofRat (r : ℚ) : (⊥ : ExactValue) < ofRat r :=
  WithBot.bot_lt_coe _

theorem ofRat_lt_top (r : ℚ) : ofRat r < ⊤ :=
  WithBot.coe_lt_coe.mpr (WithTop.coe_lt_top r)

end ExactValue

/-! ## Doubles -/

namespace Binary64

/-- The exact value of a double; a NaN has none. -/
def value? : Binary64 → Option ExactValue
  | .nan => none
  | .infinite negative => some (if negative then ⊥ else ⊤)
  | .finite negative m q => some (.ofRat (signed negative m * 2 ^ q))

/-- Moving to a smaller unit and back. -/
theorem shift_mul_unit {p least : Int} (h : least ≤ p) :
    (((1 <<< (p - least).toNat : Nat) : Int) : ℚ) * 2 ^ least = 2 ^ p := by
  rw [Nat.one_shiftLeft, Nat.cast_pow, Int.cast_pow, ← zpow_natCast,
    Int.toNat_of_nonneg (by omega), Nat.cast_ofNat, Int.cast_ofNat, ← zpow_add₀ two_ne_zero,
    sub_add_cancel]

/-- Dyadic fractions are compared as fractions, in whatever units they are given. -/
theorem cmpDyadic_eq (a p b q : Int) :
    cmpDyadic a p b q = compare ((a : ℚ) * 2 ^ p) ((b : ℚ) * 2 ^ q) := by
  unfold cmpDyadic
  dsimp only
  generalize hLeast : (if p ≤ q then p else q) = least
  have hp : least ≤ p := by split at hLeast <;> omega
  have hq : least ≤ q := by split at hLeast <;> omega
  -- in the smaller of the two units both are integers
  have hUnit : (0 : ℚ) < 2 ^ least := zpow_pos two_pos least
  rw [← shift_mul_unit hp, ← shift_mul_unit hq, ← mul_assoc, ← mul_assoc, ← Int.cast_mul,
    ← Int.cast_mul, ← cmp_eq_compare, ← cmp_eq_compare, cmp_mul_pos_right hUnit]
  exact (Int.cast_strictMono.cmp_map_eq _ _).symm

/-- Doubles are compared by their values. -/
theorem cmp_eq {x y : Binary64} {v w : ExactValue} (hx : x.value? = some v)
    (hy : y.value? = some w) : x.cmp y = some (compare v w) := by
  cases x with
  | nan => cases hx
  | infinite a =>
    cases hx
    cases y with
    | nan => cases hy
    | infinite b =>
      cases hy
      cases a <;> cases b <;> decide
    | finite b n q =>
      cases hy
      cases a with
      | false => exact congrArg some (compare_gt_iff_gt.mpr (ExactValue.ofRat_lt_top _)).symm
      | true => exact congrArg some (compare_lt_iff_lt.mpr (ExactValue.bot_lt_ofRat _)).symm
  | finite a m p =>
    cases hx
    cases y with
    | nan => cases hy
    | infinite b =>
      cases hy
      cases b with
      | false => exact congrArg some (compare_lt_iff_lt.mpr (ExactValue.ofRat_lt_top _)).symm
      | true => exact congrArg some (compare_gt_iff_gt.mpr (ExactValue.bot_lt_ofRat _)).symm
    | finite b n q =>
      cases hy
      rw [ExactValue.compare_ofRat, ← cmpDyadic_eq]
      rfl

/-- An integer as a double without rounding. -/
theorem value?_integer (n : Int) :
    (finite (n < 0) n.natAbs 0).value? = some (.ofRat n) := by
  have hSigned : signed (n < 0) n.natAbs = n := by
    unfold signed
    split <;> grind
  rw [value?, hSigned, zpow_zero, mul_one]

/-- The whole part of a mantissa in a unit. -/
theorem floor_mul_unit (m : Nat) (q : Int) :
    ⌊((m : Int) : ℚ) * 2 ^ q⌋ = (if 0 ≤ q then m <<< q.toNat else m >>> (-q).toNat : Nat) := by
  split
  · next hWhole =>
    rw [Nat.shiftLeft_eq, ← Int.toNat_of_nonneg hWhole, zpow_natCast, Int.toNat_natCast,
      Int.cast_natCast, ← Nat.cast_ofNat (R := ℚ), ← Nat.cast_pow, ← Nat.cast_mul,
      Int.floor_natCast]
  · next hPart =>
    have hUnit : (2 : ℚ) ^ q = ((2 ^ (-q).toNat : Nat) : ℚ)⁻¹ := by
      rw [Nat.cast_pow, Nat.cast_ofNat, ← zpow_natCast, ← zpow_neg, Int.toNat_of_nonneg (by omega),
        neg_neg]
    rw [Nat.shiftRight_eq_div_pow, hUnit, ← div_eq_mul_inv, Int.cast_natCast,
      Rat.floor_natCast_div_natCast, Int.natCast_ediv]

/-- The integer part of a positive double. -/
theorem truncate?_of_pos {x : Binary64} {r : ℚ} (hValue : x.value? = some (.ofRat r))
    (hPos : 0 < r) : x.truncate? = some ⌊r⌋ := by
  cases x with
  | nan => cases hValue
  | infinite negative => cases negative <;> cases hValue
  | finite negative m q =>
    have hr : signed negative m * 2 ^ q = r :=
      ExactValue.ofRat_strictMono.injective (Option.some.inj hValue)
    cases negative with
    | false =>
      rw [truncate?, ← hr]
      exact congrArg some (floor_mul_unit m q).symm
    | true =>
      -- what bears a sign is not positive
      have hUnit : (0 : ℚ) < 2 ^ q := zpow_pos two_pos q
      have hMantissa := (pos_iff_pos_of_mul_pos (hr ▸ hPos)).mpr hUnit
      rw [Int.cast_pos, signed, if_pos rfl] at hMantissa
      omega

end Binary64

/-! ## Integers and doubles -/

namespace Number

/-- The exact value of a number; a NaN has none. -/
def value? : Number → Option ExactValue
  | .int n => some (.ofRat n)
  | .float x => x.value?

theorem value?_eq_none_iff {a : Number} : a.value? = none ↔ a = .float .nan := by
  constructor
  · intro h
    cases a with
    | int n => cases h
    | float x =>
      cases x with
      | nan => rfl
      | _ => cases h
  · rintro rfl
    rfl

/-- **Numbers are compared by their values**, whether they are integers or doubles. -/
theorem cmp_eq {a b : Number} {v w : ExactValue} (ha : a.value? = some v)
    (hb : b.value? = some w) : a.cmp b = some (compare v w) := by
  cases a with
  | int m =>
    have hDouble := (Binary64.value?_integer m).trans ha
    cases b with
    | int n =>
      cases ha
      cases hb
      rw [ExactValue.compare_ofRat, cmp, ← cmp_eq_compare, ← cmp_eq_compare,
        Int.cast_strictMono.cmp_map_eq]
    | float y =>
      have hSwap : (compare w v).swap = compare v w := by
        rw [← cmp_eq_compare, ← cmp_eq_compare, cmp_swap]
      rw [cmp, Binary64.cmpInt, Binary64.cmp_eq hb hDouble, Option.map_some, hSwap]
  | float x =>
    cases b with
    | int n => exact Binary64.cmp_eq ha ((Binary64.value?_integer n).trans hb)
    | float y => exact Binary64.cmp_eq ha hb

/-- A NaN is compared with nothing. -/
theorem cmp_nan (b : Number) : cmp (.float .nan) b = none := by
  cases b <;> rfl

theorem cmp_nan_right (a : Number) : a.cmp (.float .nan) = none := by
  cases a with
  | int n => rfl
  | float x => cases x <;> rfl

/-- Numbers that are compared have values, and these are in the same order. -/
theorem cmp_eq_some_iff {a b : Number} {order : Ordering} : a.cmp b = some order ↔
    ∃ v w, a.value? = some v ∧ b.value? = some w ∧ compare v w = order := by
  constructor
  · intro h
    cases ha : a.value? with
    | none =>
      rw [value?_eq_none_iff.mp ha, cmp_nan] at h
      cases h
    | some v =>
      cases hb : b.value? with
      | none =>
        rw [value?_eq_none_iff.mp hb, cmp_nan_right] at h
        cases h
      | some w =>
        rw [cmp_eq ha hb] at h
        exact ⟨v, w, rfl, rfl, Option.some.inj h⟩
  · rintro ⟨v, w, ha, hb, rfl⟩
    exact cmp_eq ha hb

/-- Numbers are the same exactly if they have the same value. -/
theorem same_iff {a b : Number} {w : ExactValue} (hb : b.value? = some w) :
    a.same b = true ↔ a.value? = some w := by
  rw [same, beq_iff_eq]
  cases ha : a.value? with
  | none =>
    rw [value?_eq_none_iff.mp ha, cmp_nan]
    simp
  | some v => rw [cmp_eq ha hb, Option.some_inj, compare_eq_iff_eq, Option.some_inj]

theorem atMostZero_iff {a : Number} {v : ExactValue} (ha : a.value? = some v) :
    a.atMostZero = true ↔ v ≤ 0 := by
  have hZero : (int 0).value? = some 0 := rfl
  rw [atMostZero, cmp_eq ha hZero]
  cases hOrder : compare v 0 with
  | lt => simpa using (compare_lt_iff_lt.mp hOrder).le
  | eq => simpa using (compare_eq_iff_eq.mp hOrder).le
  | gt => simpa using compare_gt_iff_gt.mp hOrder

end Number

end IntegrationCompiler

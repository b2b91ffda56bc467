/-!
# Binary floating point

IEEE double-precision numbers as exact dyadic fractions, so that comparing, printing and reading
them are questions about integers.

Main definitions:

* `Binary64` — a finite number is a sign, a mantissa and a power of two in lowest terms;
* `Binary64.ofQuotient` — the nearest double to a fraction, ties going to the even mantissa;
* `Binary64.ofDecimal` — the nearest double to a decimal;
* `Binary64.cmpInt`, `Binary64.cmp` — exact comparison.
-/

namespace IntegrationCompiler

/-- A double. The mantissa of a finite number is odd, or zero with exponent zero, so that equal
numbers of equal sign are equal terms. -/
inductive Binary64 where
  | nan
  | infinite (negative : Bool)
  | finite (negative : Bool) (mantissa : Nat) (exponent : Int)
  deriving DecidableEq, Repr, Inhabited

namespace Binary64

/-- The number of binary digits of `n`; zero has none. -/
def bitLength (n : Nat) : Nat :=
  if n = 0 then 0 else n.log2 + 1

/-- Moves factors of two from the mantissa to the exponent. -/
def reduce (m : Nat) (q : Int) : Nat × Int :=
  if h : m = 0 then (0, 0)
  else if m % 2 = 0 then reduce (m / 2) (q + 1)
  else (m, q)
termination_by m
decreasing_by omega

/-- The finite number ± m · 2^q. -/
def ofDyadic (negative : Bool) (m : Nat) (q : Int) : Binary64 :=
  let (m, q) := reduce m q
  .finite negative m q

/-- The integer nearest to `num / den`, an exact half going to the even neighbour. -/
def roundHalfEven (num den : Nat) : Nat :=
  let quotient := num / den
  let twice := 2 * (num % den)
  if den < twice || (twice == den && quotient % 2 == 1) then quotient + 1 else quotient

/-- The smallest exponent of a unit in the last place. -/
def minExponent : Int := -1074

/-- The double nearest to ± num / den. The quotient is scaled so that it has 53 binary digits,
fewer only below the normal range, rounded to an integer, and scaled back. -/
def ofQuotient (negative : Bool) (num den : Nat) : Binary64 :=
  if num = 0 then .finite negative 0 0
  else
    -- The lengths of both numbers give the length of the quotient up to one digit.
    let guess : Int := (bitLength num : Int) - bitLength den - 53
    let scaled (k : Int) : Nat × Nat :=
      if 0 ≤ k then (num, den <<< k.toNat) else (num <<< (-k).toNat, den)
    let fits (k : Int) : Bool := bitLength ((scaled k).1 / (scaled k).2) ≤ 53
    let k := if fits guess then guess else guess + 1
    -- Below the normal range the last place is fixed and the mantissa is shorter.
    let k := if k < minExponent then minExponent else k
    let m := roundHalfEven (scaled k).1 (scaled k).2
    -- Rounding may have carried into a digit more, so the length is taken anew.
    if 1024 < k + bitLength m then .infinite negative else ofDyadic negative m k

/-- The double nearest to ± digits · 10^exponent. Exponents far outside the range are answered
without computing the power. -/
def ofDecimal (negative : Bool) (digits : Nat) (exponent : Int) : Binary64 :=
  if digits = 0 then .finite negative 0 0
  else
    let magnitude : Int := (Nat.toDigits 10 digits).length + exponent
    if 400 < magnitude then .infinite negative
    else if magnitude < -400 then .finite negative 0 0
    else if 0 ≤ exponent then ofQuotient negative (digits * Nat.pow 10 exponent.toNat) 1
    else ofQuotient negative digits (Nat.pow 10 (-exponent).toNat)

/-- The double nearest to an integer. -/
def ofInt (n : Int) : Binary64 :=
  if n = 0 then .finite false 0 0 else ofQuotient (n < 0) n.natAbs 1

/-- The signed mantissa. -/
def signed (negative : Bool) (m : Nat) : Int :=
  if negative then -(m : Int) else m

/-- The exact order of `a · 2^p` and `b · 2^q`. -/
def cmpDyadic (a : Int) (p : Int) (b : Int) (q : Int) : Ordering :=
  let least := if p ≤ q then p else q
  compare (a * ((1 <<< (p - least).toNat : Nat) : Int)) (b * ((1 <<< (q - least).toNat : Nat) : Int))

/-- The exact order of two doubles; a NaN has none. -/
def cmp : Binary64 → Binary64 → Option Ordering
  | .nan, _ => none
  | _, .nan => none
  | .infinite a, .infinite b => some (compare b.toNat a.toNat)
  | .infinite a, .finite .. => some (if a then .lt else .gt)
  | .finite .., .infinite b => some (if b then .gt else .lt)
  | .finite a m p, .finite b n q => some (cmpDyadic (signed a m) p (signed b n) q)

/-- The exact order of a double and an integer. -/
def cmpInt (x : Binary64) (n : Int) : Option Ordering :=
  cmp x (.finite (n < 0) n.natAbs 0)

/-- Whether the number is zero, of either sign. -/
def isZero : Binary64 → Bool
  | .finite _ m _ => m == 0
  | _ => false

/-- The integer part, towards zero; NaN and the infinities have none. -/
def truncate? : Binary64 → Option Int
  | .finite negative m q =>
    some (signed negative (if 0 ≤ q then m <<< q.toNat else m >>> (-q).toNat))
  | _ => none

/-- The integer that the number is, when it is one. -/
def toInt? : Binary64 → Option Int
  | .finite negative m q => if 0 ≤ q then some (signed negative (m <<< q.toNat)) else none
  | _ => none

/-- The same number with the opposite sign. -/
def neg : Binary64 → Binary64
  | .nan => .nan
  | .infinite a => .infinite (!a)
  | .finite a m q => .finite (!a) m q

/-- A dyadic fraction rounded to the nearest double. -/
def ofExact (negative : Bool) (m : Nat) (q : Int) : Binary64 :=
  if 0 ≤ q then ofQuotient negative (m <<< q.toNat) 1
  else ofQuotient negative m (1 <<< (-q).toNat)

/-- The product, rounded once; zero times an infinity has none. -/
def mul : Binary64 → Binary64 → Binary64
  | .nan, _ => .nan
  | _, .nan => .nan
  | .infinite a, .infinite b => .infinite (a != b)
  | .infinite a, .finite b n _ => if n = 0 then .nan else .infinite (a != b)
  | .finite a m _, .infinite b => if m = 0 then .nan else .infinite (a != b)
  | .finite a m p, .finite b n q => ofExact (a != b) (m * n) (p + q)

/-- The sum, rounded once; opposite infinities have none. -/
def add : Binary64 → Binary64 → Binary64
  | .nan, _ => .nan
  | _, .nan => .nan
  | .infinite a, .infinite b => if a = b then .infinite a else .nan
  | .infinite a, .finite .. => .infinite a
  | .finite .., .infinite b => .infinite b
  | .finite a m p, .finite b n q =>
    let least := if p ≤ q then p else q
    let total := signed a m * ((1 <<< (p - least).toNat : Nat) : Int) +
      signed b n * ((1 <<< (q - least).toNat : Nat) : Int)
    if total = 0 then .finite (a && b) 0 0
    else ofExact (total < 0) total.natAbs least

end Binary64

end IntegrationCompiler

import IntegrationCompiler.Number.Binary64

/-!
# Shortest decimal notation

The fewest decimal digits that read back as a given double, and how they are laid out.

Main definitions:

* `Binary64.shortest` — digits and decimal exponent: on each grid of one, two, … seventeen digits
  the two neighbours of the number are tried, and the first grid with one that rounds to the
  number wins;
* `Binary64.render` — positional from 10^-4 up to 10^16, scientific outside.
-/

namespace IntegrationCompiler

/-- A positive decimal `0.d₁d₂… · 10^point`. -/
structure DecimalDigits where
  digits : List Char
  point : Int
  deriving Repr

namespace Binary64

/-- A positive fraction. -/
structure Fraction where
  num : Nat
  den : Nat

/-- The order of two fractions. -/
def Fraction.cmp (a b : Fraction) : Ordering :=
  compare (a.num * b.den) (b.num * a.den)

/-- `m · 2^q` as a fraction. -/
def Fraction.dyadic (m : Nat) (q : Int) : Fraction :=
  if 0 ≤ q then ⟨m <<< q.toNat, 1⟩ else ⟨m, 1 <<< (-q).toNat⟩

/-- `m · 10^e` as a fraction. -/
def Fraction.decimal (m : Nat) (e : Int) : Fraction :=
  if 0 ≤ e then ⟨m * Nat.pow 10 e.toNat, 1⟩ else ⟨m, Nat.pow 10 (-e).toNat⟩

/-- The mantissa and exponent with the mantissa stretched to 53 digits where the range allows. -/
def stretch (m : Nat) (q : Int) : Nat × Int :=
  let room : Int := 53 - bitLength m
  let down : Int := q - minExponent
  let shift := if room ≤ down then room else down
  if 0 ≤ shift then (m <<< shift.toNat, q - shift) else (m, q)

/-- Whether the fraction rounds to the double with stretched mantissa `m` and exponent `q`: it lies
between the midpoints to the neighbouring doubles, which themselves belong to an even mantissa. -/
def roundsTo (m : Nat) (q : Int) (x : Fraction) : Bool :=
  -- Under a power of two the doubles lie twice as close as over it.
  let below :=
    if m = 1 <<< 52 && minExponent < q then Fraction.dyadic (4 * m - 1) (q - 2)
    else Fraction.dyadic (2 * m - 1) (q - 1)
  let above := Fraction.dyadic (2 * m + 1) (q - 1)
  let inside (o : Ordering) (wanted : Ordering) : Bool := o == wanted || (o == .eq && m % 2 == 0)
  inside (below.cmp x) .lt && inside (x.cmp above) .lt

/-- The largest `e` with `10^e ≤ x`. Below one, the digit counts of numerator and denominator leave
two candidates. -/
def decimalExponent (x : Fraction) : Int :=
  if x.den ≤ x.num then (Nat.toDigits 10 (x.num / x.den)).length - 1
  else
    let digits (n : Nat) : Int := (Nat.toDigits 10 n).length
    let low := digits x.num - digits x.den - 1
    let reaches (e : Int) : Bool := (Fraction.decimal 1 e).cmp x != .gt
    if reaches (low + 1) then low + 1 else low

/-- The nearer of the two neighbours of `x` on the grid of multiples of `10^e`, among those that
round to the double; a tie goes to the even one. -/
def gridPoint? (m : Nat) (q : Int) (x : Fraction) (e : Int) : Option Nat :=
  let step := Fraction.decimal 1 e
  let low := x.num * step.den / (x.den * step.num)
  let lowFits := 0 < low && roundsTo m q (Fraction.decimal low e)
  let highFits := roundsTo m q (Fraction.decimal (low + 1) e)
  if lowFits && highFits then
    let middle := Fraction.decimal ((2 * low + 1) * 5) (e - 1)
    match x.cmp middle with
    | .lt => some low
    | .gt => some (low + 1)
    | .eq => some (if low % 2 = 0 then low else low + 1)
  else if lowFits then some low
  else if highFits then some (low + 1)
  else none

/-- Digits without their trailing zeros. -/
def dropTrailingZeros (cs : List Char) : List Char :=
  (cs.reverse.dropWhile (· == '0')).reverse

/-- The fewest digits that read back as the finite double `m · 2^q`, with `m` positive. -/
def shortest (m : Nat) (q : Int) : DecimalDigits :=
  let x := Fraction.dyadic m q
  let top := decimalExponent x
  let (m, q) := stretch m q
  let found := (List.range 17).findSome? fun (i : Nat) =>
    (gridPoint? m q x (top - (i : Int))).map fun d => (d, top - (i : Int))
  let (d, e) := found.getD (0, 0)
  let digits := Nat.toDigits 10 d
  ⟨dropTrailingZeros digits, e + digits.length⟩

/-- Digits in place: positional when the point falls within four places before or sixteen places
after the first digit, scientific with an exponent of at least two digits otherwise. -/
def layout (d : DecimalDigits) : List Char :=
  if -4 < d.point && d.point ≤ 16 then
    if d.point ≤ 0 then
      ['0', '.'] ++ List.replicate (-d.point).toNat '0' ++ d.digits
    else
      let whole := d.point.toNat
      if d.digits.length ≤ whole then
        d.digits ++ List.replicate (whole - d.digits.length) '0' ++ ['.', '0']
      else d.digits.take whole ++ ['.'] ++ d.digits.drop whole
  else
    let exponent := d.point - 1
    let power := Nat.toDigits 10 exponent.natAbs
    let padded := if power.length < 2 then '0' :: power else power
    let mantissa := match d.digits with
      | [] => []
      | [c] => [c]
      | c :: rest => c :: '.' :: rest
    mantissa ++ ['e', if exponent < 0 then '-' else '+'] ++ padded

/-- How the numbers without digits are written. -/
structure Spelling where
  nan : String
  infinity : String

/-- The text of a double: a sign, then the shortest digits that read back as it. -/
def render (spelling : Spelling) : Binary64 → String
  | .nan => spelling.nan
  | .infinite negative => (if negative then "-" else "") ++ spelling.infinity
  | .finite negative m q =>
    let digits := if m = 0 then ['0', '.', '0'] else layout (shortest m q)
    String.ofList (if negative then '-' :: digits else digits)

end Binary64

end IntegrationCompiler

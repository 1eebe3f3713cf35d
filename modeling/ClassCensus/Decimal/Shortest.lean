import ClassCensus.Decimal.BinaryFloat

/-!
# Shortest decimal digits

The decimal written for a floating-point number is the shortest that reads back as the same number, and of two
equally short ones the nearer.

* (interval) the reals that round to `m · 2 ^ q` lie within half a step on either side; the ends belong to them when
  `m` is even, since ties are rounded to even (`Target.accepts`);
* (search) a grid of decimals of `n` digits meets that interval exactly when one of the two neighbours of the number
  on the grid lies in it, so `shortest` tries the grids of 1, 2, … digits and takes the first hit.
-/

namespace ClassCensus

/-- A positive decimal `digits · 10 ^ exponent`. -/
structure Decimal where
  digits : Nat
  exponent : Int

namespace Decimal

/-- A positive rational `value / scale` with the interval around it that rounds to it: from `value - below` to
`value + above`, the ends included when `closed`. -/
structure Target where
  value : Nat
  scale : Nat
  below : Nat
  above : Nat
  closed : Bool

/-- The interval of `significand · 2 ^ exponent`, in quarters of a step of the significand. -/
def Target.ofBinary (significand : Nat) (exponent : Int) (atBinade : Bool) : Target :=
  let factor := Nat.pow 2 exponent.toNat
  { value := 4 * significand * factor
    scale := 4 * Nat.pow 2 (-exponent).toNat
    below := (if atBinade then 1 else 2) * factor
    above := 2 * factor
    closed := significand % 2 = 0 }

/-- The same rational and interval with the unit `10 ^ unit`. -/
def Target.rescale (t : Target) (unit : Int) : Target :=
  let factor := Nat.pow 10 (-unit).toNat
  { value := t.value * factor
    scale := t.scale * Nat.pow 10 unit.toNat
    below := t.below * factor
    above := t.above * factor
    closed := t.closed }

/-- The integer `n` lies in the interval. -/
def Target.accepts (t : Target) (n : Nat) : Bool :=
  let point := n * t.scale
  if t.closed then t.value ≤ point + t.below && point ≤ t.value + t.above
  else t.value < point + t.below && point < t.value + t.above

/-- The integer in the interval that is a neighbour of the rational, the nearer one if both are, and the upper one
if both are equally near. -/
def Target.neighbour? (t : Target) : Option Nat :=
  let low := t.value / t.scale
  let remainder := t.value % t.scale
  match t.accepts low, t.accepts (low + 1) with
  | true, true => some (if 2 * remainder < t.scale then low else low + 1)
  | true, false => some low
  | false, true => some (low + 1)
  | false, false => none

/-- The exponent of the leading decimal digit of the rational. -/
def Target.leadingExponent (t : Target) : Int :=
  if t.scale ≤ t.value then
    (Nat.toDigits 10 (t.value / t.scale)).length - 1
  else
    -(Nat.toDigits 10 ((t.scale - 1) / t.value)).length

/-- The first hit on the grids with units `10 ^ unit`, `10 ^ (unit - 1)`, …; the last of `count` grids answers with
the neighbour below. -/
def Target.firstHit (t : Target) : (count : Nat) → (unit : Int) → Decimal
  | 0, unit => let scaled := t.rescale unit; ⟨scaled.value / scaled.scale, unit⟩
  | count + 1, unit =>
    match (t.rescale unit).neighbour? with
    | some n => ⟨n, unit⟩
    | none => t.firstHit count (unit - 1)

/-- The shortest decimal that reads back as the given number; seventeen digits are enough for every number of at
most 53 bits. -/
def shortest (significand : Nat) (exponent : Int) (atBinade : Bool) : Decimal :=
  let t := Target.ofBinary significand exponent atBinade
  t.firstHit 17 t.leadingExponent

/-- How a number is written. -/
structure Style where
  /-- The least exponent of a leading digit that is written positionally. -/
  leastPositional : Int
  /-- The least exponent of a leading digit that is too large to be written positionally. -/
  leastLarge : Int
  notANumber : String
  infinity : String

/-- The digits of a decimal without trailing zeros, and the exponent of the leading one. -/
def significant (d : Decimal) : List Char × Int :=
  let digits := Nat.toDigits 10 d.digits
  ((digits.reverse.dropWhile (· = '0')).reverse, d.exponent + digits.length - 1)

/-- Positional text with a point, and with at least one digit on either side of it. -/
def positional (digits : List Char) (leading : Int) : List Char :=
  if leading < 0 then
    '0' :: '.' :: List.replicate (-leading - 1).toNat '0' ++ digits
  else
    let whole := leading.toNat + 1
    digits.take whole ++ List.replicate (whole - digits.length) '0' ++
      '.' :: (if digits.length ≤ whole then ['0'] else digits.drop whole)

/-- Text with one digit before the point and an exponent; a single digit takes no point. -/
def scientific (digits : List Char) (leading : Int) : List Char :=
  digits.take 1 ++ (if digits.length ≤ 1 then [] else '.' :: digits.drop 1) ++ 'e' :: (toString leading).toList

/-- The text of a floating-point value. -/
def Style.render (style : Style) : BinaryValue → String
  | .notANumber => style.notANumber
  | .infinite negative => (if negative then "-" else "") ++ style.infinity
  | .finite negative significand exponent atBinade =>
    let text :=
      if significand = 0 then positional ['0'] 0
      else
        let (digits, leading) := (shortest significand exponent atBinade).significant
        if style.leastPositional ≤ leading ∧ leading < style.leastLarge then positional digits leading
        else scientific digits leading
    (if negative then "-" else "") ++ String.ofList text

end Decimal

end ClassCensus

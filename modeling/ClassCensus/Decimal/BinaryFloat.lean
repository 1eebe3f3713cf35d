/-!
# Values of binary floating-point words

A floating-point word consists of a sign, an exponent field and a fraction field. `BinaryFormat.decode` reads the
number that a word stands for.

* (number) a finite word stands for `± significand · 2 ^ exponent`, where the hidden bit is part of the significand
  unless the exponent field is zero;
* (spacing) `atBinade` marks the least significand of a binade above the lowest: there the next number below is half
  as far away as the next number above.
-/

namespace ClassCensus

/-- The widths of the two fields of a floating-point word below its sign. -/
structure BinaryFormat where
  exponentBits : Nat
  fractionBits : Nat

/-- The format of 32-bit words. -/
def BinaryFormat.single : BinaryFormat := ⟨8, 23⟩

/-- The format of 64-bit words. -/
def BinaryFormat.double : BinaryFormat := ⟨11, 52⟩

/-- What a floating-point word stands for. -/
inductive BinaryValue where
  | notANumber
  | infinite (negative : Bool)
  | finite (negative : Bool) (significand : Nat) (exponent : Int) (atBinade : Bool)

/-- The value of the word `word` in the format `format`. -/
def BinaryFormat.decode (format : BinaryFormat) (word : Nat) : BinaryValue :=
  let fractions := Nat.pow 2 format.fractionBits
  let fields := Nat.pow 2 format.exponentBits
  let fraction := word % fractions
  let field := word / fractions % fields
  let negative := word / fractions / fields % 2 = 1
  let lowest : Int := 2 - (fields / 2 : Nat) - format.fractionBits
  if field = fields - 1 then
    if fraction = 0 then .infinite negative else .notANumber
  else if field = 0 then
    .finite negative fraction lowest false
  else
    .finite negative (fractions + fraction) (lowest + field - 1) (fraction = 0 ∧ 1 < field)

end ClassCensus

import LayerLint.Json.Basic

/-! # Numerals

A numeral has a whole part, and may have a fraction and an exponent. One without either stands for
a natural number if it is not negative and fits into 64 bits. Every other numeral stands for a
number of double precision, and a numeral that lies beyond the greatest of these is refused.

Only as many leading digits count as fit into 64 bits. The digits and the power of ten are rounded
before they are multiplied.
-/

namespace LayerLint.Json

/-- The parts of a numeral. -/
structure Numeral where
  negative : Bool
  whole : List Char
  fraction : Option (List Char)
  /-- Whether the exponent is negative, and its digits. -/
  exponent : Option (Bool × List Char)

namespace Numeral

/-- The least number that does not fit into 64 bits. -/
def wordLimit : Nat := Nat.pow 2 64

/-- The greatest exponent that is told apart from greater ones. -/
def exponentLimit : Nat := Nat.pow 2 31

/-- The number that some digits spell. -/
def value (digits : List Char) : Nat :=
  digits.foldl (fun n c => n * 10 + (c.toNat - '0'.toNat)) 0

/-- Reads digits behind those of `n` as long as the result fits into 64 bits; also says how many
digits are left over. -/
def absorb : Nat → List Char → Nat × Nat
  | n, [] => (n, 0)
  | n, c :: rest =>
      let longer := n * 10 + (c.toNat - '0'.toNat)
      if longer < wordLimit then absorb longer rest else (n, rest.length + 1)

/-- The digits that count, and the power of ten they are multiplied by. -/
def scaled (numeral : Numeral) : Nat × Int :=
  let (whole, dropped) := absorb 0 numeral.whole
  let fraction := numeral.fraction.getD []
  let (digits, ignored) := absorb whole fraction
  (digits, (dropped : Int) - ((fraction.length - ignored : Nat) : Int))

/-- The nearest number with at most 53 binary digits, an even one if two are equally near. -/
def roundToDouble (n : Nat) : Nat :=
  let surplus := n.log2 + 1 - 53
  let unit := Nat.pow 2 surplus
  let quotient := n / unit
  let remainder := n % unit
  if unit < 2 * remainder ∨ (2 * remainder = unit ∧ quotient % 2 = 1) then (quotient + 1) * unit
  else quotient * unit

/-- The least number that is rounded beyond the greatest of double precision. -/
def overflowLimit : Nat := Nat.pow 2 1024 - Nat.pow 2 970

/-- Whether digits times a power of ten lie beyond the greatest number of double precision. -/
def exceeds (digits : Nat) (power : Int) : Bool :=
  digits != 0 && decide (0 ≤ power) &&
    (decide (308 < power) ||
      decide (overflowLimit ≤ roundToDouble digits * roundToDouble (Nat.pow 10 power.toNat)))

/-- Whether the numeral lies beyond the greatest number of double precision. -/
def overflows (numeral : Numeral) : Bool :=
  let (digits, power) := numeral.scaled
  match numeral.exponent with
  | none => exceeds digits power
  | some (negative, written) =>
      let size := value written
      -- an exponent of that size outweighs any number of digits
      if exponentLimit ≤ size then !negative && digits != 0
      else exceeds digits (if negative then power - size else power + size)

/-- The numeral as it is written. -/
def text (numeral : Numeral) : String :=
  String.ofList <|
    (if numeral.negative then ['-'] else []) ++ numeral.whole ++
    (match numeral.fraction with
      | some digits => '.' :: digits
      | none => []) ++
    (match numeral.exponent with
      | some (negative, digits) => 'e' :: (if negative then ['-'] else []) ++ digits
      | none => [])

/-- The value that a numeral stands for, unless it is too great. -/
def toJson? (numeral : Numeral) : Option Json :=
  let plain := !numeral.negative && numeral.fraction.isNone && numeral.exponent.isNone
  if plain ∧ value numeral.whole < wordLimit then some (natural (value numeral.whole))
  else if numeral.overflows then none
  else some (number numeral.text)

end Numeral

end LayerLint.Json

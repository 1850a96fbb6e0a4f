/-!
# Shortest decimals

The reals that round to a finite binary number form an interval around it.  The
shortest decimal of the number is the decimal in that interval with the fewest
digits, and among those the one nearest to the number.

A number is a significand times a power of two, so its decimals are found with
natural numbers alone: the two neighbours of the number on the grid of
`count`-digit decimals are tried for `count = 1, 2, …, 17`.
-/

namespace SchemaMap.Decimal

/-- A finite binary number without its sign: `significand * 2 ^ exponent`. -/
structure Magnitude where
  significand : Nat
  exponent : Int
  /-- The number below lies half as far away as the number above. -/
  tightBelow : Bool
deriving DecidableEq, Repr

/-- The decimal `digits * 10 ^ exponent`. -/
structure Numeral where
  digits : Nat
  exponent : Int
deriving DecidableEq, Repr

/-- A binary number of 64 bits, by what it stands for. -/
inductive Reading where
  | notANumber
  | infinite
  | finite (magnitude : Magnitude)
deriving DecidableEq, Repr

/-- The sign bit, set for a negative number and for negative zero. -/
def isNegative (number : Float) : Bool :=
  number.toBits.toNat / Nat.pow 2 63 == 1

/--
The number without its sign: eleven bits of exponent over fifty-two bits of
significand.
-/
def read (number : Float) : Reading :=
  let bits := number.toBits.toNat
  let exponent : Nat := bits / Nat.pow 2 52 % Nat.pow 2 11
  let fraction : Nat := bits % Nat.pow 2 52
  if exponent = 2047 then
    if fraction = 0 then .infinite else .notANumber
  else if exponent = 0 then
    .finite ⟨fraction, -1074, false⟩
  else
    .finite ⟨Nat.pow 2 52 + fraction, Int.ofNat exponent - 1075,
      fraction == 0 && exponent > 1⟩

/-- Compare `digits * 10 ^ tens` with `amount * 2 ^ twos`. -/
def compareScaled (digits : Nat) (tens : Int) (amount : Nat) (twos : Int) :
    Ordering :=
  compare
    (digits * Nat.pow 10 tens.toNat * Nat.pow 2 (-twos).toNat)
    (amount * Nat.pow 2 twos.toNat * Nat.pow 10 (-tens).toNat)

namespace Magnitude

/--
The decimal rounds to the number.  The ends of the interval belong to it when
the significand is even.
-/
def admits (magnitude : Magnitude) (numeral : Numeral) : Bool :=
  let quarter := 4 * magnitude.significand
  let lower := quarter - (if magnitude.tightBelow then 1 else 2)
  let upper := quarter + 2
  let closed := magnitude.significand % 2 == 0
  let low :=
    compareScaled numeral.digits numeral.exponent lower (magnitude.exponent - 2)
  let high :=
    compareScaled numeral.digits numeral.exponent upper (magnitude.exponent - 2)
  (low == .gt || closed && low == .eq) && (high == .lt || closed && high == .eq)

/-- The number divided by `10 ^ tens`, rounded down. -/
def quotient (magnitude : Magnitude) (tens : Int) : Nat :=
  (magnitude.significand * Nat.pow 2 magnitude.exponent.toNat *
    Nat.pow 10 (-tens).toNat) /
    (Nat.pow 2 (-magnitude.exponent).toNat * Nat.pow 10 tens.toNat)

/--
The power of ten of the digit before the first: the least `scale` with the
number below `10 ^ scale`.
-/
def scale (magnitude : Magnitude) : Int :=
  let whole := magnitude.quotient 0
  if whole = 0 then
    let zeros :=
      (List.range 400).find?
        (fun count => 0 < magnitude.quotient (-Int.ofNat count - 1))
    Int.negOfNat (zeros.getD 0)
  else
    Int.ofNat (Nat.toDigits 10 whole).length

/--
The nearer of the two neighbours on a grid that round to the number, the upper
one when both are equally near.
-/
def nearestOnGrid (magnitude : Magnitude) (tens : Int) : Option Numeral :=
  let below : Numeral := ⟨magnitude.quotient tens, tens⟩
  let above : Numeral := ⟨magnitude.quotient tens + 1, tens⟩
  match magnitude.admits below, magnitude.admits above with
  | false, false => none
  | true, false => some below
  | false, true => some above
  | true, true =>
      match compareScaled (below.digits + above.digits) tens
        magnitude.significand (magnitude.exponent + 1) with
      | .gt => some below
      | _ => some above

/-- All digits of the number. -/
def allDigits (magnitude : Magnitude) : Numeral :=
  if magnitude.exponent < 0 then
    ⟨magnitude.significand * Nat.pow 5 (-magnitude.exponent).toNat,
      magnitude.exponent⟩
  else
    ⟨magnitude.significand * Nat.pow 2 magnitude.exponent.toNat, 0⟩

end Magnitude

namespace Numeral

/-- The same decimal without zeros at the end of its digits. -/
def trimmed (numeral : Numeral) : Numeral :=
  if numeral.digits ≠ 0 ∧ numeral.digits % 10 = 0 then
    trimmed ⟨numeral.digits / 10, numeral.exponent + 1⟩
  else
    numeral
termination_by numeral.digits
decreasing_by
  omega

/--
The decimal written with a point and without an exponent; a whole number has no
point.
-/
def positional (numeral : Numeral) : String :=
  let digits := Nat.toDigits 10 numeral.digits
  if 0 ≤ numeral.exponent then
    String.ofList (digits ++ List.replicate numeral.exponent.toNat '0')
  else
    let places := (-numeral.exponent).toNat
    let padded := List.replicate (places + 1 - digits.length) '0' ++ digits
    String.ofList
      (padded.take (padded.length - places) ++ '.' ::
        padded.drop (padded.length - places))

end Numeral

/-- The shortest decimal that rounds to the number. -/
def shortest (magnitude : Magnitude) : Numeral :=
  if magnitude.significand = 0 then
    ⟨0, 0⟩
  else
    let grids :=
      (List.range 17).map (fun count => magnitude.scale - Int.ofNat count - 1)
    ((grids.findSome? magnitude.nearestOnGrid).getD magnitude.allDigits).trimmed

/-- A number in its shortest decimal form. -/
def text (number : Float) : String :=
  let sign := if isNegative number then "-" else ""
  match read number with
  | .notANumber => "NaN"
  | .infinite => sign ++ "inf"
  | .finite magnitude => sign ++ (shortest magnitude).positional

end SchemaMap.Decimal

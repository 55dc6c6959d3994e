/-! # The shortest decimal of a binary fraction

A positive double is `m · 2^q`. The reals that round to it form an interval around it, which has its
ends when `m` is even. `shortest` is the decimal with the fewest digits in that interval, and of
those the nearest: for one digit, two digits and so on it tries the two neighbours of the value on
the grid of decimals with that many digits. All arithmetic is exact. -/

namespace LanguageServer

/-- The number `coefficient · 10^exponent`. -/
structure Decimal where
  coefficient : Nat
  exponent : Int
  deriving DecidableEq, Repr

namespace Decimal

/-- The number of decimal digits of `n`; zero has one. -/
def digitCount (n : Nat) : Nat := (Nat.toDigits 10 n).length

/-- The decimal without the zeros at its end; `fuel` bounds their number. -/
def stripZeros (fuel : Nat) (d : Decimal) : Decimal :=
  match fuel with
  | 0 => d
  | fuel + 1 =>
    if d.coefficient ≠ 0 ∧ d.coefficient % 10 = 0 then
      stripZeros fuel ⟨d.coefficient / 10, d.exponent + 1⟩
    else d

/-- The interval of the reals that round to a double: the numerators of its ends and of the value,
over one denominator, and whether the ends round to the value too. -/
structure Rounding where
  low : Nat
  value : Nat
  high : Nat
  denominator : Nat
  closed : Bool

/-- The interval around `m · 2^q`; `narrow` if the next double below is half as far away. -/
def Rounding.around (m : Nat) (q : Int) (narrow : Bool) : Rounding :=
  let up := Nat.pow 2 (q - 2).toNat
  let down := Nat.pow 2 (2 - q).toNat
  ⟨(4 * m - if narrow then 1 else 2) * up, 4 * m * up, (4 * m + 2) * up, down, m % 2 == 0⟩

/-- Whether `n · 10^e` lies in the interval, all its numerators scaled by `scale` and its
denominator by `unit`. -/
def Rounding.admits (r : Rounding) (scale unit n : Nat) : Bool :=
  let point := n * (r.denominator * unit)
  if r.closed then r.low * scale ≤ point && point ≤ r.high * scale
  else r.low * scale < point && point < r.high * scale

/-- The multiple of `10^e` next to the value that rounds to it: the nearer of two, the even one at
equal distance. -/
def Rounding.onGrid? (r : Rounding) (e : Int) : Option Decimal :=
  let scale := Nat.pow 10 (-e).toNat
  let unit := Nat.pow 10 e.toNat
  let below := r.value * scale / (r.denominator * unit)
  let rest := r.value * scale - below * (r.denominator * unit)
  let belowFits := r.admits scale unit below
  let aboveFits := r.admits scale unit (below + 1)
  let nearerBelow := 2 * rest < r.denominator * unit ||
    (2 * rest == r.denominator * unit && below % 2 == 0)
  if belowFits && (nearerBelow || !aboveFits) then some ⟨below, e⟩
  else if aboveFits then some ⟨below + 1, e⟩
  else none

/-- The exponent of the leading digit of the value. -/
def Rounding.magnitude (r : Rounding) : Int :=
  if r.denominator ≤ r.value then (digitCount (r.value / r.denominator) : Int) - 1
  else -(digitCount ((r.denominator + r.value - 1) / r.value - 1) : Int)

/-- The first hit on the grids of `digits` digits and more, of which `left` are tried. -/
def Rounding.search (r : Rounding) (left digits : Nat) : Decimal :=
  match left with
  | 0 => ⟨0, 0⟩
  | left + 1 =>
    match r.onGrid? (r.magnitude - digits + 1) with
    | some d => d
    | none => r.search left (digits + 1)

/-- The weight of the bit before the mantissa bits of a double. -/
def hiddenBit : Nat := 0x10000000000000

/-- The weight of the sign bit of a double. -/
def signBit : Nat := 0x8000000000000000

/-- The shortest decimal that rounds to the positive double with mantissa bits `fraction` and
exponent bits `power`. Seventeen digits tell all doubles apart. -/
def ofFields (fraction power : Nat) : Decimal :=
  let m := if power = 0 then fraction else fraction + hiddenBit
  let q : Int := (max power 1 : Nat) - 1075
  stripZeros 18 ((Rounding.around m q (fraction == 0 && 1 < power)).search 17 1)

/-- The shortest decimal that rounds to the magnitude of a finite double. -/
def shortest (x : Float) : Decimal :=
  let bits := x.toBits.toNat % signBit
  if bits = 0 then ⟨0, 0⟩ else ofFields (bits % hiddenBit) (bits / hiddenBit)

end Decimal

end LanguageServer

import FrameFlow.Binary.Format

/-!
# Shortest decimals

The decimals that round to a given binary number fill an interval around it.
`shortest` finds the fewest significant digits with which some decimal lies in
that interval, and of the decimals with so many digits the one nearest to the
number; of two equally near the larger one.
-/

namespace FrameFlow.Decimal

open FrameFlow.Binary

/-- `digits` read as an integer, times `10 ^ exponent`. -/
structure Numeral where
  digits : Nat
  exponent : Int
  deriving DecidableEq, Repr

def floorLog10 (num den : Nat) : Int :=
  if den ≤ num then ((Nat.toDigits 10 (num / den)).length : Int) - 1
  else
    let length := (Nat.toDigits 10 (den / num)).length
    if num * Nat.pow 10 (length - 1) = den then 1 - (length : Int) else -(length : Int)

/--
The numbers that round to `value`, all three in units of one common
denominator.
-/
structure Interval where
  low : Nat
  value : Nat
  high : Nat
  den : Nat
  closed : Bool
  deriving DecidableEq, Repr

def Interval.contains (i : Interval) (digits : Nat) (exponent : Int) : Bool :=
  let up := Nat.pow 10 exponent.toNat
  let down := Nat.pow 10 (-exponent).toNat
  let point := digits * up * i.den
  if i.closed then i.low * down ≤ point && point ≤ i.high * down
  else i.low * down < point && point < i.high * down

/--
The ends lie halfway to the neighbouring words.  They belong to the interval
when the significand is even, and the lower neighbour of a power of two is
half as far away as the upper one.
-/
def Interval.ofFinite (f : Format) (m : Nat) (e : Int) : Interval :=
  let (unit, den) := scaled 1 (e - 2)
  let below := if m = Nat.pow 2 f.fractionBits ∧ f.minExponent < e then 1 else 2
  ⟨(4 * m - below) * unit, 4 * m * unit, (4 * m + 2) * unit, den, m % 2 == 0⟩

/--
Of the two neighbours on the grid of multiples of `10 ^ exponent` the nearer
one that lies in the interval.
-/
def Interval.candidate? (i : Interval) (exponent : Int) : Option Nat :=
  let up := Nat.pow 10 exponent.toNat
  let down := Nat.pow 10 (-exponent).toNat
  let num := i.value * down
  let den := i.den * up
  let q := num / den
  let lower := i.contains q exponent
  let upper := i.contains (q + 1) exponent
  if lower && upper then some (if 2 * (num % den) < den then q else q + 1)
  else if lower then some q
  else if upper then some (q + 1)
  else none

def Interval.search (i : Interval) : Nat → Int → Numeral
  | 0, exponent =>
      ⟨i.value * Nat.pow 10 (-exponent).toNat / (i.den * Nat.pow 10 exponent.toNat), exponent⟩
  | count + 1, exponent =>
      match i.candidate? exponent with
      | some digits => ⟨digits, exponent⟩
      | none => i.search count (exponent - 1)

def stripZeros : Nat → Numeral → Numeral
  | 0, d => d
  | count + 1, d =>
      if d.digits % 10 = 0 then stripZeros count ⟨d.digits / 10, d.exponent + 1⟩ else d

/-- The shortest decimal of a positive finite number; 17 digits always suffice. -/
def shortest (f : Format) (m : Nat) (e : Int) : Numeral :=
  let i := Interval.ofFinite f m e
  stripZeros 20 (i.search 17 (floorLog10 i.value i.den))

/-! ## Layout -/

structure Layout where
  positionalFrom : Int
  positionalTo : Int
  infinity : String
  notANumber : String
  deriving DecidableEq, Repr

def pointed (digits : List Char) (count : Nat) : List Char :=
  let whole := digits.take count ++ List.replicate (count - digits.length) '0'
  let fraction := digits.drop count
  whole ++ '.' :: (if fraction.isEmpty then ['0'] else fraction)

def intChars (n : Int) : List Char :=
  if n < 0 then '-' :: Nat.toDigits 10 n.natAbs else Nat.toDigits 10 n.natAbs

def Layout.finite (layout : Layout) (d : Numeral) : List Char :=
  let digits := Nat.toDigits 10 d.digits
  let exponent := d.exponent + (digits.length : Int) - 1
  if layout.positionalFrom ≤ exponent && exponent ≤ layout.positionalTo then
    if 0 ≤ exponent then pointed digits (exponent.toNat + 1)
    else '0' :: '.' :: (List.replicate ((-exponent).toNat - 1) '0' ++ digits)
  else
    let mantissa := match digits with
      | first :: second :: rest => first :: '.' :: second :: rest
      | short => short
    mantissa ++ 'e' :: intChars exponent

def Layout.text (layout : Layout) (f : Format) (word : Nat) : String :=
  match f.decode word with
  | .nan => layout.notANumber
  | .infinite negative => if negative then "-" ++ layout.infinity else layout.infinity
  | .finite negative m e =>
      let body := if m = 0 then ['0', '.', '0'] else layout.finite (shortest f m e)
      String.ofList (if negative then '-' :: body else body)

end FrameFlow.Decimal

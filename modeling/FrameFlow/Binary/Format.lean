/-!
# Binary floating point formats

A word of a binary format has a sign bit, a biased exponent field and a
fraction field.  Words are natural numbers here, numbers are `significand *
2 ^ exponent` with a sign, and rounding goes to the nearest word with ties to
the even one.
-/

namespace FrameFlow.Binary

structure Format where
  fractionBits : Nat
  exponentBits : Nat
  deriving DecidableEq, Repr

inductive Number where
  | nan
  | infinite (negative : Bool)
  | finite (negative : Bool) (significand : Nat) (exponent : Int)
  deriving DecidableEq, Repr

/-! ## Exact quotients -/

/-- The integer nearest to `num / den`, the even one of two equally near. -/
def roundQuotient (num den : Nat) : Nat :=
  let q := num / den
  let r := num % den
  if 2 * r < den then q
  else if den < 2 * r then q + 1
  else q + q % 2

def scaled (m : Nat) (e : Int) : Nat × Nat :=
  if 0 ≤ e then (m * Nat.pow 2 e.toNat, 1) else (m, Nat.pow 2 (-e).toNat)

/-- The exponent of the largest power of two not above `num / den`, both positive. -/
def floorLog2 (num den : Nat) : Int :=
  let estimate : Int := (num.log2 : Int) - (den.log2 : Int)
  let fits :=
    if 0 ≤ estimate then den * Nat.pow 2 estimate.toNat ≤ num
    else den ≤ num * Nat.pow 2 (-estimate).toNat
  if fits then estimate else estimate - 1

namespace Format

def single : Format := ⟨23, 8⟩

def double : Format := ⟨52, 11⟩

def bias (f : Format) : Nat :=
  Nat.pow 2 (f.exponentBits - 1) - 1

/-- The exponent field of infinities and of words that are no number. -/
def topField (f : Format) : Nat :=
  Nat.pow 2 f.exponentBits - 1

/-- The exponent of the last place of the smallest numbers. -/
def minExponent (f : Format) : Int :=
  1 - (f.bias : Int) - (f.fractionBits : Int)

def signWord (f : Format) : Nat :=
  Nat.pow 2 (f.fractionBits + f.exponentBits)

def infinityWord (f : Format) : Nat :=
  f.topField * Nat.pow 2 f.fractionBits

def nanWord (f : Format) : Nat :=
  f.infinityWord + Nat.pow 2 (f.fractionBits - 1)

def isNegative (f : Format) (word : Nat) : Bool :=
  word / f.signWord % 2 == 1

def exponentField (f : Format) (word : Nat) : Nat :=
  word / Nat.pow 2 f.fractionBits % Nat.pow 2 f.exponentBits

def fractionField (f : Format) (word : Nat) : Nat :=
  word % Nat.pow 2 f.fractionBits

def decode (f : Format) (word : Nat) : Number :=
  let negative := f.isNegative word
  let field := f.exponentField word
  let fraction := f.fractionField word
  if field = f.topField then
    if fraction = 0 then .infinite negative else .nan
  else if field = 0 then .finite negative fraction f.minExponent
  else .finite negative (Nat.pow 2 f.fractionBits + fraction) (f.minExponent + (field - 1 : Int))

def signed (f : Format) (negative : Bool) (magnitude : Nat) : Nat :=
  if negative then f.signWord + magnitude else magnitude

/--
The word nearest to `num / den` with the given sign.  Past the largest finite
word the nearest one is the infinity, whose word follows it directly.
-/
def ofRatio (f : Format) (negative : Bool) (num den : Nat) : Nat :=
  if num = 0 then f.signed negative 0
  else
    let e := max f.minExponent (floorLog2 num den - (f.fractionBits : Int))
    let significand :=
      if 0 ≤ e then roundQuotient num (den * Nat.pow 2 e.toNat)
      else roundQuotient (num * Nat.pow 2 (-e).toNat) den
    let magnitude := (e - f.minExponent).toNat * Nat.pow 2 f.fractionBits + significand
    f.signed negative (min magnitude f.infinityWord)

/--
What is no number has many words, and an operation may give any quiet one of them,
with either sign and any payload.  Of these results the one without sign and payload
is chosen always.
-/
def encode (f : Format) : Number → Nat
  | .nan => f.nanWord
  | .infinite negative => f.signed negative f.infinityWord
  | .finite negative m e => f.ofRatio negative (scaled m e).1 (scaled m e).2

end Format

end FrameFlow.Binary

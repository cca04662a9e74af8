import FrameFlow.Binary.Format

/-!
# Floating point arithmetic

Every operation computes the exact result and rounds once.  A remainder is
exact: it has the sign of the dividend and is smaller than the divisor.
-/

namespace FrameFlow.Binary

def aligned (m₁ : Nat) (e₁ : Int) (m₂ : Nat) (e₂ : Int) : Nat × Nat × Int :=
  let e := min e₁ e₂
  (m₁ * Nat.pow 2 (e₁ - e).toNat, m₂ * Nat.pow 2 (e₂ - e).toNat, e)

def withSign (negative : Bool) (m : Nat) : Int :=
  if negative then -(m : Int) else m

namespace Number

/-- A sum of zeros is negative only if both are. -/
def add : Number → Number → Number
  | .nan, _ | _, .nan => .nan
  | .infinite s, .infinite t => if s = t then .infinite s else .nan
  | .infinite s, .finite .. => .infinite s
  | .finite .., .infinite t => .infinite t
  | .finite s m₁ e₁, .finite t m₂ e₂ =>
      let (a, b, e) := aligned m₁ e₁ m₂ e₂
      let sum := withSign s a + withSign t b
      if sum = 0 then .finite (s && t) 0 e else .finite (sum < 0) sum.natAbs e

def opposite : Number → Number
  | .nan => .nan
  | .infinite s => .infinite (!s)
  | .finite s m e => .finite (!s) m e

def mul : Number → Number → Number
  | .nan, _ | _, .nan => .nan
  | .infinite s, .infinite t => .infinite (s != t)
  | .infinite s, .finite t m _ => if m = 0 then .nan else .infinite (s != t)
  | .finite s m _, .infinite t => if m = 0 then .nan else .infinite (s != t)
  | .finite s m₁ e₁, .finite t m₂ e₂ => .finite (s != t) (m₁ * m₂) (e₁ + e₂)

def rem : Number → Number → Number
  | .finite s m₁ e₁, .finite _ m₂ e₂ =>
      if m₂ = 0 then .nan
      else
        let (a, b, e) := aligned m₁ e₁ m₂ e₂
        .finite s (a % b) e
  | .finite s m e, .infinite _ => .finite s m e
  | _, _ => .nan

/-- `none` if either side is no number; the two zeros are equal. -/
def compare : Number → Number → Option Ordering
  | .nan, _ | _, .nan => none
  | .infinite s, .infinite t =>
      some (if s = t then .eq else if s then .lt else .gt)
  | .infinite s, .finite .. => some (if s then .lt else .gt)
  | .finite .., .infinite t => some (if t then .gt else .lt)
  | .finite s m₁ e₁, .finite t m₂ e₂ =>
      let (a, b, _) := aligned m₁ e₁ m₂ e₂
      some (Ord.compare (withSign s a) (withSign t b))

/-- Drops the fraction and clamps to the range; what is no number gives zero. -/
def truncate (lo hi : Int) : Number → Int
  | .nan => 0
  | .infinite s => if s then lo else hi
  | .finite s m e =>
      let (num, den) := scaled m e
      max lo (min hi (withSign s (num / den)))

end Number

namespace Format

def add (f : Format) (a b : Nat) : Nat :=
  f.encode ((f.decode a).add (f.decode b))

def sub (f : Format) (a b : Nat) : Nat :=
  f.encode ((f.decode a).add (f.decode b).opposite)

def mul (f : Format) (a b : Nat) : Nat :=
  f.encode ((f.decode a).mul (f.decode b))

def div (f : Format) (a b : Nat) : Nat :=
  match f.decode a, f.decode b with
  | .nan, _ | _, .nan => f.nanWord
  | .infinite _, .infinite _ => f.nanWord
  | .infinite s, .finite t _ _ => f.signed (s != t) f.infinityWord
  | .finite s _ _, .infinite t => f.signed (s != t) 0
  | .finite s m₁ e₁, .finite t m₂ e₂ =>
      if m₂ = 0 then
        if m₁ = 0 then f.nanWord else f.signed (s != t) f.infinityWord
      else
        let (num, den, _) := aligned m₁ e₁ m₂ e₂
        f.ofRatio (s != t) num den

def rem (f : Format) (a b : Nat) : Nat :=
  f.encode ((f.decode a).rem (f.decode b))

/-- Only the sign bit changes, also of a word that is no number. -/
def neg (f : Format) (a : Nat) : Nat :=
  a ^^^ f.signWord

def compare (f : Format) (a b : Nat) : Option Ordering :=
  (f.decode a).compare (f.decode b)

def ofInt (f : Format) (n : Int) : Nat :=
  f.ofRatio (n < 0) n.natAbs 1

def truncate (f : Format) (lo hi : Int) (a : Nat) : Int :=
  (f.decode a).truncate lo hi

def convertTo (f g : Format) (a : Nat) : Nat :=
  g.encode (f.decode a)

end Format

end FrameFlow.Binary

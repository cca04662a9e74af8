import FrameFlow.Const.Folding
import Mathlib.Data.Int.Bitwise
import Mathlib.Data.Int.ModEq
import Mathlib.Tactic.Linarith
import Mathlib.Tactic.Positivity
import Mathlib.Tactic.Ring

/-!
# Folding is two's complement arithmetic

A folded integer is the exact result of the operation, brought into the signed range by a
multiple of the number of words.  The facts about shifts and bits are proved for words of
any width and then used at the two widths there are.
-/

namespace FrameFlow

/-! ## Residues -/

/-- The integer among the `2 ^ bits` from `low` on that is congruent to `n`. -/
structure IsResidue (bits : Nat) (low n r : Int) : Prop where
  modEq : r ≡ n [ZMOD 2 ^ bits]
  low_le : low ≤ r
  lt_high : r < low + 2 ^ bits

def Wraps (bits : Nat) (n r : Int) : Prop :=
  IsResidue bits (-2 ^ (bits - 1)) n r

private theorem IsResidue.unique {bits : Nat} {low n r s : Int} (hr : IsResidue bits low n r)
    (hs : IsResidue bits low n s) : r = s := by
  have hpos : (0 : Int) < 2 ^ bits := by positivity
  have hsame : (r - low) % 2 ^ bits = (s - low) % 2 ^ bits :=
    (hr.modEq.trans hs.modEq.symm).sub_right low
  have hlow (t : Int) (ht : IsResidue bits low n t) : (t - low) % 2 ^ bits = t - low :=
    Int.emod_eq_of_lt (by linarith [ht.low_le]) (by linarith [ht.lt_high])
  rw [hlow r hr, hlow s hs] at hsame
  linarith

theorem IsResidue.eq_iff {bits : Nat} {low n r s : Int} (hr : IsResidue bits low n r) :
    IsResidue bits low n s ↔ s = r := by
  constructor
  · intro hs
    exact hs.unique hr
  · rintro rfl
    exact hr

private theorem two_pow_pred {bits : Nat} (h : 0 < bits) :
    (2 : Int) ^ bits = 2 * 2 ^ (bits - 1) := by
  rw [← pow_succ', Nat.sub_add_cancel h]

private theorem wraps_bmod {bits : Nat} (h : 0 < bits) (n : Int) :
    Wraps bits n (n.bmod (2 ^ bits)) := by
  have hpos : 0 < 2 ^ bits := by positivity
  have hhalf := two_pow_pred h
  have hlow := Int.le_bmod (x := n) hpos
  have hhigh := Int.bmod_lt (x := n) hpos
  push_cast at hlow hhigh
  rw [hhalf] at hlow hhigh
  refine ⟨?_, by omega, by rw [hhalf]; omega⟩
  have hmod : n.bmod (2 ^ bits) % ((2 ^ bits : Nat) : Int) = n % ((2 ^ bits : Nat) : Int) :=
    Int.bmod_emod
  push_cast at hmod
  exact hmod

theorem wraps_iff {bits : Nat} (h : 0 < bits) {n r : Int} :
    Wraps bits n r ↔ r = n.bmod (2 ^ bits) :=
  (wraps_bmod h n).eq_iff

/-! ## Words -/

section Words

variable {w : Nat}

theorem wraps_toNat (h : 0 < w) (x : BitVec w) : Wraps w x.toNat x.toInt :=
  (wraps_iff h).2 x.toInt_eq_toNat_bmod

theorem toInt_emod (h : 0 < w) (x : BitVec w) : x.toInt % 2 ^ w = x.toNat := by
  have hmod : x.toInt % 2 ^ w = x.toNat % 2 ^ w := (wraps_toNat h x).modEq
  rw [hmod, Int.emod_eq_of_lt (by positivity) (by exact_mod_cast x.isLt)]

/-! ### Distances -/

private theorem masked_toNat {j : Nat} (hj : j < w) (x : BitVec w) :
    ((x &&& BitVec.ofNat w (2 ^ j - 1)).toNat : Int) = x.toInt % 2 ^ j := by
  have hmask : 2 ^ j - 1 < 2 ^ w :=
    lt_of_le_of_lt (Nat.sub_le _ _) (Nat.pow_lt_pow_right (by decide) hj)
  have hdvd : (2 : Int) ^ j ∣ 2 ^ w := pow_dvd_pow 2 hj.le
  rw [BitVec.toNat_and, BitVec.toNat_ofNat, Nat.mod_eq_of_lt hmask,
    Nat.and_two_pow_sub_one_eq_mod, ← Int.emod_emod_of_dvd x.toInt hdvd,
    toInt_emod (Nat.zero_lt_of_lt hj)]
  push_cast
  rfl

private theorem toNat_ofNat_two_pow {j : Nat} (hj : j < w) :
    (BitVec.ofNat w (2 ^ j)).toNat = 2 ^ j := by
  rw [BitVec.toNat_ofNat, Nat.mod_eq_of_lt (Nat.pow_lt_pow_right (by decide) hj)]

private theorem masked_lt {j : Nat} (hj : j < w) (x : BitVec w) :
    (x &&& BitVec.ofNat w (2 ^ j - 1)).toNat < 2 ^ j := by
  have hlt : x.toInt % 2 ^ j < 2 ^ j := Int.emod_lt_of_pos _ (by positivity)
  rw [← masked_toNat hj x] at hlt
  exact_mod_cast hlt

/-- A masked distance is less than the width, so it is taken as it is, signed or not. -/
theorem masked_smod {j : Nat} (hj : j + 1 < w) (x : BitVec w) :
    (x &&& BitVec.ofNat w (2 ^ j - 1)).smod (BitVec.ofNat w (2 ^ j)) =
      x &&& BitVec.ofNat w (2 ^ j - 1) := by
  have hlt := masked_lt (by omega : j < w) x
  have hmodulus := toNat_ofNat_two_pow (by omega : j < w)
  have hpow : 2 * 2 ^ j < 2 ^ w := by
    rw [← pow_succ']
    exact Nat.pow_lt_pow_right (by decide) hj
  rw [← BitVec.toInt_inj, BitVec.toInt_smod, BitVec.toInt_eq_toNat_of_lt (by omega),
    BitVec.toInt_eq_toNat_of_lt (by omega), hmodulus]
  exact Int.fmod_eq_of_lt (by positivity) (by exact_mod_cast hlt)

private theorem masked_umod {j : Nat} (hj : j < w) (x : BitVec w) :
    (x &&& BitVec.ofNat w (2 ^ j - 1)) % BitVec.ofNat w (2 ^ j) =
      x &&& BitVec.ofNat w (2 ^ j - 1) := by
  rw [← BitVec.toNat_inj, BitVec.toNat_umod, toNat_ofNat_two_pow hj,
    Nat.mod_eq_of_lt (masked_lt hj x)]

theorem masked_distance {j : Nat} (hj : j < w) (d : BitVec w) :
    (d &&& BitVec.ofNat w (2 ^ j - 1)).toNat = (d.toInt % 2 ^ j).toNat := by
  rw [← masked_toNat hj d, Int.toNat_natCast]

/-! ### Shifts -/

private theorem wraps_shiftLeft {j : Nat} (hj : j + 1 < w) (x : BitVec w) {d : BitVec w} {n : Int}
    (hd : d.toInt = n) :
    Wraps w (x.toInt * 2 ^ (n % 2 ^ j).toNat)
      (x <<< (d &&& BitVec.ofNat w (2 ^ j - 1)).smod (BitVec.ofNat w (2 ^ j))).toInt := by
  have hpos : 0 < w := by omega
  rw [masked_smod hj, BitVec.shiftLeft_eq', masked_distance (by omega), hd]
  generalize (n % 2 ^ j).toNat = k
  have hshift : Wraps w (x.toNat <<< k : Nat) (x <<< k).toInt :=
    (wraps_iff hpos).2 BitVec.toInt_shiftLeft
  refine ⟨hshift.modEq.trans ?_, hshift.low_le, hshift.lt_high⟩
  rw [Nat.shiftLeft_eq]
  push_cast
  exact ((wraps_toNat hpos x).modEq.mul_right _).symm

private theorem toInt_shiftRight {j : Nat} (hj : j + 1 < w) (x : BitVec w) {d : BitVec w} {n : Int}
    (hd : d.toInt = n) :
    (x.sshiftRight' ((d &&& BitVec.ofNat w (2 ^ j - 1)).smod (BitVec.ofNat w (2 ^ j)))).toInt =
      x.toInt / 2 ^ (n % 2 ^ j).toNat := by
  rw [masked_smod hj, BitVec.sshiftRight', masked_distance (by omega), hd,
    BitVec.toInt_sshiftRight, Int.shiftRight_eq_div_pow]
  push_cast
  rfl

private theorem wraps_ushiftRight {j : Nat} (hj : j < w) (x : BitVec w) {d : BitVec w} {n : Int}
    (hd : d.toInt = n) :
    Wraps w (x.toInt % 2 ^ w / 2 ^ (n % 2 ^ j).toNat)
      (x >>> ((d &&& BitVec.ofNat w (2 ^ j - 1)) % BitVec.ofNat w (2 ^ j))).toInt := by
  have hpos : 0 < w := by omega
  rw [masked_umod hj, BitVec.ushiftRight_eq', masked_distance hj, hd]
  generalize (n % 2 ^ j).toNat = k
  have hshift := wraps_toNat hpos (x >>> k)
  rw [BitVec.toNat_ushiftRight, Nat.shiftRight_eq_div_pow] at hshift
  rw [toInt_emod hpos]
  exact_mod_cast hshift

/-! ### Bits -/

theorem testBit_toInt (x : BitVec w) {i : Nat} (hi : i < w) :
    x.toInt.testBit i = x.getLsbD i := by
  rw [BitVec.toInt_eq_toNat_cond]
  split
  · rfl
  · have hx := x.isLt
    have hneg : (x.toNat : Int) - (2 ^ w : Nat) = Int.negSucc (2 ^ w - (x.toNat + 1)) := by
      omega
    rw [hneg]
    calc (Int.negSucc (2 ^ w - (x.toNat + 1))).testBit i
        = !(2 ^ w - (x.toNat + 1)).testBit i := rfl
      _ = x.toNat.testBit i := by simp [Nat.testBit_two_pow_sub_succ hx, hi]

private theorem testBit_and (x y : BitVec w) {i : Nat} (hi : i < w) :
    (x &&& y).toInt.testBit i = (x.toInt.testBit i && y.toInt.testBit i) := by
  simp only [testBit_toInt _ hi, BitVec.getLsbD_and]

private theorem testBit_or (x y : BitVec w) {i : Nat} (hi : i < w) :
    (x ||| y).toInt.testBit i = (x.toInt.testBit i || y.toInt.testBit i) := by
  simp only [testBit_toInt _ hi, BitVec.getLsbD_or]

private theorem testBit_xor (x y : BitVec w) {i : Nat} (hi : i < w) :
    (x ^^^ y).toInt.testBit i = (x.toInt.testBit i ^^ y.toInt.testBit i) := by
  simp only [testBit_toInt _ hi, BitVec.getLsbD_xor]

end Words

/-! ## Division -/

/-- Truncated division, with the quotient brought into range. -/
structure Division (bits : Nat) (a b q r : Int) : Prop where
  quotient : Wraps bits (a.tdiv b) q
  modEq : a ≡ q * b + r [ZMOD 2 ^ bits]
  bound : |r| < |b|
  sign : r = 0 ∨ r.sign = a.sign

private theorem division_of_tmod {bits : Nat} {a b q : Int} (hb : b ≠ 0)
    (hq : Wraps bits (a.tdiv b) q) :
    Division bits a b q (a.tmod b) where
  quotient := hq
  modEq := by
    have hexact : a.tdiv b * b + a.tmod b = a := by
      rw [mul_comm]
      exact Int.mul_tdiv_add_tmod a b
    calc a = a.tdiv b * b + a.tmod b := hexact.symm
      _ ≡ q * b + a.tmod b [ZMOD 2 ^ bits] := (hq.modEq.symm.mul_right b).add_right _
  bound := by
    rw [← Int.natCast_natAbs, ← Int.natCast_natAbs, Int.natAbs_tmod]
    exact_mod_cast Nat.mod_lt _ (Int.natAbs_pos.2 hb)
  sign := by
    by_cases hdvd : b ∣ a
    · exact .inl (Int.tmod_eq_zero_of_dvd hdvd)
    · right
      rw [Int.sign_tmod, if_neg hdvd]

/-! ## Folding -/

namespace Const

def shiftDistance (bits : Nat) (d : Int32) : Nat :=
  (d.toInt % bits).toNat

structure FoldsExactly (bits : Nat) (kind : Kind) {α : Type} (value : α → Int)
    (const : α → Const) : Prop where
  add : ∀ a b, ∃ c, binary kind .add (const a) (const b) = some (const c) ∧
    Wraps bits (value a + value b) (value c)
  sub : ∀ a b, ∃ c, binary kind .sub (const a) (const b) = some (const c) ∧
    Wraps bits (value a - value b) (value c)
  mul : ∀ a b, ∃ c, binary kind .mul (const a) (const b) = some (const c) ∧
    Wraps bits (value a * value b) (value c)
  divByZero : ∀ a b, value b = 0 → binary kind .div (const a) (const b) = none ∧
    binary kind .rem (const a) (const b) = none
  divRem : ∀ a b, value b ≠ 0 → ∃ q r, binary kind .div (const a) (const b) = some (const q) ∧
    binary kind .rem (const a) (const b) = some (const r) ∧
    Division bits (value a) (value b) (value q) (value r)
  shl : ∀ a d, ∃ c, binary kind .shl (const a) (.int d) = some (const c) ∧
    Wraps bits (value a * 2 ^ shiftDistance bits d) (value c)
  shr : ∀ a d, ∃ c, binary kind .shr (const a) (.int d) = some (const c) ∧
    value c = value a / 2 ^ shiftDistance bits d
  ushr : ∀ a d, ∃ c, binary kind .ushr (const a) (.int d) = some (const c) ∧
    Wraps bits (value a % 2 ^ bits / 2 ^ shiftDistance bits d) (value c)
  and : ∀ a b, ∃ c, binary kind .and (const a) (const b) = some (const c) ∧
    ∀ i < bits, (value c).testBit i = ((value a).testBit i && (value b).testBit i)
  or : ∀ a b, ∃ c, binary kind .or (const a) (const b) = some (const c) ∧
    ∀ i < bits, (value c).testBit i = ((value a).testBit i || (value b).testBit i)
  xor : ∀ a b, ∃ c, binary kind .xor (const a) (const b) = some (const c) ∧
    ∀ i < bits, (value c).testBit i = ((value a).testBit i ^^ (value b).testBit i)
  neg : ∀ a, ∃ c, negate kind (const a) = some (const c) ∧ Wraps bits (-value a) (value c)

private theorem int_foldsExactly : FoldsExactly 32 .int Int32.toInt .int where
  add a b := ⟨a + b, rfl, (wraps_iff (by decide)).2 (a.toInt_add b)⟩
  sub a b := ⟨a - b, rfl, (wraps_iff (by decide)).2 (a.toInt_sub b)⟩
  mul a b := ⟨a * b, rfl, (wraps_iff (by decide)).2 (a.toInt_mul b)⟩
  divByZero a b h := by
    obtain rfl : b = 0 := Int32.toInt_inj.1 h
    exact ⟨rfl, rfl⟩
  divRem a b h := by
    have hb : b ≠ 0 := fun heq => h (congrArg Int32.toInt heq)
    refine ⟨a / b, a % b, by simp [binary, foldInt, hb], by simp [binary, foldInt, hb], ?_⟩
    rw [Int32.toInt_mod]
    exact division_of_tmod h ((wraps_iff (by decide)).2 (a.toInt_div b))
  shl a _ := ⟨_, rfl, wraps_shiftLeft (w := 32) (j := 5) (by decide) a.toBitVec rfl⟩
  shr a _ := ⟨_, rfl, toInt_shiftRight (w := 32) (j := 5) (by decide) a.toBitVec rfl⟩
  ushr a _ := ⟨_, rfl, wraps_ushiftRight (w := 32) (j := 5) (by decide) a.toBitVec rfl⟩
  and a b := ⟨a &&& b, rfl, fun _ => testBit_and a.toBitVec b.toBitVec⟩
  or a b := ⟨a ||| b, rfl, fun _ => testBit_or a.toBitVec b.toBitVec⟩
  xor a b := ⟨a ^^^ b, rfl, fun _ => testBit_xor a.toBitVec b.toBitVec⟩
  neg a := ⟨-a, rfl, (wraps_iff (by decide)).2 a.toInt_neg⟩

private theorem long_foldsExactly : FoldsExactly 64 .long Int64.toInt .long where
  add a b := ⟨a + b, rfl, (wraps_iff (by decide)).2 (a.toInt_add b)⟩
  sub a b := ⟨a - b, rfl, (wraps_iff (by decide)).2 (a.toInt_sub b)⟩
  mul a b := ⟨a * b, rfl, (wraps_iff (by decide)).2 (a.toInt_mul b)⟩
  divByZero a b h := by
    obtain rfl : b = 0 := Int64.toInt_inj.1 h
    exact ⟨rfl, rfl⟩
  divRem a b h := by
    have hb : b ≠ 0 := fun heq => h (congrArg Int64.toInt heq)
    refine ⟨a / b, a % b, by simp [binary, foldLong, hb], by simp [binary, foldLong, hb], ?_⟩
    rw [Int64.toInt_mod]
    exact division_of_tmod h ((wraps_iff (by decide)).2 (a.toInt_div b))
  shl a d := ⟨_, rfl, wraps_shiftLeft (w := 64) (j := 6) (by decide) a.toBitVec d.toInt_toInt64⟩
  shr a d := ⟨_, rfl, toInt_shiftRight (w := 64) (j := 6) (by decide) a.toBitVec d.toInt_toInt64⟩
  ushr a d := ⟨_, rfl, wraps_ushiftRight (w := 64) (j := 6) (by decide) a.toBitVec d.toInt_toInt64⟩
  and a b := ⟨a &&& b, rfl, fun _ => testBit_and a.toBitVec b.toBitVec⟩
  or a b := ⟨a ||| b, rfl, fun _ => testBit_or a.toBitVec b.toBitVec⟩
  xor a b := ⟨a ^^^ b, rfl, fun _ => testBit_xor a.toBitVec b.toBitVec⟩
  neg a := ⟨-a, rfl, (wraps_iff (by decide)).2 a.toInt_neg⟩

end Const

/-! ## Conversions -/

namespace Narrow

def bits : Narrow → Nat
  | byte => 8
  | char | short => 16

def low : Narrow → Int
  | byte => -2 ^ 7
  | char => 0
  | short => -2 ^ 15

end Narrow

namespace Const

private theorem toInt_low_half (v : Int32) :
    v.toUInt32.toUInt16.toUInt32.toInt32.toInt = v.toInt % 2 ^ 16 := by
  have hnat : v.toUInt32.toUInt16.toUInt32.toInt32.toBitVec.toNat = v.toBitVec.toNat % 2 ^ 16 := by
    simp
  have hlt : v.toBitVec.toNat % 2 ^ 16 < 2 ^ 16 := Nat.mod_lt _ (by decide)
  have hvalue : v.toUInt32.toUInt16.toUInt32.toInt32.toInt =
      v.toUInt32.toUInt16.toUInt32.toInt32.toBitVec.toNat :=
    BitVec.toInt_eq_toNat_of_lt (by omega)
  have hword : v.toInt % 2 ^ 32 = v.toBitVec.toNat := toInt_emod (by decide) v.toBitVec
  rw [hvalue, hnat, ← Int.emod_emod_of_dvd v.toInt (by decide : (2 : Int) ^ 16 ∣ 2 ^ 32), hword]
  push_cast
  rfl

private theorem narrow_isResidue (target : Narrow) (v : Int32) :
    ∃ c, narrow target (.int v) = some (.int c) ∧
      IsResidue target.bits target.low v.toInt c.toInt := by
  cases target with
  | byte =>
      refine ⟨v.toInt8.toInt32, rfl, ?_⟩
      rw [Int8.toInt_toInt32, Int32.toInt_toInt8]
      exact wraps_bmod (by decide) v.toInt
  | char =>
      refine ⟨v.toUInt32.toUInt16.toUInt32.toInt32, rfl, ?_⟩
      have hlt : v.toInt % 2 ^ 16 < 0 + 2 ^ 16 := by
        rw [zero_add]
        exact Int.emod_lt_of_pos _ (by decide)
      rw [toInt_low_half]
      exact ⟨Int.mod_modEq _ _, Int.emod_nonneg _ (by decide), hlt⟩
  | short =>
      refine ⟨v.toInt16.toInt32, rfl, ?_⟩
      rw [Int16.toInt_toInt32, Int32.toInt_toInt16]
      exact wraps_bmod (by decide) v.toInt

private theorem long_shift_none {op : BinaryOp} (hop : op.isShift = true) (a : Int64) {c : Const}
    (hc : ∀ d, c ≠ .int d) : binary .long op (.long a) c = none := by
  cases c with
  | int d => exact absurd rfl (hc d)
  | long b =>
      cases op with
      | shl | shr | ushr => rfl
      | _ => cases hop
  | float _ | double _ | string _ | null | classLiteral _ => rfl

/--
Integers of both widths are folded exactly; a `long` is shifted by an `int` and by
nothing else.  Narrowing gives the only value of the target type that is congruent.
-/
theorem integers_fold_exactly :
    FoldsExactly 32 .int Int32.toInt .int ∧ FoldsExactly 64 .long Int64.toInt .long ∧
    (∀ (op : BinaryOp) (a : Int64) (c : Const), op.isShift = true → (∀ d, c ≠ .int d) →
      binary .long op (.long a) c = none) ∧
    (∀ (target : Narrow) (v : Int32), ∃ c : Int32, narrow target (.int v) = some (.int c) ∧
      ∀ n, IsResidue target.bits target.low v.toInt n ↔ n = c.toInt) ∧
    ∀ v : Int64, ∃ c : Int32, convert .long .int (.long v) = some (.int c) ∧
      ∀ n, Wraps 32 v.toInt n ↔ n = c.toInt := by
  refine ⟨int_foldsExactly, long_foldsExactly, fun op a c hop => long_shift_none hop a,
    fun target v => ?_, fun v => ?_⟩
  · obtain ⟨c, hc, hresidue⟩ := narrow_isResidue target v
    exact ⟨c, hc, fun n => hresidue.eq_iff⟩
  · refine ⟨v.toInt32, rfl, fun n => ?_⟩
    rw [wraps_iff (by decide), v.toInt_toInt32]

/-- The quotient that is out of range, a negative distance, and a distance of the wrong kind. -/
theorem folding_corners :
    binary .int .div (.int Int32.minValue) (.int (-1)) = some (.int Int32.minValue) ∧
      Division 32 Int32.minValue.toInt (-1) Int32.minValue.toInt 0 ∧
      binary .long .ushr (.long (-1)) (.int (-4)) = some (.long 15) ∧
      Wraps 64 ((-1) % 2 ^ 64 / 2 ^ 60) 15 ∧
      binary .long .shl (.long 1) (.long 1) = none ∧
      (∀ n, IsResidue 16 0 (-1) n ↔ n = 65535) := by
  obtain ⟨hint, hlong, hother, hnarrow, _⟩ := integers_fold_exactly
  obtain ⟨q, r, hq, hr, hdivision⟩ := hint.divRem Int32.minValue (-1) (by decide)
  obtain ⟨u, hu, hwraps⟩ := hlong.ushr (-1) (-4)
  obtain ⟨c, hc, hresidue⟩ := hnarrow .char (-1)
  cases hq
  cases hr
  cases hu
  cases hc
  exact ⟨by decide, hdivision, by decide, hwraps, hother _ _ _ rfl (by simp), hresidue⟩

end Const

end FrameFlow

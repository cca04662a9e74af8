import FrameFlow.Binary.Arithmetic
import FrameFlow.Const
import FrameFlow.Operator

/-!
# Folding

Arithmetic on constants.  Integers wrap around, floating point results are
rounded once.  A fold is `none` when the operands do not have the kind asked
for, or when the operation has no result: an integer division by zero.
-/

namespace FrameFlow.Const

open FrameFlow.Binary (Format)

/-! ## Integers -/

def foldInt (op : BinaryOp) (a b : Int32) : Option Int32 :=
  match op with
  | .add => some (a + b)
  | .sub => some (a - b)
  | .mul => some (a * b)
  | .div => if b = 0 then none else some (a / b)
  | .rem => if b = 0 then none else some (a % b)
  | .shl => some (a <<< (b &&& 31))
  | .shr => some (a >>> (b &&& 31))
  | .ushr => some (a.toUInt32 >>> (b &&& 31).toUInt32).toInt32
  | .and => some (a &&& b)
  | .or => some (a ||| b)
  | .xor => some (a ^^^ b)

/-- Shifts are not among these: their distance is an `int`. -/
def foldLong (op : BinaryOp) (a b : Int64) : Option Int64 :=
  match op with
  | .add => some (a + b)
  | .sub => some (a - b)
  | .mul => some (a * b)
  | .div => if b = 0 then none else some (a / b)
  | .rem => if b = 0 then none else some (a % b)
  | .and => some (a &&& b)
  | .or => some (a ||| b)
  | .xor => some (a ^^^ b)
  | .shl | .shr | .ushr => none

def foldLongShift (op : BinaryOp) (a : Int64) (distance : Int32) : Option Int64 :=
  let k := distance.toInt64 &&& 63
  match op with
  | .shl => some (a <<< k)
  | .shr => some (a >>> k)
  | .ushr => some (a.toUInt64 >>> k.toUInt64).toInt64
  | .add | .sub | .mul | .div | .rem | .and | .or | .xor => none

/-! ## Floating point -/

def foldWord (f : Format) (op : BinaryOp) (a b : Nat) : Option Nat :=
  match op with
  | .add => some (f.add a b)
  | .sub => some (f.sub a b)
  | .mul => some (f.mul a b)
  | .div => some (f.div a b)
  | .rem => some (f.rem a b)
  | .shl | .shr | .ushr | .and | .or | .xor => none

/-! ## Instructions -/

def binary (kind : Kind) (op : BinaryOp) (lhs rhs : Const) : Option Const :=
  match kind, lhs, rhs with
  | .int, .int a, .int b => (foldInt op a b).map .int
  | .long, .long a, .int b => (foldLongShift op a b).map .long
  | .long, .long a, .long b => (foldLong op a b).map .long
  | .float, .float a, .float b =>
      (foldWord .single op a.toNat b.toNat).map fun w => .float w.toUInt32
  | .double, .double a, .double b =>
      (foldWord .double op a.toNat b.toNat).map fun w => .double w.toUInt64
  | _, _, _ => none

def negate (kind : Kind) (c : Const) : Option Const :=
  match kind, c with
  | .int, .int v => some (.int (-v))
  | .long, .long v => some (.long (-v))
  | .float, .float w => some (.float (Format.single.neg w.toNat).toUInt32)
  | .double, .double w => some (.double (Format.double.neg w.toNat).toUInt64)
  | _, _ => none

def truncateInt (f : Format) (w : Nat) : Int32 :=
  Int32.ofInt (f.truncate Int32.minValue.toInt Int32.maxValue.toInt w)

def truncateLong (f : Format) (w : Nat) : Int64 :=
  Int64.ofInt (f.truncate Int64.minValue.toInt Int64.maxValue.toInt w)

def convert (source target : Kind) (c : Const) : Option Const :=
  match source, c, target with
  | .int, .int v, .long => some (.long v.toInt64)
  | .int, .int v, .float => some (.float (Format.single.ofInt v.toInt).toUInt32)
  | .int, .int v, .double => some (.double (Format.double.ofInt v.toInt).toUInt64)
  | .long, .long v, .int => some (.int v.toInt32)
  | .long, .long v, .float => some (.float (Format.single.ofInt v.toInt).toUInt32)
  | .long, .long v, .double => some (.double (Format.double.ofInt v.toInt).toUInt64)
  | .float, .float w, .int => some (.int (truncateInt .single w.toNat))
  | .float, .float w, .long => some (.long (truncateLong .single w.toNat))
  | .float, .float w, .double =>
      some (.double (Format.single.convertTo .double w.toNat).toUInt64)
  | .double, .double w, .int => some (.int (truncateInt .double w.toNat))
  | .double, .double w, .long => some (.long (truncateLong .double w.toNat))
  | .double, .double w, .float =>
      some (.float (Format.double.convertTo .single w.toNat).toUInt32)
  | _, _, _ => none

def narrow (target : Narrow) (c : Const) : Option Const :=
  match c with
  | .int v =>
      match target with
      | .byte => some (.int v.toInt8.toInt32)
      | .char => some (.int v.toUInt32.toUInt16.toUInt32.toInt32)
      | .short => some (.int v.toInt16.toInt32)
  | _ => none

def orderingCode : Ordering → Int32
  | .lt => -1
  | .eq => 0
  | .gt => 1

def compareCode (op : CompareOp) (ordering : Option Ordering) : Int32 :=
  match ordering with
  | some o => orderingCode o
  | none => op.unordered

def compare (op : CompareOp) (lhs rhs : Const) : Option Const :=
  match op.operandKind, lhs, rhs with
  | .long, .long a, .long b =>
      some (.int (orderingCode (Ord.compare a.toInt b.toInt)))
  | .float, .float a, .float b =>
      some (.int (compareCode op (Format.single.compare a.toNat b.toNat)))
  | .double, .double a, .double b =>
      some (.int (compareCode op (Format.double.compare a.toNat b.toNat)))
  | _, _, _ => none

end FrameFlow.Const

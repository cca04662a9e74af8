import FrameFlow.Width
import FrameFlow.Decimal.Shortest
import FrameFlow.Text.Quoted

/-!
# Constants

Floating point constants are carried as the words of their formats, so two
constants are equal exactly when their bits are.
-/

namespace FrameFlow

inductive Const where
  | int (value : Int32)
  | long (value : Int64)
  | float (word : UInt32)
  | double (word : UInt64)
  | string (value : String)
  | null
  | classLiteral (name : String)
  deriving DecidableEq, Repr

namespace Const

def kind : Const → Kind
  | int _ => .int
  | long _ => .long
  | float _ => .float
  | double _ => .double
  | string _ | null | classLiteral _ => .reference

def width (c : Const) : Width :=
  c.kind.width

def int? : Const → Option Int32
  | int v => some v
  | _ => none

/-- Floating point constants are positional from `1e-4` up to `1e16`. -/
def layout : Decimal.Layout where
  positionalFrom := -4
  positionalTo := 15
  infinity := "inf"
  notANumber := "NaN"

def text : Const → String
  | int v => String.ofList (Decimal.intChars v.toInt)
  | long v => String.ofList (Decimal.intChars v.toInt ++ ['L'])
  | float w => layout.text .single w.toNat ++ "f"
  | double w => layout.text .double w.toNat ++ "d"
  | string s => Text.quoted s
  | null => "null"
  | classLiteral name => name ++ ".class"

end Const

end FrameFlow

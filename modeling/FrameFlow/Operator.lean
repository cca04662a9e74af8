import FrameFlow.Width

/-!
# Operators

The operators that instructions apply to the values on the stack.
-/

namespace FrameFlow

inductive BinaryOp where
  | add
  | sub
  | mul
  | div
  | rem
  | shl
  | shr
  | ushr
  | and
  | or
  | xor
  deriving DecidableEq, Repr

namespace BinaryOp

/-- A shift takes its distance as an `int`, whatever it shifts. -/
def isShift : BinaryOp → Bool
  | shl | shr | ushr => true
  | add | sub | mul | div | rem | and | or | xor => false

def text : BinaryOp → String
  | add => "add"
  | sub => "sub"
  | mul => "mul"
  | div => "div"
  | rem => "rem"
  | shl => "shl"
  | shr => "shr"
  | ushr => "ushr"
  | and => "and"
  | or => "or"
  | xor => "xor"

end BinaryOp

/--
Three-way comparisons.  The two floating point forms of each width differ in
their answer when an operand is not a number.
-/
inductive CompareOp where
  | lcmp
  | fcmpl
  | fcmpg
  | dcmpl
  | dcmpg
  deriving DecidableEq, Repr

namespace CompareOp

def operandKind : CompareOp → Kind
  | lcmp => .long
  | fcmpl | fcmpg => .float
  | dcmpl | dcmpg => .double

def unordered : CompareOp → Int32
  | fcmpg | dcmpg => 1
  | lcmp | fcmpl | dcmpl => -1

def text : CompareOp → String
  | lcmp => "lcmp"
  | fcmpl => "fcmpl"
  | fcmpg => "fcmpg"
  | dcmpl => "dcmpl"
  | dcmpg => "dcmpg"

end CompareOp

inductive Narrow where
  | byte
  | char
  | short
  deriving DecidableEq, Repr

def Narrow.text : Narrow → String
  | byte => "Byte"
  | char => "Char"
  | short => "Short"

inductive Condition where
  | eq
  | ne
  | lt
  | ge
  | gt
  | le
  | null
  | nonNull
  deriving DecidableEq, Repr

def Condition.text : Condition → String
  | eq => "Eq"
  | ne => "Ne"
  | lt => "Lt"
  | ge => "Ge"
  | gt => "Gt"
  | le => "Le"
  | null => "Null"
  | nonNull => "NonNull"

end FrameFlow

import FrameFlow.Insn
import FrameFlow.Text.Listed

/-!
# Listing instructions

The mnemonic of an instruction, and its text with the operands.  Positions in
code are written with a number sign.
-/

namespace FrameFlow

def positionText (position : Nat) : String :=
  s!"#{position}"

def positionLongText (position : Nat) : String :=
  s!"InsnId({position})"

def StackOp.text : StackOp → String
  | pop => "pop"
  | pop2 => "pop2"
  | dup => "dup"
  | dupX1 => "dup_x1"
  | dupX2 => "dup_x2"
  | dup2 => "dup2"
  | dup2X1 => "dup2_x1"
  | dup2X2 => "dup2_x2"
  | swap => "swap"

def FieldAccess.text : FieldAccess → String
  | getStatic => "getstatic"
  | putStatic => "putstatic"
  | getField => "getfield"
  | putField => "putfield"

def InvokeKind.text : InvokeKind → String
  | static => "invokestatic"
  | virtual => "invokevirtual"
  | special => "invokespecial"
  | interface => "invokeinterface"

def Flow.text : Flow → String
  | sequential => "Sequential"
  | conditional => "ConditionalBranch"
  | unconditional => "UnconditionalBranch"
  | switch => "Switch"
  | ret => "Return"
  | throw => "Throw"

namespace Insn

def mnemonic {τ : Type} : Insn τ → String
  | nop => "nop"
  | const _ => "const"
  | load _ _ => "load"
  | store _ _ => "store"
  | increment _ _ => "iinc"
  | binary _ _ => "binary"
  | negate _ => "neg"
  | convert _ _ => "convert"
  | narrow _ => "narrow"
  | compare _ => "compare"
  | stack op => op.text
  | branch _ _ => "if"
  | branchCompare _ _ _ => "if_cmp"
  | jump _ => "goto"
  | switch _ _ => "switch"
  | ret _ => "return"
  | throw => "athrow"
  | field access _ => access.text
  | invoke kind _ => kind.text
  | new _ => "new"
  | newArray _ => "newarray"
  | newMultiArray _ _ => "multianewarray"
  | arrayLength => "arraylength"
  | arrayLoad _ => "arrayload"
  | arrayStore _ => "arraystore"
  | checkCast _ => "checkcast"
  | instanceOf _ => "instanceof"
  | monitorEnter => "monitorenter"
  | monitorExit => "monitorexit"

def intText (n : Int32) : String :=
  String.ofList (Decimal.intChars n.toInt)

def caseText (key : Int32) (target : Nat) : String :=
  s!"{intText key} => {positionText target}"

def switchText (fallback : Nat) (cases : List (Int32 × Nat)) : String :=
  Text.listed (s!"switch default {positionText fallback}" ::
    cases.map fun (key, target) => caseText key target)

def text (insn : Insn Nat) : String :=
  match insn with
  | const c => s!"const {c.text}"
  | load kind slot => s!"load {kind.text} {slot}"
  | store kind slot => s!"store {kind.text} {slot}"
  | increment slot delta => s!"iinc {slot} {intText delta}"
  | binary kind op => s!"{op.text} {kind.text}"
  | negate kind => s!"neg {kind.text}"
  | convert source target => s!"convert {source.text} -> {target.text}"
  | narrow target => s!"narrow {target.text}"
  | compare op => op.text
  | branch condition target => s!"if {condition.text} {positionText target}"
  | branchCompare kind condition target =>
      s!"if_cmp {kind.text} {condition.text} {positionText target}"
  | jump target => s!"goto {positionText target}"
  | switch fallback cases => switchText fallback cases
  | ret (some kind) => s!"return {kind.text}"
  | field access ref => s!"{access.text} {ref.text}"
  | invoke kind method => s!"{kind.text} {method.text}"
  | new className | newArray className | checkCast className | instanceOf className =>
      s!"{insn.mnemonic} {className}"
  | newMultiArray descriptor dimensions => s!"multianewarray {descriptor} {dimensions}"
  | arrayLoad kind => s!"arrayload {kind.text}"
  | arrayStore kind => s!"arraystore {kind.text}"
  | nop | stack _ | ret none | throw | arrayLength | monitorEnter | monitorExit =>
      insn.mnemonic

end Insn

end FrameFlow

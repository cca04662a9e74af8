import FrameFlow.Const
import FrameFlow.Member
import FrameFlow.Operator

/-!
# Instructions

Instructions of the stack machine.  The type of jump targets is a parameter:
it is a position in finished code and a label or a position in code that is
still being assembled.
-/

namespace FrameFlow

inductive StackOp where
  | pop
  | pop2
  | dup
  | dupX1
  | dupX2
  | dup2
  | dup2X1
  | dup2X2
  | swap
  deriving DecidableEq, Repr

inductive FieldAccess where
  | getStatic
  | putStatic
  | getField
  | putField
  deriving DecidableEq, Repr

inductive InvokeKind where
  | static
  | virtual
  | special
  | interface
  deriving DecidableEq, Repr

inductive Insn (τ : Type) where
  | nop
  | const (value : Const)
  | load (kind : Kind) (slot : Nat)
  | store (kind : Kind) (slot : Nat)
  | increment (slot : Nat) (delta : Int32)
  | binary (kind : Kind) (op : BinaryOp)
  | negate (kind : Kind)
  | convert (source target : Kind)
  | narrow (target : Narrow)
  | compare (op : CompareOp)
  | stack (op : StackOp)
  | branch (condition : Condition) (target : τ)
  | branchCompare (kind : Kind) (condition : Condition) (target : τ)
  | jump (target : τ)
  | switch (fallback : τ) (cases : List (Int32 × τ))
  | ret (kind : Option Kind)
  | throw
  | field (access : FieldAccess) (ref : FieldRef)
  | invoke (kind : InvokeKind) (method : MethodRef)
  | new (className : String)
  | newArray (element : String)
  | newMultiArray (descriptor : String) (dimensions : Nat)
  | arrayLength
  | arrayLoad (kind : Kind)
  | arrayStore (kind : Kind)
  | checkCast (className : String)
  | instanceOf (className : String)
  | monitorEnter
  | monitorExit
  deriving DecidableEq, Repr

inductive Flow where
  | sequential
  | conditional
  | unconditional
  | switch
  | ret
  | throw
  deriving DecidableEq, Repr

namespace Insn

variable {τ υ ε : Type}

def flow : Insn τ → Flow
  | branch _ _ | branchCompare _ _ _ => .conditional
  | jump _ => .unconditional
  | switch _ _ => .switch
  | ret _ => .ret
  | throw => .throw
  | _ => .sequential

/-- Explicit jump targets; of a switch the fallback comes first. -/
def targets : Insn τ → List τ
  | branch _ t | branchCompare _ _ t | jump t => [t]
  | switch fallback cases => fallback :: cases.map Prod.snd
  | _ => []

def fallsThrough (insn : Insn τ) : Bool :=
  match insn.flow with
  | .sequential | .conditional => true
  | .unconditional | .switch | .ret | .throw => false

def endsBlock (insn : Insn τ) : Bool :=
  insn.flow != .sequential

def resolveCases (f : τ → Except ε υ) : List (Int32 × τ) → Except ε (List (Int32 × υ))
  | [] => .ok []
  | (key, t) :: rest =>
      match f t with
      | .error e => .error e
      | .ok u =>
          match resolveCases f rest with
          | .error e => .error e
          | .ok done => .ok ((key, u) :: done)

/-- Replaces every jump target, in the order of `targets`; the first failure wins. -/
def resolve (f : τ → Except ε υ) : Insn τ → Except ε (Insn υ)
  | branch condition t => (f t).map (branch condition)
  | branchCompare kind condition t => (f t).map (branchCompare kind condition)
  | jump t => (f t).map jump
  | switch fallback cases =>
      match f fallback with
      | .error e => .error e
      | .ok u => (resolveCases f cases).map (switch u)
  | nop => .ok nop
  | const c => .ok (const c)
  | load kind slot => .ok (load kind slot)
  | store kind slot => .ok (store kind slot)
  | increment slot delta => .ok (increment slot delta)
  | binary kind op => .ok (binary kind op)
  | negate kind => .ok (negate kind)
  | convert source target => .ok (convert source target)
  | narrow target => .ok (narrow target)
  | compare op => .ok (compare op)
  | stack op => .ok (stack op)
  | ret kind => .ok (ret kind)
  | throw => .ok throw
  | field access ref => .ok (field access ref)
  | invoke kind method => .ok (invoke kind method)
  | new className => .ok (new className)
  | newArray element => .ok (newArray element)
  | newMultiArray descriptor dimensions => .ok (newMultiArray descriptor dimensions)
  | arrayLength => .ok arrayLength
  | arrayLoad kind => .ok (arrayLoad kind)
  | arrayStore kind => .ok (arrayStore kind)
  | checkCast className => .ok (checkCast className)
  | instanceOf className => .ok (instanceOf className)
  | monitorEnter => .ok monitorEnter
  | monitorExit => .ok monitorExit

/-- The number of local slots needed so that every slot the instruction names exists. -/
def localSlots : Insn τ → Nat
  | load kind slot | store kind slot => slot + kind.width.slots
  | increment slot _ => slot + 1
  | _ => 0

end Insn

end FrameFlow

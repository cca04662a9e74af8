import FrameFlow.Frame
import FrameFlow.Host
import FrameFlow.Method

/-!
# Errors

Everything that can go wrong, by cause, with the wording in one place.
-/

namespace FrameFlow

inductive GraphFault where
  | noCode
  | emptyRange (start stop : Nat)
  | rangeOutside (start stop entry length : Nat)
  | jumpOutside (target length : Nat)
  | fallsOff
  deriving DecidableEq, Repr

def GraphFault.text : GraphFault → String
  | noCode => "method has no instructions"
  | emptyRange start stop =>
      s!"empty handler range {positionText start}..{positionText stop}"
  | rangeOutside start stop entry length =>
      s!"handler range {positionText start}..{positionText stop} -> " ++
        s!"{positionText entry} outside code of length {length}"
  | jumpOutside target length =>
      s!"jump target {positionText target} outside code of length {length}"
  | fallsOff => "execution falls off the end of the code"

inductive ConfigFault where
  | simulationWithoutHost
  | memoWithoutHost
  deriving DecidableEq, Repr

def ConfigFault.text : ConfigFault → String
  | simulationWithoutHost => "simulated values require an invocation host"
  | memoWithoutHost => "caching simulations requires an invocation host"

inductive Error where
  | malformed (cause : Malformed)
  | slotCount (slots : Nat)
  | widthClash (left right : Width)
  | descriptor (cause : DescriptorError)
  | duplicateLabel (name : String)
  | undefinedLabel (name : String)
  | graph (position : Nat) (fault : GraphFault)
  | frame (position : Nat) (cause : FrameError)
  | simulation (failure : Failure)
  | config (fault : ConfigFault)
  deriving DecidableEq, Repr

namespace Error

def text : Error → String
  | malformed cause => cause.text
  | slotCount slots => s!"Invalid slot size {slots} - values occupy one or two slots"
  | widthClash left right =>
      s!"Cannot join values occupying {left.text} and {right.text} slots"
  | descriptor cause => cause.text
  | duplicateLabel name => s!"Label '{name}' is defined more than once"
  | undefinedLabel name => s!"Label '{name}' is referenced but never defined"
  | graph position fault => s!"Malformed code at {positionText position}: {fault.text}"
  | frame position cause => s!"Invalid frame at {positionText position}: {cause.text}"
  | simulation failure => failure.text
  | config fault => s!"Invalid analyzer configuration - {fault.text}"

def position? : Error → Option Nat
  | graph position _ | frame position _ => some position
  | simulation failure => some failure.position
  | _ => none

/-- Only a failed simulation can be tolerated. -/
def isResolvable : Error → Bool
  | simulation _ => true
  | _ => false

end Error

def Width.ofSlots (slots : Nat) : Except Error Width :=
  match Width.ofSlots? slots with
  | some w => .ok w
  | none => .error (.slotCount slots)

def Value.join (a b : Value) : Except Error Value :=
  match a.join? b with
  | some v => .ok v
  | none => .error (.widthClash a.width b.width)

def Value.joinAll : List Value → Except Error (Option Value)
  | [] => .ok none
  | v :: vs => (vs.foldlM Value.join v).map some

end FrameFlow

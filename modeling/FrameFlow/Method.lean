import FrameFlow.Insn.Listing

/-!
# Methods

A method has a header, its code and a table of handlers.  Its local table has
to hold the receiver, if there is one, and the parameters, each at the slot
after the ones before it.
-/

namespace FrameFlow

/-- Flags of a method; only three of the bits mean something here. -/
structure Access where
  bits : UInt16
  deriving DecidableEq, Repr

namespace Access

def isStatic (a : Access) : Bool :=
  a.bits &&& 0x8 != 0

def isBridge (a : Access) : Bool :=
  a.bits &&& 0x40 != 0

def isSynthetic (a : Access) : Bool :=
  a.bits &&& 0x1000 != 0

def publicStatic : Access := ⟨0x9⟩

end Access

/-- Control goes to `entry` when an instruction from `start` to before `stop` throws. -/
structure Handler (τ : Type) where
  start : τ
  stop : τ
  entry : τ
  catchClass : Option String
  deriving DecidableEq, Repr

namespace Handler

def covers (h : Handler Nat) (position : Nat) : Bool :=
  h.start ≤ position && position < h.stop

def thrownClass (catchClass : Option String) : String :=
  catchClass.getD "java/lang/Throwable"

def text (h : Handler Nat) : String :=
  let caught := h.catchClass.getD "*"
  s!"try {positionText h.start}..{positionText h.stop} catch {caught} -> {positionText h.entry}"

end Handler

structure Method where
  owner : String
  name : String
  type : MethodType
  access : Access
  maxLocals : Nat
  maxStack : Option Nat
  code : Array (Insn Nat)
  handlers : List (Handler Nat)
  deriving DecidableEq, Repr

inductive Malformed where
  | localsTooFew (method : String) (declared required : Nat)
  | localsTooMany (method : String)
  deriving DecidableEq, Repr

def Malformed.text : Malformed → String
  | localsTooFew method declared required =>
      s!"{method} declares {declared} locals but its arguments need {required}"
  | localsTooMany method => s!"Local table of {method} exceeds u16 range"

/-- Parameters with the slots they arrive in, the first at `slot`. -/
def parametersFrom (slot : Nat) : List FieldType → List (Nat × FieldType)
  | [] => []
  | t :: ts => (slot, t) :: parametersFrom (slot + t.width.slots) ts

namespace Method

def id (m : Method) : String :=
  s!"{m.owner}.{m.name}{m.type.text}"

def receiverSlots (access : Access) : Nat :=
  if access.isStatic then 0 else 1

def argumentSlots (m : Method) : Nat :=
  receiverSlots m.access + m.type.paramSlots

def parameters (m : Method) : List (Nat × FieldType) :=
  parametersFrom (receiverSlots m.access) m.type.params

def checkLocals (m : Method) : Except Malformed Unit :=
  if m.argumentSlots ≤ m.maxLocals then .ok ()
  else .error (.localsTooFew m.id m.maxLocals m.argumentSlots)

def checked (m : Method) : Except Malformed Method :=
  match m.checkLocals with
  | .ok () => .ok m
  | .error e => .error e

def codeLines : Nat → List (Insn Nat) → List String
  | _, [] => []
  | position, insn :: rest =>
      s!"  {positionText position}: {insn.text}\n" :: codeLines (position + 1) rest

def text (m : Method) : String :=
  let header := s!"{m.id} [locals={m.maxLocals}]\n"
  let handlers := m.handlers.map fun h => s!"  {h.text}\n"
  String.join (header :: (codeLines 0 m.code.toList ++ handlers))

end Method

end FrameFlow

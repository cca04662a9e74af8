import FrameFlow.Text.Listed
import FrameFlow.Value

/-!
# Frames

A frame holds a table of local slots and an operand stack, kept with its top
first, and perhaps a limit on the slots of the stack.  A value of two slots in
the table sits at its first slot and leaves the second one empty.
-/

namespace FrameFlow

inductive FrameError where
  | stackUnderflow
  | stackOverflow (limit : Nat)
  | noSuchLocal (index size : Nat)
  | emptyLocal (index : Nat)
  | wrongWidth (expected found : Width)
  | incompatibleStacks (left right : List Value)
  deriving DecidableEq, Repr

def stackText (stack : List Value) : String :=
  s!"[{Text.listed (stack.reverse.map Value.text)}]"

def FrameError.text : FrameError → String
  | stackUnderflow => "Operand stack underflow"
  | stackOverflow limit => s!"Operand stack overflow - limit is {limit} slots"
  | noSuchLocal index size =>
      s!"Local {index} is outside the local table of {size} slots"
  | emptyLocal index => s!"Local {index} holds no value"
  | wrongWidth expected found =>
      s!"Expected a {expected.text}-slot value, found a {found.text}-slot value"
  | incompatibleStacks left right =>
      s!"Incompatible stacks at merge - {stackText left} vs {stackText right}"

structure Frame where
  locals : List (Option Value)
  stack : List Value
  limit : Option Nat
  deriving DecidableEq, Repr

namespace Frame

def empty (localCount : Nat) (limit : Option Nat) : Frame :=
  ⟨List.replicate localCount none, [], limit⟩

/-! ## The operand stack -/

def stackSlots (F : Frame) : Nat :=
  Width.total (F.stack.map Value.width)

def peek? (F : Frame) (depth : Nat) : Option Value :=
  F.stack[depth]?

def top? (F : Frame) : Option Value :=
  F.stack.head?

def push (F : Frame) (v : Value) : Except FrameError Frame :=
  match F.limit with
  | none => .ok { F with stack := v :: F.stack }
  | some limit =>
      if F.stackSlots + v.width.slots ≤ limit then .ok { F with stack := v :: F.stack }
      else .error (.stackOverflow limit)

def pushAll (F : Frame) : List Value → Except FrameError Frame
  | [] => .ok F
  | v :: vs =>
      match F.push v with
      | .ok G => G.pushAll vs
      | .error e => .error e

def pop (F : Frame) : Except FrameError (Value × Frame) :=
  match F.stack with
  | [] => .error .stackUnderflow
  | v :: rest => .ok (v, { F with stack := rest })

/-- Takes off the top value, which is gone even if it turns out to have the wrong width. -/
def takeWidth (F : Frame) (w : Width) : Except FrameError Value × Frame :=
  match F.stack with
  | [] => (.error .stackUnderflow, F)
  | v :: rest =>
      (if v.width = w then .ok v else .error (.wrongWidth w v.width), { F with stack := rest })

def popWidth (F : Frame) (w : Width) : Except FrameError (Value × Frame) :=
  match F.takeWidth w with
  | (.ok v, G) => .ok (v, G)
  | (.error e, _) => .error e

/-- Takes off `count` values, returned in the order they were pushed. -/
def popMany (F : Frame) (count : Nat) : Except FrameError (List Value × Frame) :=
  if count ≤ F.stack.length then
    .ok ((F.stack.take count).reverse, { F with stack := F.stack.drop count })
  else .error .stackUnderflow

def clearStack (F : Frame) : Frame :=
  { F with stack := [] }

/-! ## The local table -/

def readLocal (F : Frame) (index : Nat) : Except FrameError Value :=
  match F.locals[index]? with
  | none => .error (.noSuchLocal index F.locals.length)
  | some none => .error (.emptyLocal index)
  | some (some v) => .ok v

def isWideAt (locals : List (Option Value)) (index : Nat) : Bool :=
  match locals[index]? with
  | some (some v) => v.width = .two
  | _ => false

/-- Empties the slot before `index` if a value reaches from there into `index`. -/
def cutBelow (locals : List (Option Value)) : Nat → List (Option Value)
  | 0 => locals
  | index + 1 => if isWideAt locals index then locals.set index none else locals

def placeLocal (locals : List (Option Value)) (index : Nat) (v : Value) :
    List (Option Value) :=
  let cut := cutBelow locals index
  let cleared := match v.width with
    | .one => cut
    | .two => cut.set (index + 1) none
  cleared.set index (some v)

/--
Slots are counted without a bound: that the end of the value might not be a machine
word, where an implementation in words would stop, is left out.
-/
def writeLocal (F : Frame) (index : Nat) (v : Value) : Except FrameError Frame :=
  if index + v.width.slots ≤ F.locals.length then
    .ok { F with locals := placeLocal F.locals index v }
  else .error (.noSuchLocal (index + v.width.slots - 1) F.locals.length)

/-! ## Text -/

def localText : Option Value → String
  | none => "-"
  | some v => v.text

def text (F : Frame) : String :=
  s!"locals [{Text.listed (F.locals.map localText)}] stack {stackText F.stack}"

end Frame

end FrameFlow

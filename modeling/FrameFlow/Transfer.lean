import FrameFlow.Config
import FrameFlow.Const.Folding

/-!
# The effect of instructions on frames

`Insn.effect` is what an instruction does to a frame when nothing is known
about other classes.  `Config.transfer` asks the configured sources and the
host about static fields and static calls first.
-/

namespace FrameFlow

/-! ## Operands -/

namespace Frame

def popWidths (F : Frame) : List Width → Except FrameError (List Value × Frame)
  | [] => .ok ([], F)
  | w :: ws =>
      match F.popWidths ws with
      | .error e => .error e
      | .ok (vs, G) =>
          match G.popWidth w with
          | .error e => .error e
          | .ok (v, H) => .ok (v :: vs, H)

def dropWidths (F : Frame) (ws : List Width) : Except FrameError Frame :=
  match F.popWidths ws with
  | .error e => .error e
  | .ok (_, G) => .ok G

def pushResult (F : Frame) : Option Value → Except FrameError Frame
  | none => .ok F
  | some v => F.push v

def readWidth (F : Frame) (index : Nat) (w : Width) : Except FrameError Value :=
  match F.readLocal index with
  | .error e => .error e
  | .ok v => if v.width = w then .ok v else .error (.wrongWidth w v.width)

end Frame

namespace Value

def ofFold (c : Option Const) (w : Width) : Value :=
  match c with
  | some c => .const c
  | none => .unresolved w

def fold₁ (f : Const → Option Const) (a : Value) : Option Const :=
  match a.const? with
  | some c => f c
  | none => none

def fold₂ (f : Const → Const → Option Const) (a b : Value) : Option Const :=
  match a.const?, b.const? with
  | some c, some d => f c d
  | _, _ => none

/-- The class test is known to fail for null, and to hold for objects of the class itself. -/
def instanceTest (v : Value) (className : String) : Value :=
  match v with
  | .const .null => .const (.int 0)
  | .const (.string _) =>
      if className = "java/lang/String" then .const (.int 1) else .unresolved .one
  | .ref actual => if actual = className then .const (.int 1) else .unresolved .one
  | _ => .unresolved .one

end Value

namespace MethodRef

def paramWidths (m : MethodRef) : List Width :=
  m.type.params.map FieldType.width

def unresolvedResult (m : MethodRef) : Option Value :=
  m.resultWidth?.map .unresolved

end MethodRef

/-! ## Stack instructions -/

/-- Values are pushed back in the order written, the last one on top. -/
def StackOp.effect (op : StackOp) (F : Frame) : Except FrameError Frame :=
  match op with
  | .pop => do
      let (_, F) ← F.popWidth .one
      return F
  | .pop2 => do
      let (v₁, F) ← F.pop
      match v₁.width with
      | .two => return F
      | .one =>
          let (_, F) ← F.popWidth .one
          return F
  | .dup => do
      let (v₁, F) ← F.popWidth .one
      F.pushAll [v₁, v₁]
  | .dupX1 => do
      let (v₁, F) ← F.popWidth .one
      let (v₂, F) ← F.popWidth .one
      F.pushAll [v₁, v₂, v₁]
  | .dupX2 => do
      let (v₁, F) ← F.popWidth .one
      let (v₂, F) ← F.pop
      match v₂.width with
      | .two => F.pushAll [v₁, v₂, v₁]
      | .one =>
          let (v₃, F) ← F.popWidth .one
          F.pushAll [v₁, v₃, v₂, v₁]
  | .dup2 => do
      let (v₁, F) ← F.pop
      match v₁.width with
      | .two => F.pushAll [v₁, v₁]
      | .one =>
          let (v₂, F) ← F.popWidth .one
          F.pushAll [v₂, v₁, v₂, v₁]
  | .dup2X1 => do
      let (v₁, F) ← F.pop
      let (v₂, F) ← F.popWidth .one
      match v₁.width with
      | .two => F.pushAll [v₁, v₂, v₁]
      | .one =>
          let (v₃, F) ← F.popWidth .one
          F.pushAll [v₂, v₁, v₃, v₂, v₁]
  | .dup2X2 => do
      let (v₁, F) ← F.pop
      match v₁.width with
      | .two =>
          let (v₂, F) ← F.pop
          match v₂.width with
          | .two => F.pushAll [v₁, v₂, v₁]
          | .one =>
              let (v₃, F) ← F.popWidth .one
              F.pushAll [v₁, v₃, v₂, v₁]
      | .one =>
          let (v₂, F) ← F.popWidth .one
          let (v₃, F) ← F.pop
          match v₃.width with
          | .two => F.pushAll [v₂, v₁, v₃, v₂, v₁]
          | .one =>
              let (v₄, F) ← F.popWidth .one
              F.pushAll [v₂, v₁, v₄, v₃, v₂, v₁]
  | .swap => do
      let (v₁, F) ← F.popWidth .one
      let (v₂, F) ← F.popWidth .one
      F.pushAll [v₁, v₂]

/-! ## All instructions -/

def FieldAccess.effect (access : FieldAccess) (f : FieldRef) (F : Frame) :
    Except FrameError Frame :=
  match access with
  | .getStatic => F.push (.unresolved f.width)
  | .putStatic => F.dropWidths [f.width]
  | .getField => do
      let F ← F.dropWidths [.one]
      F.push (.unresolved f.width)
  | .putField => F.dropWidths [.one, f.width]

def InvokeKind.effect (kind : InvokeKind) (m : MethodRef) (F : Frame) :
    Except FrameError Frame := do
  let F ← match kind with
    | .static => F.dropWidths m.paramWidths
    | .virtual | .special | .interface => F.dropWidths (.one :: m.paramWidths)
  F.pushResult m.unresolvedResult

def BinaryOp.rightWidth (op : BinaryOp) (kind : Kind) : Width :=
  if op.isShift then .one else kind.width

namespace Insn

variable {τ : Type}

def effect (insn : Insn τ) (F : Frame) : Except FrameError Frame :=
  match insn with
  | nop | jump _ | ret none => .ok F
  | const c => F.push (.const c)
  | load kind slot => do
      let v ← F.readWidth slot kind.width
      F.push v
  | store kind slot => do
      let (v, F) ← F.popWidth kind.width
      F.writeLocal slot v
  | increment slot delta => do
      let v ← F.readWidth slot .one
      let sum := v.fold₁ fun c => Const.binary .int .add c (.int delta)
      F.writeLocal slot (.ofFold sum .one)
  | binary kind op => do
      let (rhs, F) ← F.popWidth (op.rightWidth kind)
      let (lhs, F) ← F.popWidth kind.width
      F.push (.ofFold (lhs.fold₂ (Const.binary kind op) rhs) kind.width)
  | negate kind => do
      let (v, F) ← F.popWidth kind.width
      F.push (.ofFold (v.fold₁ (Const.negate kind)) kind.width)
  | convert source target => do
      let (v, F) ← F.popWidth source.width
      F.push (.ofFold (v.fold₁ (Const.convert source target)) target.width)
  | narrow target => do
      let (v, F) ← F.popWidth .one
      F.push (.ofFold (v.fold₁ (Const.narrow target)) .one)
  | compare op => do
      let (rhs, F) ← F.popWidth op.operandKind.width
      let (lhs, F) ← F.popWidth op.operandKind.width
      F.push (.ofFold (lhs.fold₂ (Const.compare op) rhs) .one)
  | stack op => op.effect F
  | branch _ _ | switch _ _ | throw | monitorEnter | monitorExit => F.dropWidths [.one]
  | branchCompare kind _ _ => F.dropWidths [kind.width, kind.width]
  | ret (some kind) => F.dropWidths [kind.width]
  | field access f => access.effect f F
  | invoke kind m => kind.effect m F
  | new className => F.push (.ref className)
  | newArray element => do
      let F ← F.dropWidths [.one]
      F.push (.ref ("[" ++ element))
  | newMultiArray descriptor dimensions => do
      let F ← F.dropWidths (List.replicate dimensions .one)
      F.push (.ref descriptor)
  | arrayLength => do
      let F ← F.dropWidths [.one]
      F.push (.unresolved .one)
  | arrayLoad kind => do
      let F ← F.dropWidths [.one, .one]
      F.push (.unresolved kind.width)
  | arrayStore kind => F.dropWidths [.one, .one, kind.width]
  | checkCast _ => do
      let (v, F) ← F.popWidth .one
      F.push v
  | instanceOf className => do
      let (v, F) ← F.popWidth .one
      F.push (v.instanceTest className)

end Insn

/-! ## Asking about static members -/

inductive Fault where
  | frame (cause : FrameError)
  | simulation (failure : Failure)
  deriving DecidableEq, Repr

def Fault.ofFrame : Except FrameError Frame → Except Fault Frame
  | .ok F => .ok F
  | .error e => .error (.frame e)

/-- A value where one of the given width is expected; another width resolves nothing. -/
def Value.shapedTo (v : Value) (w : Width) : Value :=
  if v.width = w then v else .unresolved w

def MethodRef.shapedResult (m : MethodRef) (answer : Option Value) : Option Value :=
  match m.resultWidth?, answer with
  | none, _ => none
  | some w, none => some (.unresolved w)
  | some w, some v => some (v.shapedTo w)

def isOpen : Option Value → Bool
  | some v => v.isUnresolved
  | none => false

namespace Config

variable {σ : Type}

def staticField (cfg : Config σ) (f : FieldRef) (world : σ) : Value × σ :=
  match cfg.fields with
  | none => (.unresolved f.width, world)
  | some source =>
      let (v, world) := source f world
      (v.shapedTo f.width, world)

/-- Lets the host run the call if it can; otherwise the answer stands. -/
def simulateCall (cfg : Config σ) (position : Nat) (m : MethodRef) (args : List Value)
    (answer : Option Value) (world : σ) : Except Failure (Option Value) × σ :=
  match cfg.mode, cfg.host, Value.hostArguments? args with
  | .simulated, some host, some hostArgs => host.realize position m hostArgs world
  | _, _, _ => (.ok answer, world)

/-- The call source comes first, and the host only if that leaves the result open. -/
def staticCall (cfg : Config σ) (position : Nat) (m : MethodRef) (args : List Value)
    (world : σ) : Except Failure (Option Value) × σ :=
  match cfg.calls with
  | none => cfg.simulateCall position m args m.unresolvedResult world
  | some source =>
      let (answer, world) := source m args world
      let result := m.shapedResult answer
      if isOpen result then cfg.simulateCall position m args result world
      else (.ok result, world)

def transfer (cfg : Config σ) (position : Nat) (insn : Insn Nat) (F : Frame) (world : σ) :
    Except Fault Frame × σ :=
  match insn with
  | .field .getStatic f =>
      let (v, world) := cfg.staticField f world
      (Fault.ofFrame (F.push v), world)
  | .invoke .static m =>
      match F.popWidths m.paramWidths with
      | .error e => (.error (.frame e), world)
      | .ok (args, G) =>
          match cfg.staticCall position m args world with
          | (.error failure, world) => (.error (.simulation failure), world)
          | (.ok result, world) => (Fault.ofFrame (G.pushResult result), world)
  | _ => (Fault.ofFrame (insn.effect F), world)

end Config

end FrameFlow

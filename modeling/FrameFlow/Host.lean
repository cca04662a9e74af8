import FrameFlow.Insn.Listing
import FrameFlow.Value

/-!
# Hosts

A host runs static methods on concrete arguments.  Its answers may depend on a
state, its world, and may change it.  An answer has to agree with the result
type of the method; otherwise the call has failed, as it has when the host
itself reports an error.
-/

namespace FrameFlow

inductive HostErrorKind where
  | reflection
  | targetException
  | inaccessible
  | typeMismatch
  | unsupported
  deriving DecidableEq, Repr

def HostErrorKind.text : HostErrorKind → String
  | reflection => "Reflection"
  | targetException => "TargetException"
  | inaccessible => "Inaccessible"
  | typeMismatch => "TypeMismatch"
  | unsupported => "Unsupported"

structure HostError where
  kind : HostErrorKind
  message : String
  deriving DecidableEq, Repr

def HostError.text (e : HostError) : String :=
  s!"{e.kind.text}: {e.message}"

/-- What a host says to a call: an error, no value, or a value. -/
abbrev Answer := Except HostError (Option HostValue)

abbrev Host (σ : Type) := MethodRef → List HostValue → σ → Answer × σ

inductive FailureReason where
  | hostError
  | wrongResult
  deriving DecidableEq, Repr

def FailureReason.text : FailureReason → String
  | hostError => "host invocation failed"
  | wrongResult => "host result does not match the method's return type"

structure Failure where
  position : Nat
  method : MethodRef
  reason : FailureReason
  cause : HostError
  deriving DecidableEq, Repr

def Failure.text (f : Failure) : String :=
  s!"Simulation of {f.method.text} failed at {positionText f.position}: {f.reason.text}"

/-- What is wrong with a value, or with none, as the result of a method. -/
def resultFault? (result : Option FieldType) (value : Option HostValue) : Option String :=
  match result, value with
  | none, none => none
  | none, some v => some s!"void method returned {v.text}"
  | some t, none => some s!"expected a {t.text} result, got none"
  | some t, some v =>
      if v.width = t.width then none
      else some s!"expected a {t.width.text}-slot {t.text} result, got {v.text}"

def Answer.accept (position : Nat) (m : MethodRef) (answer : Answer) :
    Except Failure (Option Value) :=
  match answer with
  | .error cause => .error ⟨position, m, .hostError, cause⟩
  | .ok value =>
      match resultFault? m.type.result value with
      | some message => .error ⟨position, m, .wrongResult, ⟨.typeMismatch, message⟩⟩
      | none => .ok (value.map Value.ofHost)

def Host.realize {σ : Type} (host : Host σ) (position : Nat) (m : MethodRef)
    (args : List HostValue) (world : σ) : Except Failure (Option Value) × σ :=
  let (answer, world) := host m args world
  (answer.accept position m, world)

end FrameFlow

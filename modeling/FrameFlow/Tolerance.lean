import FrameFlow.Config

/-!
# Tolerances

Policies that decide by the method and by what is known so far, without a
world.
-/

namespace FrameFlow

inductive Tolerance where
  | always
  | never
  | generated
  | share (percent : Nat)
  | reached (position : Nat)
  deriving DecidableEq, Repr

def Frame.values (F : Frame) : List Value :=
  F.stack ++ F.locals.filterMap fun slot => slot

namespace Tolerance

/-- A share above the whole counts as the whole. -/
def percent? : Tolerance → Option Nat
  | share percent => some (min percent 100)
  | always | never | generated | reached _ => none

/-- More than the given share of all values is concrete, and there are some. -/
def exceedsShare (percent : Nat) (frames : Array (Option Frame)) : Bool :=
  let values := (frames.toList.filterMap fun frame => frame).flatMap Frame.values
  let known := values.countP Value.isConcrete
  0 < values.length && values.length * min percent 100 < known * 100

def allows (t : Tolerance) (m : Method) (frames : Array (Option Frame)) : Bool :=
  match t with
  | always => true
  | never => false
  | generated => m.access.isSynthetic || m.access.isBridge
  | share percent => exceedsShare percent frames
  | reached position => (frames[position]?.getD none).isSome

def policy {σ : Type} (t : Tolerance) : Policy σ := fun m frames world =>
  (t.allows m frames, world)

end Tolerance

end FrameFlow

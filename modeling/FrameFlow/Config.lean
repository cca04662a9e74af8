import FrameFlow.Host.Memo
import FrameFlow.Error

/-!
# Configurations

What an analysis may consult: a source of field values, a source of call
results, a host, and a policy that decides whether a failed call is tolerated.
All of them may be missing, and all of them may depend on a world and change
it.
-/

namespace FrameFlow

inductive Mode where
  | constants
  | simulated
  deriving DecidableEq, Repr

def Mode.text : Mode → String
  | constants => "Constant"
  | simulated => "Simulated"

abbrev FieldSource (σ : Type) := FieldRef → σ → Value × σ

abbrev CallSource (σ : Type) := MethodRef → List Value → σ → Option Value × σ

abbrev Policy (σ : Type) := Method → Array (Option Frame) → σ → Bool × σ

structure Config (σ : Type) where
  mode : Mode := .constants
  fields : Option (FieldSource σ) := none
  calls : Option (CallSource σ) := none
  host : Option (Host σ) := none
  policy : Option (Policy σ) := none

structure Setup (σ : Type) extends Config σ where
  memo : Bool := false

/-- An inner world is changed, the answers remembered beside it are kept. -/
def onWorld {σ α : Type} (f : σ → α × σ) (memo : Memo σ) : α × Memo σ :=
  let (a, world) := f memo.world
  (a, { memo with world := world })

namespace Setup

variable {σ : Type}

/-- Simulation and memo both need a host. -/
def fault? (s : Setup σ) : Option ConfigFault :=
  if s.host.isSome then none
  else if s.mode = .simulated then some .simulationWithoutHost
  else if s.memo then some .memoWithoutHost
  else none

/-- The configuration in a world with a memo, which only the host uses, and only if asked to. -/
def config (s : Setup σ) : Config (Memo σ) where
  mode := s.mode
  fields := s.fields.map fun source f => onWorld (source f)
  calls := s.calls.map fun source m args => onWorld (source m args)
  host := s.host.map fun host => if s.memo then host.remembered else host.unremembered
  policy := s.policy.map fun policy m frames => onWorld (policy m frames)

def build (s : Setup σ) : Except Error (Config (Memo σ)) :=
  match s.fault? with
  | some fault => .error (.config fault)
  | none => .ok s.config

end Setup

/-! ## Text -/

def Config.text {σ : Type} (c : Config σ) : String :=
  s!"AnalyzerConfig \x7b value_kind: {c.mode.text}, static_get: {c.fields.isSome}, " ++
    s!"static_invoke: {c.calls.isSome}, host: {c.host.isSome}, " ++
    s!"validator: {c.policy.isSome} \x7d"

def Config.analyzerText {σ : Type} (c : Config σ) : String :=
  s!"Analyzer \x7b config: {c.text} \x7d"

def Setup.text {σ : Type} (s : Setup σ) : String :=
  s!"AnalyzerBuilder \x7b config: {s.toConfig.text}, cache_simulations: {s.memo} \x7d"

end FrameFlow

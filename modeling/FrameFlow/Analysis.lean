import FrameFlow.Analysis.Descent

/-!
# The analysis of a method

The entry frame of the first instruction holds the receiver, known to be an
object of the owning class, and unresolved parameters.  Stepping until nothing
is pending gives the entry frame of every instruction that can be reached; the
others have none.
-/

namespace FrameFlow

def Run.solve {σ : Type} (p : Problem σ) (S : Run σ) : Run σ :=
  if _h : S.isRunning then solve p (S.step p) else S
termination_by S.measure
decreasing_by
  refine Run.measure_step p fun hnil => ?_
  simp [Run.isRunning, hnil] at _h

structure Analysis where
  frames : Array (Option Frame)
  failures : List Failure
  steps : Nat
  result : Option Value
  order : List Nat
  deriving DecidableEq, Repr

namespace Analysis

def frame? (a : Analysis) (position : Nat) : Option Frame :=
  a.frames[position]?.getD none

theorem frame?_eq_some {a : Analysis} {i : Nat} {F : Frame} :
    a.frame? i = some F ↔ a.frames[i]? = some (some F) := by
  simp [frame?, Option.getD_eq_iff]

def isReachable (a : Analysis) (position : Nat) : Bool :=
  (a.frame? position).isSome

def unreachable (a : Analysis) : List Nat :=
  (List.range a.frames.size).filter fun position => !a.isReachable position

def frameText : Option Frame → String
  | none => "unreachable"
  | some F => F.text

def lines : Nat → List (Option Frame) → List String
  | _, [] => []
  | position, frame :: rest =>
      s!"{positionText position}: {frameText frame}\n" :: lines (position + 1) rest

def text (a : Analysis) : String :=
  String.join (lines 0 a.frames.toList)

end Analysis

/-! ## The entry frame -/

def Frame.writeLocals (F : Frame) : List (Nat × Value) → Except FrameError Frame
  | [] => .ok F
  | (slot, v) :: rest =>
      match F.writeLocal slot v with
      | .error e => .error e
      | .ok G => G.writeLocals rest

namespace Method

def arguments (m : Method) : List (Nat × Value) :=
  let params := m.parameters.map fun (slot, t) => (slot, Value.unresolved t.width)
  if m.access.isStatic then params else (0, .ref m.owner) :: params

def entryFrame (m : Method) : Except FrameError Frame :=
  (Frame.empty m.maxLocals m.maxStack).writeLocals m.arguments

/-- The values that instructions returning one find on top of their stacks. -/
def returned : List (Insn Nat) → List (Option Frame) → List Value
  | .ret (some _) :: code, some F :: frames => F.top?.toList ++ returned code frames
  | _ :: code, _ :: frames => returned code frames
  | _, _ => []

end Method

namespace Config

variable {σ : Type}

def begin (p : Problem σ) (F : Frame) (world : σ) : Run σ :=
  Run.install p ⟨Array.replicate p.method.code.size none, [], [], 0, world, none⟩
    FlowGraph.entry F

def outcome (p : Problem σ) (S : Run σ) : Except Error Analysis :=
  match S.stopped with
  | some e => .error e
  | none =>
      match Value.joinAll (Method.returned p.method.code.toList S.frames.toList) with
      | .error e => .error e
      | .ok result => .ok ⟨S.frames, S.failures, S.steps, result, p.order⟩

def analyze (cfg : Config σ) (m : Method) (world : σ) : Except Error Analysis × σ :=
  match m.checkLocals with
  | .error e => (.error (.malformed e), world)
  | .ok () =>
      match m.graph with
      | .error e => (.error e, world)
      | .ok graph =>
          match m.entryFrame with
          | .error e => (.error (.frame FlowGraph.entry e), world)
          | .ok F =>
              let p : Problem σ := ⟨cfg, m, graph, graph.order⟩
              let S := (begin p F world).solve p
              (outcome p S, S.world)

def analyzeAll (cfg : Config σ) : List Method → σ → List (Except Error Analysis) × σ
  | [], world => ([], world)
  | m :: ms, world =>
      let (result, world) := cfg.analyze m world
      let (results, world) := cfg.analyzeAll ms world
      (result :: results, world)

end Config

end FrameFlow

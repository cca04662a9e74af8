import FrameFlow.Frame.Merge
import FrameFlow.Graph.Flow
import FrameFlow.Transfer

/-!
# Runs of the analysis

A run keeps the entry frame of every instruction reached so far and a list of
pending instructions, ordered by rank.  A step takes the first of them,
offers frames to its handlers, carries it out and offers the result to its
successors.  An offer that changes a frame makes its instruction pending.

A run ends: an offer either leaves the frames alone, or gives a frame to an
instruction that had none, or uses up a climb of a frame.
-/

namespace FrameFlow

structure Problem (σ : Type) where
  config : Config σ
  method : Method
  graph : FlowGraph
  order : List Nat

structure Run (σ : Type) where
  frames : Array (Option Frame)
  pending : List Nat
  failures : List Failure
  steps : Nat
  world : σ
  stopped : Option Error

namespace Problem

variable {σ : Type}

/-- Instructions outside the order come last. -/
def rank (p : Problem σ) (position : Nat) : Nat :=
  p.order.idxOf position

def comesBefore (p : Problem σ) (i j : Nat) : Bool :=
  p.rank i < p.rank j || (p.rank i == p.rank j && i < j)

def enqueue (p : Problem σ) (i : Nat) : List Nat → List Nat
  | [] => [i]
  | j :: rest =>
      if i = j then j :: rest
      else if p.comesBefore i j then i :: j :: rest
      else j :: p.enqueue i rest

end Problem

namespace Run

variable {σ : Type}

def stop (S : Run σ) (e : Error) : Run σ :=
  { S with stopped := some e }

def isRunning (S : Run σ) : Bool :=
  !S.stopped.isSome && !S.pending.isEmpty

def install (p : Problem σ) (S : Run σ) (target : Nat) (F : Frame) : Run σ :=
  { S with
    frames := S.frames.setIfInBounds target (some F)
    pending := p.enqueue target S.pending }

def offer (p : Problem σ) (S : Run σ) (target : Nat) (F : Frame) : Run σ :=
  if S.stopped.isSome then S
  else
    match S.frames[target]? with
    | none => S
    | some none => S.install p target F
    | some (some G) =>
        match G.merge F with
        | .error e => S.stop (.frame target e)
        | .ok (_, false) => S
        | .ok (H, true) => S.install p target H

def offerAll (p : Problem σ) (S : Run σ) (F : Frame) (edges : List Edge) : Run σ :=
  edges.foldl (fun S e => S.offer p e.target F) S

/-- A handler starts with the locals of the covered instruction and the thrown object. -/
def handlerFrame (F : Frame) (catchClass : Option String) : Except FrameError Frame :=
  F.clearStack.push (.ref (Handler.thrownClass catchClass))

def offerHandler (p : Problem σ) (position : Nat) (F : Frame) (S : Run σ) (e : Edge) :
    Run σ :=
  if S.stopped.isSome then S
  else
    match e.kind with
    | .thrown catchClass =>
        match handlerFrame F catchClass with
        | .error cause => S.stop (.frame position cause)
        | .ok H => S.offer p e.target H
    | .always | .taken | .notTaken | .case _ => S

def offerHandlers (p : Problem σ) (position : Nat) (F : Frame) (S : Run σ) : Run σ :=
  (p.graph.thrownEdges position).foldl (offerHandler p position F) S

/-- Failures are kept once for each instruction. -/
def record (S : Run σ) (f : Failure) : Run σ :=
  if S.failures.any fun g => g.position == f.position then S
  else { S with failures := S.failures ++ [f] }

/-- Asks the policy about the frames as they are; without one nothing is tolerated. -/
def tolerates (p : Problem σ) (S : Run σ) : Bool × σ :=
  match p.config.policy with
  | none => (false, S.world)
  | some policy => policy p.method S.frames S.world

def finish (p : Problem σ) (S : Run σ) (position : Nat) : Except FrameError Frame → Run σ
  | .error cause => S.stop (.frame position cause)
  | .ok F => S.offerAll p F (p.graph.normalEdges position)

/-- A tolerated failure counts as a call with an unresolved result. -/
def fail (p : Problem σ) (S : Run σ) (position : Nat) (insn : Insn Nat) (F : Frame)
    (f : Failure) : Run σ :=
  match S.tolerates p with
  | (false, world) => { S with world := world }.stop (.simulation f)
  | (true, world) => ({ S with world := world }.record f).finish p position (insn.effect F)

def carryOut (p : Problem σ) (S : Run σ) (position : Nat) (insn : Insn Nat) (F : Frame) :
    Run σ :=
  if S.stopped.isSome then S
  else
    match p.config.transfer position insn F S.world with
    | (.ok G, world) => { S with world := world }.finish p position (.ok G)
    | (.error (.frame cause), world) =>
        { S with world := world }.finish p position (.error cause)
    | (.error (.simulation f), world) => { S with world := world }.fail p position insn F f

def visit (p : Problem σ) (S : Run σ) (position : Nat) : Run σ :=
  match S.frames[position]?, p.method.code[position]? with
  | some (some F), some insn => (S.offerHandlers p position F).carryOut p position insn F
  | _, _ => S

def step (p : Problem σ) (S : Run σ) : Run σ :=
  match S.pending with
  | [] => S
  | i :: rest => { S with pending := rest, steps := S.steps + 1 }.visit p i

end Run

end FrameFlow

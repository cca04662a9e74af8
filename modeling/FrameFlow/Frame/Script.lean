import FrameFlow.Frame.Merge

/-!
# Frames under a script

A script makes frames and acts on them.  Every action has a reply, and a frame
after it, also when the action fails: a value popped with the wrong width is
gone, and any other failure leaves the frame as it was.
-/

namespace FrameFlow.Frame

inductive Action where
  | push (v : Value)
  | pop
  | popWidth (w : Width)
  | popMany (count : Nat)
  | peek (depth : Nat)
  | top
  | clear
  | read (index : Nat)
  | write (index : Nat) (v : Value)
  | merge (other : Frame)
  | equals (other : Frame)
  deriving DecidableEq, Repr

inductive Reply where
  | done
  | made (number : Nat)
  | value (v : Option Value)
  | values (vs : List Value)
  | flag (b : Bool)
  | failed (e : FrameError)
  deriving DecidableEq, Repr

def replace (F : Frame) : Except FrameError (Reply × Frame) → Reply × Frame
  | .ok (reply, G) => (reply, G)
  | .error e => (.failed e, F)

def act (F : Frame) : Action → Reply × Frame
  | .push v => F.replace ((F.push v).map fun G => (.done, G))
  | .pop => F.replace (F.pop.map fun (v, G) => (.value (some v), G))
  | .popWidth w =>
      match F.takeWidth w with
      | (.ok v, G) => (.value (some v), G)
      | (.error e, G) => (.failed e, G)
  | .popMany count => F.replace ((F.popMany count).map fun (vs, G) => (.values vs, G))
  | .peek depth => (.value (F.peek? depth), F)
  | .top => (.value F.top?, F)
  | .clear => (.done, F.clearStack)
  | .read index => F.replace ((F.readLocal index).map fun v => (.value (some v), F))
  | .write index v => F.replace ((F.writeLocal index v).map fun G => (.done, G))
  | .merge other => F.replace ((F.merge other).map fun (G, changed) => (.flag changed, G))
  | .equals other => (.flag (decide (F = other)), F)

/-- A step makes a frame or acts on one, given by its number. -/
inductive ScriptStep where
  | new (localCount : Nat) (limit : Option Nat)
  | clone (i : Nat)
  | act (i : Nat) (action : Action)
  | merge (i j : Nat)
  | equals (i j : Nat)
  deriving DecidableEq, Repr

def actOn (frames : Array Frame) (i : Nat) (action : Action) :
    Option (Reply × Nat × Array Frame) :=
  match frames[i]? with
  | none => none
  | some F =>
      let (reply, G) := F.act action
      some (reply, i, frames.setIfInBounds i G)

def addTo (frames : Array Frame) (F : Frame) : Reply × Nat × Array Frame :=
  (.made frames.size, frames.size, frames.push F)

def runStep (frames : Array Frame) : ScriptStep → Option (Reply × Nat × Array Frame)
  | .new localCount limit => some (addTo frames (.empty localCount limit))
  | .clone i => frames[i]?.map (addTo frames)
  | .act i action => actOn frames i action
  | .merge i j => frames[j]?.bind fun other => actOn frames i (.merge other)
  | .equals i j => frames[j]?.bind fun other => actOn frames i (.equals other)

end FrameFlow.Frame

import FrameFlow.Error

/-!
# Assembling methods

A method is written as a list of statements.  A label names the position of
the next instruction; jumps and handlers may name labels before or after they
are bound.  Finishing reports the first problem met in a statement, then the
first label without a position, and then a local table that cannot be.
-/

namespace FrameFlow

inductive Target where
  | label (name : String)
  | position (index : Nat)
  deriving DecidableEq, Repr

inductive Stmt where
  | label (name : String)
  | guard (handler : Handler String)
  | access (flags : Access)
  | maxLocals (count : Nat)
  | maxStack (limit : Nat)
  | emit (insn : Insn Target)
  | field (access : FieldAccess) (owner name descriptor : String)
  | invoke (kind : InvokeKind) (owner name descriptor : String)
  deriving DecidableEq, Repr

structure Draft where
  owner : String
  name : String
  type : MethodType
  access : Access := .publicStatic
  maxLocals : Option Nat := none
  maxStack : Option Nat := none
  code : Array (Insn Target) := #[]
  labels : List (String × Nat) := []
  handlers : Array (Handler String) := #[]
  problem : Option Error := none
  deriving DecidableEq, Repr

namespace Draft

def start (owner name descriptor : String) : Except Error Draft :=
  match MethodType.parse descriptor with
  | .ok type => .ok { owner := owner, name := name, type := type }
  | .error e => .error (.descriptor e)

def report (d : Draft) (e : Error) : Draft :=
  { d with problem := some (d.problem.getD e) }

def emit (d : Draft) (insn : Insn Target) : Draft :=
  { d with code := d.code.push insn }

def emitParsed {α : Type} (d : Draft) (insn : α → Insn Target) :
    Except DescriptorError α → Draft
  | .ok ref => d.emit (insn ref)
  | .error e => d.report (.descriptor e)

def add (d : Draft) : Stmt → Draft
  | .label name =>
      if (d.labels.lookup name).isSome then d.report (.duplicateLabel name)
      else { d with labels := d.labels ++ [(name, d.code.size)] }
  | .guard handler => { d with handlers := d.handlers.push handler }
  | .access flags => { d with access := flags }
  | .maxLocals count => { d with maxLocals := some count }
  | .maxStack limit => { d with maxStack := some limit }
  | .emit insn => d.emit insn
  | .field access owner name descriptor =>
      d.emitParsed (.field access) (FieldRef.parse owner name descriptor)
  | .invoke kind owner name descriptor =>
      d.emitParsed (.invoke kind) (MethodRef.parse owner name descriptor)

def addAll (d : Draft) (stmts : List Stmt) : Draft :=
  stmts.foldl add d

/-! ## Finishing -/

def labelPosition (d : Draft) (name : String) : Except Error Nat :=
  match d.labels.lookup name with
  | some position => .ok position
  | none => .error (.undefinedLabel name)

def targetPosition (d : Draft) : Target → Except Error Nat
  | .label name => d.labelPosition name
  | .position index => .ok index

def resolveHandler (d : Draft) (h : Handler String) : Except Error (Handler Nat) := do
  let start ← d.labelPosition h.start
  let stop ← d.labelPosition h.stop
  let entry ← d.labelPosition h.entry
  return ⟨start, stop, entry, h.catchClass⟩

/-- The largest local table that has a size. -/
def localCapacity : Nat := 65535

/-- The least table that holds the arguments and every slot the code names. -/
def neededLocals (d : Draft) : Nat :=
  (d.code.toList.map Insn.localSlots).foldl max
    (Method.receiverSlots d.access + d.type.paramSlots)

def localCount (d : Draft) : Except Error Nat :=
  match d.maxLocals with
  | some count => .ok count
  | none =>
      if d.neededLocals ≤ localCapacity then .ok d.neededLocals
      else .error (.malformed (.localsTooMany d.name))

def finish (d : Draft) : Except Error Method := do
  if let some e := d.problem then throw e
  let code ← d.code.mapM (Insn.resolve d.targetPosition)
  let handlers ← d.handlers.toList.mapM d.resolveHandler
  let maxLocals ← d.localCount
  let m : Method := ⟨d.owner, d.name, d.type, d.access, maxLocals, d.maxStack, code, handlers⟩
  match m.checked with
  | .ok m => return m
  | .error e => throw (.malformed e)

end Draft

def assemble (owner name descriptor : String) (stmts : List Stmt) : Except Error Method :=
  match Draft.start owner name descriptor with
  | .ok d => (d.addAll stmts).finish
  | .error e => .error e

end FrameFlow

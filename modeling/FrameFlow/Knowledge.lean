import FrameFlow.Member
import FrameFlow.Text.Listed
import FrameFlow.Value

/-!
# Knowledge about other classes

The analysis sees one method at a time.  What it cannot see, the values of
static fields and the results of static calls, it may ask of a source.  The two
sources here are tables: constants of fields, and functions that compute the
results of pure methods from constant arguments.
-/

namespace FrameFlow

/-- A table in which the last entry made for a key counts. -/
def replaceEntry {κ α : Type} [DecidableEq κ] (key : κ) (a : α) :
    List (κ × α) → List (κ × α)
  | [] => [(key, a)]
  | (k, b) :: rest => if k = key then (key, a) :: rest else (k, b) :: replaceEntry key a rest

structure KnownFields where
  entries : List (FieldRef × Const)
  deriving DecidableEq, Repr

namespace KnownFields

def empty : KnownFields := ⟨[]⟩

def size (known : KnownFields) : Nat :=
  known.entries.length

def insert (known : KnownFields) (f : FieldRef) (c : Const) : KnownFields :=
  ⟨replaceEntry f c known.entries⟩

def constant? (known : KnownFields) (f : FieldRef) : Option Const :=
  (known.entries.find? fun entry => entry.1 = f).map fun entry => entry.2

def get (known : KnownFields) (f : FieldRef) : Value :=
  match known.constant? f with
  | some c => .const c
  | none => .unresolved f.width

end KnownFields

abbrev PureFunction := List Const → Option Const

structure PureMethods where
  entries : List (MethodRef × PureFunction)

def constArguments? : List Value → Option (List Const)
  | [] => some []
  | v :: vs =>
      match v.const?, constArguments? vs with
      | some c, some cs => some (c :: cs)
      | _, _ => none

namespace PureMethods

def empty : PureMethods := ⟨[]⟩

def insert (methods : PureMethods) (m : MethodRef) (f : PureFunction) : PureMethods :=
  ⟨replaceEntry m f methods.entries⟩

def function? (methods : PureMethods) (m : MethodRef) : Option PureFunction :=
  (methods.entries.find? fun entry => entry.1 = m).map fun entry => entry.2

def contains (methods : PureMethods) (m : MethodRef) : Bool :=
  (methods.function? m).isSome

def fold? (methods : PureMethods) (m : MethodRef) (args : List Value) : Option Const :=
  match methods.function? m, constArguments? args with
  | some f, some cs => f cs
  | _, _ => none

/-- A call that does not fold is unresolved; a method without a result has no value. -/
def call (methods : PureMethods) (m : MethodRef) (args : List Value) : Option Value :=
  match m.resultWidth? with
  | none => none
  | some w =>
      match methods.fold? m args with
      | some c => some (.const c)
      | none => some (.unresolved w)

def text (methods : PureMethods) : String :=
  let names := methods.entries.map fun entry => Text.quoted entry.1.text
  "\x7b" ++ Text.listed names ++ "\x7d"

end PureMethods

end FrameFlow

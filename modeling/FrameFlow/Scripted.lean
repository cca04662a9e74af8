import FrameFlow.Const.Folding
import FrameFlow.Knowledge
import FrameFlow.Tolerance

/-!
# Scripted surroundings

Sources, hosts and policies given by rules.  A rule goes by the name of a field
or a method, and the first rule with the name counts.  Hosts and policies keep
a journal of what they were asked.
-/

namespace FrameFlow

/-- Rules by name, and perhaps one for every other name. -/
structure Rules (α : Type) where
  byName : List (String × α)
  otherwise : Option α
  deriving DecidableEq, Repr

def Rules.find? {α : Type} (rules : Rules α) (name : String) : Option α :=
  match rules.byName.find? fun rule => rule.1 = name with
  | some rule => some rule.2
  | none => rules.otherwise

/-! ## Pure methods -/

inductive PureRule where
  | nothing
  | constant (value : Const)
  | first
  | last
  | count
  | binary (kind : Kind) (op : BinaryOp)
  | mix
  deriving DecidableEq, Repr

def PureRule.apply (rule : PureRule) (args : List Const) : Option Const :=
  match rule with
  | nothing => none
  | constant c => some c
  | first => args.head?
  | last => args.getLast?
  | count => some (.int (Int32.ofNat args.length))
  | binary kind op =>
      match args with
      | [a, b] => Const.binary kind op a b
      | _ => none
  | mix =>
      match args with
      | [.int a, .int b] => some (.int (a * 31 + b))
      | _ => none

/-! ## Sources -/

def Rules.fieldSource {σ : Type} (rules : Rules Value) : FieldSource σ := fun f world =>
  ((rules.find? f.name).getD (.unresolved f.width), world)

inductive CallRule where
  | value (v : Value)
  | nothing
  | argument (index : Nat)
  deriving DecidableEq, Repr

def Rules.callSource {σ : Type} (rules : Rules CallRule) : CallSource σ :=
  fun m args world =>
    match rules.find? m.name with
    | some (.value v) => (some v, world)
    | some .nothing => (none, world)
    | some (.argument index) => (args[index]?, world)
    | none => (m.resultWidth?.map .unresolved, world)

def KnownFields.source {σ : Type} (known : KnownFields) : FieldSource σ := fun f world =>
  (known.get f, world)

def PureMethods.source {σ : Type} (methods : PureMethods) : CallSource σ :=
  fun m args world => (methods.call m args, world)

/-! ## Journals -/

structure Check where
  method : String
  framed : List Nat
  answer : Bool
  deriving DecidableEq, Repr

structure Journal where
  calls : List Call
  checks : List Check
  deriving DecidableEq, Repr

def Journal.empty : Journal := ⟨[], []⟩

def framedPositions (frames : Array (Option Frame)) : List Nat :=
  (List.range frames.size).filter fun position => (frames[position]?.getD none).isSome

def Tolerance.journaled (t : Tolerance) : Policy Journal := fun m frames journal =>
  let answer := t.allows m frames
  (answer, { journal with checks := journal.checks ++ [⟨m.id, framedPositions frames, answer⟩] })

/-! ## Hosts -/

inductive HostRule where
  | value (h : HostValue)
  | nothing
  | failure (error : HostError)
  | argument (index : Nat)
  | count
  | sum
  deriving DecidableEq, Repr

/-- The sum of integers; the first argument that is none of them is an error. -/
def sumArguments (total : Int32) : List HostValue → Answer
  | [] => .ok (some (.const (.int total)))
  | .const (.int v) :: rest => sumArguments (total + v) rest
  | h :: _ => .error ⟨.typeMismatch, s!"unexpected argument {h.text}"⟩

/-- The answer to a call; `count` calls have been made, this one among them. -/
def HostRule.answer (rule : HostRule) (args : List HostValue) (count : Nat) : Answer :=
  match rule with
  | value h => .ok (some h)
  | nothing => .ok none
  | failure error => .error error
  | argument index => .ok args[index]?
  | .count => .ok (some (.const (.int (Int32.ofNat count))))
  | sum => sumArguments 0 args

/-- A call is written down before it is answered; one without a rule is unsupported. -/
def Rules.host (rules : Rules HostRule) : Host Journal := fun m args journal =>
  let calls := journal.calls ++ [(m, args)]
  let answer : Answer := match rules.find? m.name with
    | some rule => rule.answer args calls.length
    | none => .error ⟨.unsupported, m.text⟩
  (answer, { journal with calls := calls })

end FrameFlow

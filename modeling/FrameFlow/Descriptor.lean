import FrameFlow.Width

/-!
# Descriptors

A field type is one of eight base types, a class, or an array.  A method type
lists parameter types and an optional result.  Both have one written form, the
descriptor: a letter per base type, `L…;` around a class name, `[` before an
element type, and the parameters of a method in parentheses before its result,
with `V` standing for no result.
-/

namespace FrameFlow

inductive BaseType where
  | byte
  | char
  | double
  | float
  | int
  | long
  | short
  | boolean
  deriving DecidableEq, Repr

namespace BaseType

def letter : BaseType → Char
  | byte => 'B'
  | char => 'C'
  | double => 'D'
  | float => 'F'
  | int => 'I'
  | long => 'J'
  | short => 'S'
  | boolean => 'Z'

def ofLetter? : Char → Option BaseType
  | 'B' => some byte
  | 'C' => some char
  | 'D' => some double
  | 'F' => some float
  | 'I' => some int
  | 'J' => some long
  | 'S' => some short
  | 'Z' => some boolean
  | _ => none

/-- The small integer types are computed with as `int`. -/
def kind : BaseType → Kind
  | long => .long
  | float => .float
  | double => .double
  | byte | char | int | short | boolean => .int

end BaseType

inductive FieldType where
  | base (type : BaseType)
  | object (className : String)
  | array (element : FieldType)
  deriving DecidableEq, Repr

namespace FieldType

def kind : FieldType → Kind
  | base b => b.kind
  | object _ | array _ => .reference

def width (t : FieldType) : Width :=
  t.kind.width

def className? : FieldType → Option String
  | object name => some name
  | base _ | array _ => none

def chars : FieldType → List Char
  | base b => [b.letter]
  | object name => 'L' :: (name.toList ++ [';'])
  | array element => '[' :: element.chars

def text (t : FieldType) : String :=
  String.ofList t.chars

/-- Every class name in the type is nonempty and free of the closing mark. -/
def WellFormed : FieldType → Prop
  | base _ => True
  | object name => name.toList ≠ [] ∧ ';' ∉ name.toList
  | array element => element.WellFormed

def dimensions : FieldType → Nat × FieldType
  | array element => (element.dimensions.1 + 1, element.dimensions.2)
  | t => (0, t)

end FieldType

structure MethodType where
  params : List FieldType
  result : Option FieldType
  deriving DecidableEq, Repr

namespace MethodType

def resultChars (t : MethodType) : List Char :=
  match t.result with
  | none => ['V']
  | some r => r.chars

def chars (t : MethodType) : List Char :=
  '(' :: (t.params.flatMap FieldType.chars ++ ')' :: t.resultChars)

def text (t : MethodType) : String :=
  String.ofList t.chars

def WellFormed (t : MethodType) : Prop :=
  (∀ p ∈ t.params, p.WellFormed) ∧ ∀ r ∈ t.result, r.WellFormed

def paramSlots (t : MethodType) : Nat :=
  Width.total (t.params.map FieldType.width)

def isVoid (t : MethodType) : Bool :=
  !t.result.isSome

end MethodType

end FrameFlow

/-!
# Slot widths

Operand stacks and local tables are counted in slots.  Every value takes one
slot or two, and nothing else.
-/

namespace FrameFlow

/-- Where sums of numbers start, whatever other zeros are in scope. -/
abbrev numeralZero : Zero Nat := ⟨0⟩

inductive Width where
  | one
  | two
  deriving DecidableEq, Repr

namespace Width

def slots : Width → Nat
  | one => 1
  | two => 2

def ofSlots? : Nat → Option Width
  | 1 => some one
  | 2 => some two
  | _ => none

def text (w : Width) : String :=
  w.slots.repr

attribute [local instance] numeralZero

def total (widths : List Width) : Nat :=
  (widths.map slots).sum

@[simp] theorem total_nil : total [] = 0 := rfl

@[simp] theorem total_cons (w : Width) (widths : List Width) :
    total (w :: widths) = w.slots + total widths := by
  simp [total]

theorem slots_pos (w : Width) : 0 < w.slots := by
  cases w <;> decide

end Width

inductive Kind where
  | int
  | long
  | float
  | double
  | reference
  deriving DecidableEq, Repr

namespace Kind

def width : Kind → Width
  | int | float | reference => .one
  | long | double => .two

def text : Kind → String
  | int => "Int"
  | long => "Long"
  | float => "Float"
  | double => "Double"
  | reference => "Reference"

end Kind

end FrameFlow

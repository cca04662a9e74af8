import FrameFlow.Proofs.Answers
import Mathlib.Data.Nat.Basic

/-!
# The machine of slots

Stack instructions are described in two ways.  As they are carried out, they take
values off the stack and push them back, and which values these are depends on
their widths.  On slots there is one rule: each instruction has a block of slots
on top and reaches so many slots down, and it drops the block, puts a copy of it
below what it reaches, or exchanges the two parts.

Both are the same.  An instruction can be carried out exactly when there are as
many slots as it reaches, none of its cuts goes through a value of two slots, and
the slots it leaves are within the limit; the slots it leaves are then those of
the rule.
-/

namespace FrameFlow

/-! ## Slots -/

/-- What a slot of a stack holds: a value of its own, or a half of one. -/
inductive Slot where
  | whole (v : Value)
  | upper (v : Value)
  | lower (v : Value)
  deriving DecidableEq, Repr

def Value.toSlots (v : Value) : List Slot :=
  match v.width with
  | .one => [.whole v]
  | .two => [.upper v, .lower v]

def slotsOf (stack : List Value) : List Slot :=
  stack.flatMap Value.toSlots

/-- A cut at this depth goes through a value of two slots. -/
def Splits (stack : List Value) (depth : Nat) : Prop :=
  ∃ above v below, stack = above ++ v :: below ∧ v.width = .two ∧
    (slotsOf above).length + 1 = depth

@[simp] theorem Value.toSlots_length (v : Value) : v.toSlots.length = v.width.slots := by
  unfold Value.toSlots
  cases v.width <;> rfl

@[simp] theorem slotsOf_nil : slotsOf [] = [] :=
  rfl

@[simp] theorem slotsOf_cons (v : Value) (stack : List Value) :
    slotsOf (v :: stack) = v.toSlots ++ slotsOf stack :=
  rfl

@[simp] theorem slotsOf_append (s t : List Value) :
    slotsOf (s ++ t) = slotsOf s ++ slotsOf t :=
  List.flatMap_append

private theorem Frame.length_slotsOf (F : Frame) : (slotsOf F.stack).length = F.stackSlots := by
  unfold stackSlots
  induction F.stack with
  | nil => rfl
  | cons v rest ih => simp [ih]

/-! ## Cuts -/

section Cuts

variable {stack block below : List Value} {n : Nat}

private theorem Splits.append (block : List Value) (h : Splits stack n) :
    Splits (block ++ stack) ((slotsOf block).length + n) := by
  obtain ⟨above, v, below, rfl, hwide, rfl⟩ := h
  refine ⟨block ++ above, v, below, by simp, hwide, ?_⟩
  simp only [slotsOf_append, List.length_append]
  omega

private theorem exists_cut (hn : n ≤ (slotsOf stack).length) (hsplits : ¬Splits stack n) :
    ∃ above below, stack = above ++ below ∧ (slotsOf above).length = n := by
  induction stack generalizing n with
  | nil => exact ⟨[], [], rfl, (Nat.le_zero.1 hn).symm⟩
  | cons v stack ih =>
      by_cases hv : v.width.slots ≤ n
      · obtain ⟨k, rfl⟩ := Nat.exists_eq_add_of_le hv
        have hk : ¬Splits stack k := by
          intro h
          apply hsplits
          simpa using h.append [v]
        obtain ⟨above, below, rfl, rfl⟩ := ih (by simpa using hn) hk
        exact ⟨v :: above, below, rfl, by simp⟩
      · -- no slot is above the cut, since one slot would be the half of a value
        have hzero : n = 0 := by
          cases hw : v.width with
          | one =>
              simp only [hw, Width.slots] at hv
              omega
          | two =>
              simp only [hw, Width.slots] at hv
              by_contra hne
              refine hsplits ⟨[], v, stack, rfl, hw, ?_⟩
              simp only [slotsOf_nil, List.length_nil]
              omega
        exact ⟨[], v :: stack, rfl, hzero.symm⟩

private theorem not_splits_append (above below : List Value) :
    ¬Splits (above ++ below) (slotsOf above).length := by
  rintro ⟨above', v, below', heq, hwide, hdepth⟩
  rcases List.append_eq_append_iff.1 heq with ⟨more, rfl, -⟩ | ⟨more, rfl, hmore⟩
  · simp only [slotsOf_append, List.length_append] at hdepth
    omega
  · cases more with
    | nil =>
        simp only [List.append_nil] at hdepth
        omega
    | cons u more =>
        obtain ⟨rfl, -⟩ := List.cons.inj hmore
        simp only [slotsOf_append, slotsOf_cons, List.length_append, Value.toSlots_length, hwide,
          Width.slots] at hdepth
        omega

end Cuts

/-! ## Instructions on slots -/

namespace StackOp

def block : StackOp → Nat
  | pop | dup | dupX1 | dupX2 | swap => 1
  | pop2 | dup2 | dup2X1 | dup2X2 => 2

def reach : StackOp → Nat
  | pop | dup => 1
  | pop2 | dup2 | dupX1 | swap => 2
  | dupX2 | dup2X1 => 3
  | dup2X2 => 4

def cuts (op : StackOp) : List Nat :=
  [op.block, op.reach]

/-- The block on top and what is below it within reach, as they are put back. -/
def rearrange {α : Type} (op : StackOp) (top below : List α) : List α :=
  match op with
  | pop | pop2 => below
  | dup | dupX1 | dupX2 | dup2 | dup2X1 | dup2X2 => top ++ below ++ top
  | swap => below ++ top

def onSlots (op : StackOp) (slots : List Slot) : List Slot :=
  op.rearrange (slots.take op.block) ((slots.take op.reach).drop op.block) ++ slots.drop op.reach

/-- The stack falls into whole values at both cuts of the instruction. -/
structure Parts (op : StackOp) (stack top below rest : List Value) : Prop where
  whole : stack = top ++ below ++ rest
  block : (slotsOf top).length = op.block
  below : (slotsOf below).length = op.reach - op.block

private theorem block_le_reach (op : StackOp) : op.block ≤ op.reach := by
  cases op <;> decide

private theorem Parts.length_reach {op : StackOp} {stack top below rest : List Value}
    (h : op.Parts stack top below rest) : (slotsOf (top ++ below)).length = op.reach := by
  rw [slotsOf_append, List.length_append, h.block, h.below]
  exact Nat.add_sub_of_le op.block_le_reach

private theorem exists_parts_iff {op : StackOp} {stack : List Value} :
    (∃ top below rest, op.Parts stack top below rest) ↔
      op.reach ≤ (slotsOf stack).length ∧ ∀ n ∈ op.cuts, ¬Splits stack n := by
  simp only [cuts, List.mem_cons, List.not_mem_nil, or_false, forall_eq_or_imp, forall_eq]
  constructor
  · rintro ⟨top, below, rest, h⟩
    have hreach := h.length_reach
    obtain ⟨rfl, htop, -⟩ := h
    refine ⟨?_, ?_, ?_⟩
    · rw [slotsOf_append, List.length_append, hreach]
      exact Nat.le_add_right _ _
    · rw [List.append_assoc, ← htop]
      exact not_splits_append top (below ++ rest)
    · rw [← hreach]
      exact not_splits_append (top ++ below) rest
  · rintro ⟨hlong, hblock, hreach⟩
    have hle := op.block_le_reach
    obtain ⟨top, rest, rfl, htop⟩ := exists_cut (Nat.le_trans hle hlong) hblock
    have hbelow : ¬Splits rest (op.reach - op.block) := by
      intro h
      apply hreach
      have hsplits := h.append top
      rwa [htop, Nat.add_sub_of_le hle] at hsplits
    have hrest : op.reach - op.block ≤ (slotsOf rest).length := by
      rw [slotsOf_append, List.length_append, htop] at hlong
      omega
    obtain ⟨below, rest, rfl, hlength⟩ := exists_cut hrest hbelow
    exact ⟨top, below, rest, by simp, htop, hlength⟩

private theorem slotsOf_rearrange (op : StackOp) (top below : List Value) :
    slotsOf (op.rearrange top below) = op.rearrange (slotsOf top) (slotsOf below) := by
  cases op <;> simp [rearrange]

private theorem Parts.onSlots {op : StackOp} {stack top below rest : List Value}
    (h : op.Parts stack top below rest) :
    op.onSlots (slotsOf stack) = slotsOf (op.rearrange top below ++ rest) := by
  have hreach := h.length_reach
  obtain ⟨rfl, htop, -⟩ := h
  rw [slotsOf_append] at hreach
  simp only [StackOp.onSlots, slotsOf_append, slotsOf_rearrange, List.take_left' hreach,
    List.drop_left' hreach, List.drop_left' htop]
  rw [List.append_assoc, List.take_left' htop]

end StackOp

/-! ## Instructions on values -/

section Values

variable {s : List Value}

private theorem slots_of_width {v : Value} {w : Width} (h : v.width = w) :
    (slotsOf [v]).length = w.slots := by
  simp [h]

private theorem slots_of_widths {v u : Value} {w w' : Width} (h : v.width = w) (h' : u.width = w') :
    (slotsOf [v, u]).length = w.slots + w'.slots := by
  simp [h, h']

theorem eq_nil_of_no_slots (h : (slotsOf s).length = 0) : s = [] := by
  cases s with
  | nil => rfl
  | cons v rest =>
      have := v.width.slots_pos
      simp only [slotsOf_cons, List.length_append, Value.toSlots_length] at h
      omega

private theorem eq_of_one_slot (h : (slotsOf s).length = 1) : ∃ v, s = [v] ∧ v.width = .one := by
  cases s with
  | nil => cases h
  | cons v rest =>
      simp only [slotsOf_cons, List.length_append, Value.toSlots_length] at h
      cases hw : v.width with
      | one =>
          rw [hw, Width.slots] at h
          rw [eq_nil_of_no_slots (s := rest) (by omega)]
          exact ⟨v, rfl, hw⟩
      | two =>
          rw [hw, Width.slots] at h
          omega

private theorem eq_of_two_slots (h : (slotsOf s).length = 2) :
    (∃ v, s = [v] ∧ v.width = .two) ∨
      ∃ v u, s = [v, u] ∧ v.width = .one ∧ u.width = .one := by
  cases s with
  | nil => cases h
  | cons v rest =>
      simp only [slotsOf_cons, List.length_append, Value.toSlots_length] at h
      cases hw : v.width with
      | one =>
          rw [hw, Width.slots] at h
          obtain ⟨u, rfl, hu⟩ := eq_of_one_slot (s := rest) (by omega)
          exact .inr ⟨v, u, rfl, hw, hu⟩
      | two =>
          rw [hw, Width.slots] at h
          rw [eq_nil_of_no_slots (s := rest) (by omega)]
          exact .inl ⟨v, rfl, hw⟩

end Values

namespace Frame

variable {locals : List (Option Value)} {limit : Option Nat} {stack : List Value} {w : Width}
  {G : Frame}

theorem pop_bind {v : Value} {k : Value × Frame → Except FrameError Frame} :
    ((Frame.mk locals (v :: stack) limit).pop >>= k) = k (v, ⟨locals, stack, limit⟩) :=
  rfl

private theorem popWidth_bind {v : Value} (hw : v.width = w)
    {k : Value × Frame → Except FrameError Frame} :
    ((Frame.mk locals (v :: stack) limit).popWidth w >>= k) = k (v, ⟨locals, stack, limit⟩) := by
  rw [popWidth_ok_iff.2 ⟨stack, rfl, hw, rfl⟩]
  rfl

private theorem exists_of_pop_bind {k : Value × Frame → Except FrameError Frame}
    (h : ((Frame.mk locals stack limit).pop >>= k) = .ok G) :
    ∃ v rest, stack = v :: rest ∧ k (v, ⟨locals, rest, limit⟩) = .ok G := by
  cases stack with
  | nil => cases h
  | cons v rest => exact ⟨v, rest, rfl, h⟩

private theorem exists_of_popWidth_bind {k : Value × Frame → Except FrameError Frame}
    (h : ((Frame.mk locals stack limit).popWidth w >>= k) = .ok G) :
    ∃ v rest, stack = v :: rest ∧ v.width = w ∧ k (v, ⟨locals, rest, limit⟩) = .ok G := by
  cases hpop : (Frame.mk locals stack limit).popWidth w with
  | error e =>
      rw [hpop] at h
      cases h
  | ok x =>
      obtain ⟨rest, hstack, hw, hx⟩ := popWidth_ok_iff.1 hpop
      rw [hpop] at h
      refine ⟨x.1, rest, hstack, hw, ?_⟩
      rw [← hx]
      exact h

/-- The pushes are checked one by one, but the last one leaves the most slots. -/
theorem pushAll_ok_iff {F : Frame} (hfits : ∀ limit, F.limit = some limit → F.stackSlots ≤ limit)
    {vs : List Value} :
    F.pushAll vs = .ok G ↔
      (∀ limit, F.limit = some limit → (slotsOf (vs.reverse ++ F.stack)).length ≤ limit) ∧
        G = { F with stack := vs.reverse ++ F.stack } := by
  induction vs generalizing F with
  | nil =>
      simp only [pushAll, Except.ok.injEq, List.reverse_nil, List.nil_append, length_slotsOf]
      constructor
      · rintro rfl
        exact ⟨hfits, rfl⟩
      · rintro ⟨-, rfl⟩
        rfl
  | cons v vs ih =>
      simp only [List.reverse_cons, List.append_assoc, List.singleton_append]
      constructor
      · intro h
        simp only [pushAll] at h
        split at h
        · rename_i H hpush
          have hH := push_fits hpush
          obtain ⟨-, rfl⟩ := push_ok_iff.1 hpush
          exact (ih hH).1 h
        · cases h
      · rintro ⟨hall, rfl⟩
        have hpush : F.push v = .ok { F with stack := v :: F.stack } := by
          refine push_ok_iff.2 ⟨fun limit hlimit => ?_, rfl⟩
          have := hall limit hlimit
          simp only [slotsOf_append, slotsOf_cons, List.length_append, Value.toSlots_length,
            length_slotsOf] at this
          omega
        simp only [pushAll, hpush]
        exact (ih (push_fits hpush)).2 ⟨hall, rfl⟩

end Frame

namespace StackOp

open FrameFlow.Frame (pop_bind popWidth_bind exists_of_pop_bind exists_of_popWidth_bind)

variable {F G : Frame} {top below rest : List Value}

private theorem Parts.effect {op : StackOp} (h : op.Parts F.stack top below rest) :
    op.effect F = Frame.pushAll { F with stack := rest } (op.rearrange top below).reverse := by
  obtain ⟨locals, stack, limit⟩ := F
  obtain ⟨hstack, htop, hbelow⟩ := h
  simp only at hstack
  subst hstack
  simp only [StackOp.effect, List.append_assoc]
  cases op with
  | pop =>
      obtain ⟨v₁, rfl, h₁⟩ := eq_of_one_slot htop
      obtain rfl := eq_nil_of_no_slots hbelow
      exact popWidth_bind h₁
  | dup =>
      obtain ⟨v₁, rfl, h₁⟩ := eq_of_one_slot htop
      obtain rfl := eq_nil_of_no_slots hbelow
      exact popWidth_bind h₁
  | dupX1 | swap =>
      obtain ⟨v₁, rfl, h₁⟩ := eq_of_one_slot htop
      obtain ⟨v₂, rfl, h₂⟩ := eq_of_one_slot hbelow
      exact (popWidth_bind h₁).trans (popWidth_bind h₂)
  | pop2 | dup2 =>
      obtain rfl := eq_nil_of_no_slots hbelow
      rcases eq_of_two_slots htop with ⟨v₁, rfl, h₁⟩ | ⟨v₁, v₂, rfl, h₁, h₂⟩
      · simp only [List.cons_append, List.nil_append, pop_bind, h₁]
        rfl
      · simp only [List.cons_append, List.nil_append, pop_bind, h₁]
        exact popWidth_bind h₂
  | dupX2 =>
      obtain ⟨v₁, rfl, h₁⟩ := eq_of_one_slot htop
      rcases eq_of_two_slots hbelow with ⟨v₂, rfl, h₂⟩ | ⟨v₂, v₃, rfl, h₂, h₃⟩
      · simp only [List.cons_append, List.nil_append, pop_bind, popWidth_bind h₁, h₂]
        rfl
      · simp only [List.cons_append, List.nil_append, pop_bind, popWidth_bind h₁, h₂]
        exact popWidth_bind h₃
  | dup2X1 =>
      obtain ⟨v₃, rfl, h₃⟩ := eq_of_one_slot hbelow
      rcases eq_of_two_slots htop with ⟨v₁, rfl, h₁⟩ | ⟨v₁, v₂, rfl, h₁, h₂⟩
      · simp only [List.cons_append, List.nil_append, pop_bind, popWidth_bind h₃, h₁]
        rfl
      · simp only [List.cons_append, List.nil_append, pop_bind, popWidth_bind h₂, h₁]
        exact popWidth_bind h₃
  | dup2X2 =>
      rcases eq_of_two_slots htop with ⟨v₁, rfl, h₁⟩ | ⟨v₁, v₂, rfl, h₁, h₂⟩
      · rcases eq_of_two_slots hbelow with ⟨v₃, rfl, h₃⟩ | ⟨v₃, v₄, rfl, h₃, h₄⟩
        · simp only [List.cons_append, List.nil_append, pop_bind, h₁, h₃]
          rfl
        · simp only [List.cons_append, List.nil_append, pop_bind, h₁, h₃]
          exact popWidth_bind h₄
      · rcases eq_of_two_slots hbelow with ⟨v₃, rfl, h₃⟩ | ⟨v₃, v₄, rfl, h₃, h₄⟩
        · simp only [List.cons_append, List.nil_append, pop_bind, popWidth_bind h₂, h₁, h₃]
          rfl
        · simp only [List.cons_append, List.nil_append, pop_bind, popWidth_bind h₂, h₁, h₃]
          exact popWidth_bind h₄

private theorem exists_parts_of_effect {op : StackOp} (h : op.effect F = .ok G) :
    ∃ top below rest, op.Parts F.stack top below rest := by
  obtain ⟨locals, stack, limit⟩ := F
  cases op with
  | pop | dup =>
      obtain ⟨v₁, rest, rfl, h₁, -⟩ := exists_of_popWidth_bind h
      exact ⟨[v₁], [], rest, rfl, slots_of_width h₁, rfl⟩
  | dupX1 | swap =>
      obtain ⟨v₁, rest, rfl, h₁, hnext⟩ := exists_of_popWidth_bind h
      obtain ⟨v₂, rest, rfl, h₂, -⟩ := exists_of_popWidth_bind hnext
      exact ⟨[v₁], [v₂], rest, rfl, slots_of_width h₁, slots_of_width h₂⟩
  | pop2 | dup2 =>
      obtain ⟨v₁, rest, rfl, hnext⟩ := exists_of_pop_bind h
      cases h₁ : v₁.width with
      | two => exact ⟨[v₁], [], rest, rfl, slots_of_width h₁, rfl⟩
      | one =>
          simp only [h₁] at hnext
          obtain ⟨v₂, rest, rfl, h₂, -⟩ := exists_of_popWidth_bind hnext
          exact ⟨[v₁, v₂], [], rest, rfl, slots_of_widths h₁ h₂, rfl⟩
  | dupX2 =>
      obtain ⟨v₁, rest, rfl, h₁, hnext⟩ := exists_of_popWidth_bind h
      obtain ⟨v₂, rest, rfl, hlast⟩ := exists_of_pop_bind hnext
      cases h₂ : v₂.width with
      | two => exact ⟨[v₁], [v₂], rest, rfl, slots_of_width h₁, slots_of_width h₂⟩
      | one =>
          simp only [h₂] at hlast
          obtain ⟨v₃, rest, rfl, h₃, -⟩ := exists_of_popWidth_bind hlast
          exact ⟨[v₁], [v₂, v₃], rest, rfl, slots_of_width h₁, slots_of_widths h₂ h₃⟩
  | dup2X1 =>
      obtain ⟨v₁, rest, rfl, hnext⟩ := exists_of_pop_bind h
      obtain ⟨v₂, rest, rfl, h₂, hlast⟩ := exists_of_popWidth_bind hnext
      cases h₁ : v₁.width with
      | two => exact ⟨[v₁], [v₂], rest, rfl, slots_of_width h₁, slots_of_width h₂⟩
      | one =>
          simp only [h₁] at hlast
          obtain ⟨v₃, rest, rfl, h₃, -⟩ := exists_of_popWidth_bind hlast
          exact ⟨[v₁, v₂], [v₃], rest, rfl, slots_of_widths h₁ h₂, slots_of_width h₃⟩
  | dup2X2 =>
      obtain ⟨v₁, rest, rfl, hnext⟩ := exists_of_pop_bind h
      cases h₁ : v₁.width with
      | two =>
          simp only [h₁] at hnext
          obtain ⟨v₂, rest, rfl, hlast⟩ := exists_of_pop_bind hnext
          cases h₂ : v₂.width with
          | two => exact ⟨[v₁], [v₂], rest, rfl, slots_of_width h₁, slots_of_width h₂⟩
          | one =>
              simp only [h₂] at hlast
              obtain ⟨v₃, rest, rfl, h₃, -⟩ := exists_of_popWidth_bind hlast
              exact ⟨[v₁], [v₂, v₃], rest, rfl, slots_of_width h₁, slots_of_widths h₂ h₃⟩
      | one =>
          simp only [h₁] at hnext
          obtain ⟨v₂, rest, rfl, h₂, hthird⟩ := exists_of_popWidth_bind hnext
          obtain ⟨v₃, rest, rfl, hlast⟩ := exists_of_pop_bind hthird
          cases h₃ : v₃.width with
          | two => exact ⟨[v₁, v₂], [v₃], rest, rfl, slots_of_widths h₁ h₂, slots_of_width h₃⟩
          | one =>
              simp only [h₃] at hlast
              obtain ⟨v₄, rest, rfl, h₄, -⟩ := exists_of_popWidth_bind hlast
              exact ⟨[v₁, v₂], [v₃, v₄], rest, rfl, slots_of_widths h₁ h₂, slots_of_widths h₃ h₄⟩

private theorem effect_ok_iff {op : StackOp}
    (hfits : ∀ limit, F.limit = some limit → F.stackSlots ≤ limit) :
    op.effect F = .ok G ↔ ∃ top below rest, op.Parts F.stack top below rest ∧
      (∀ limit, F.limit = some limit → (op.onSlots (slotsOf F.stack)).length ≤ limit) ∧
        G = { F with stack := op.rearrange top below ++ rest } := by
  have hpush {top below rest : List Value} (hparts : op.Parts F.stack top below rest) :
      op.effect F = .ok G ↔
        (∀ limit, F.limit = some limit → (op.onSlots (slotsOf F.stack)).length ≤ limit) ∧
          G = { F with stack := op.rearrange top below ++ rest } := by
    have hrest : ∀ limit, F.limit = some limit →
        Frame.stackSlots { F with stack := rest } ≤ limit := by
      intro limit hlimit
      have := hfits limit hlimit
      rw [← Frame.length_slotsOf, hparts.whole, slotsOf_append, List.length_append] at this
      rw [← Frame.length_slotsOf]
      exact Nat.le_trans (Nat.le_add_left _ _) this
    rw [hparts.effect, Frame.pushAll_ok_iff hrest, List.reverse_reverse, hparts.onSlots]
  constructor
  · intro h
    obtain ⟨top, below, rest, hparts⟩ := exists_parts_of_effect h
    exact ⟨top, below, rest, hparts, (hpush hparts).1 h⟩
  · rintro ⟨top, below, rest, hparts, h⟩
    exact (hpush hparts).2 h

end StackOp

/--
A frame made by frame operations has its stack within the limit.  On each such
frame a stack instruction is carried out exactly when its slots are there, its
cuts go between values and its result is within the limit, and then it does to
the slots what the rule says.
-/
theorem Config.transfer_stack_slots {σ : Type} (cfg : Config σ) (world : σ) (position : Nat)
    (op : StackOp) {F : Frame} (hfits : ∀ limit, F.limit = some limit → F.stackSlots ≤ limit) :
    ((∃ G, (cfg.transfer position (.stack op) F world).1 = .ok G) ↔
        op.reach ≤ (slotsOf F.stack).length ∧ (∀ n ∈ op.cuts, ¬Splits F.stack n) ∧
          ∀ limit, F.limit = some limit → (op.onSlots (slotsOf F.stack)).length ≤ limit) ∧
      ∀ G, (cfg.transfer position (.stack op) F world).1 = .ok G →
        slotsOf G.stack = op.onSlots (slotsOf F.stack) ∧ G.locals = F.locals ∧
          G.limit = F.limit := by
  have htransfer (G : Frame) :
      (cfg.transfer position (.stack op) F world).1 = .ok G ↔ op.effect F = .ok G := by
    change Fault.ofFrame (op.effect F) = .ok G ↔ _
    cases op.effect F <;> simp [Fault.ofFrame]
  simp only [htransfer, StackOp.effect_ok_iff hfits]
  constructor
  · rw [← and_assoc, ← StackOp.exists_parts_iff]
    constructor
    · rintro ⟨G, top, below, rest, hparts, hroom, -⟩
      exact ⟨⟨top, below, rest, hparts⟩, hroom⟩
    · rintro ⟨⟨top, below, rest, hparts⟩, hroom⟩
      exact ⟨_, top, below, rest, hparts, hroom, rfl⟩
  · rintro G ⟨top, below, rest, hparts, -, rfl⟩
    exact ⟨hparts.onSlots.symm, rfl, rfl⟩

def sandwich (limit : Nat) : Frame :=
  ⟨[none], [.const (.int 1), .const (.long 2), .const (.int 3)], some limit⟩

theorem sandwich_slots :
    (∃ G, (({} : Config Unit).transfer 0 (.stack .dupX2) (sandwich 5) ()).1 = .ok G ∧
        slotsOf G.stack = [.whole (.const (.int 1)), .upper (.const (.long 2)),
          .lower (.const (.long 2)), .whole (.const (.int 1)), .whole (.const (.int 3))] ∧
        G.locals = [none]) ∧
      (¬∃ G, (({} : Config Unit).transfer 0 (.stack .dup2) (sandwich 6) ()).1 = .ok G) ∧
      ¬∃ G, (({} : Config Unit).transfer 0 (.stack .dupX2) (sandwich 4) ()).1 = .ok G := by
  have hfits (limit : Nat) (hlimit : 4 ≤ limit) :
      ∀ bound, (sandwich limit).limit = some bound → (sandwich limit).stackSlots ≤ bound := by
    intro bound hbound
    cases hbound
    exact hlimit
  have hrule (op : StackOp) (limit : Nat) (hlimit : 4 ≤ limit) :=
    Config.transfer_stack_slots ({} : Config Unit) () 0 op (hfits limit hlimit)
  refine ⟨?_, ?_, ?_⟩
  · obtain ⟨hsucceeds, hresult⟩ := hrule .dupX2 5 (by decide)
    obtain ⟨G, hG⟩ := hsucceeds.2 (by
      refine ⟨by decide, fun n hn => ?_, fun bound hbound => ?_⟩
      · simp only [StackOp.cuts, List.mem_cons, List.not_mem_nil, or_false] at hn
        rcases hn with rfl | rfl
        · exact not_splits_append [.const (.int 1)] [.const (.long 2), .const (.int 3)]
        · exact not_splits_append [.const (.int 1), .const (.long 2)] [.const (.int 3)]
      · cases hbound
        decide)
    obtain ⟨hslots, hlocals, -⟩ := hresult G hG
    exact ⟨G, hG, hslots, hlocals⟩
  · intro hdone
    obtain ⟨-, hcuts, -⟩ := (hrule .dup2 6 (by decide)).1.1 hdone
    exact hcuts 2 (by decide)
      ⟨[.const (.int 1)], .const (.long 2), [.const (.int 3)], rfl, rfl, rfl⟩
  · intro hdone
    obtain ⟨-, -, hroom⟩ := (hrule .dupX2 4 (by decide)).1.1 hdone
    exact absurd (hroom 4 rfl) (by decide)

end FrameFlow

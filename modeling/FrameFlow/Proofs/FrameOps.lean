import FrameFlow.Proofs.FrameOrder
import FrameFlow.Proofs.Parallel

/-!
# What frame operations do

When each operation on a frame succeeds, and the frame it then gives.
Instructions are made of pushes, pops and writes, so a property that these keep
is kept by every instruction, and one that pushes and pops keep is kept by every
instruction that does not write.
-/

namespace FrameFlow

def Ensures {ε α : Type} (P : α → Prop) (x : Except ε α) : Prop :=
  ∀ a, x = .ok a → P a

namespace Ensures

variable {ε α β : Type} {P : α → Prop} {Q : β → Prop}

private theorem ok {a : α} (h : P a) : Ensures P (.ok a : Except ε α) := by
  intro a' ha'
  cases ha'
  exact h

theorem any (x : Except ε α) : Ensures (fun _ => True) x :=
  fun _ _ => trivial

theorem bind {x : Except ε α} {f : α → Except ε β} (h : Ensures P x)
    (hf : ∀ a, P a → Ensures Q (f a)) : Ensures Q (x >>= f) := by
  cases x with
  | error e =>
      intro b hb
      cases hb
  | ok a => exact hf a (h a rfl)

theorem concurs {E : ε → Prop} {R : α → α → Prop} {x : Except ε α} (h : Ensures P x)
    (hR : ∀ a, P a → R a a) : Concurs E R x x := by
  cases x with
  | error e => exact .error e
  | ok a => exact .ok (hR a (h a rfl))

end Ensures

theorem Concurs.ensures {ε α β : Type} {E : ε → Prop} {R : α → β → Prop} {x : Except ε α}
    {y : Except ε β} {P : α → Prop} (h : Concurs E R x y) (hP : ∀ a b, R a b → P a) :
    Ensures P x := by
  cases h with
  | ok hab => exact .ok (hP _ _ hab)
  | error e | excused _ _ =>
      intro a ha
      cases ha

namespace Frame

variable {F G H : Frame} {v : Value} {w : Width}

/-! ## The operand stack -/

theorem push_ok_iff :
    F.push v = .ok H ↔
      (∀ limit, F.limit = some limit → F.stackSlots + v.width.slots ≤ limit) ∧
        H = { F with stack := v :: F.stack } := by
  unfold push
  cases hlimit : F.limit with
  | none => simp [eq_comm]
  | some limit =>
      by_cases hfits : F.stackSlots + v.width.slots ≤ limit
      · simp [hfits, eq_comm]
      · simp [hfits]

theorem push_fits (h : F.push v = .ok H) (limit : Nat) (hlimit : H.limit = some limit) :
    H.stackSlots ≤ limit := by
  obtain ⟨hfits, rfl⟩ := push_ok_iff.1 h
  have := hfits limit hlimit
  simp only [stackSlots, List.map_cons, Width.total_cons] at this ⊢
  omega

theorem pop_fits {rest : List Value} {limit : Nat} (h : F.stackSlots ≤ limit)
    (hstack : F.stack = v :: rest) : stackSlots { F with stack := rest } ≤ limit := by
  simp only [stackSlots, hstack, List.map_cons, Width.total_cons] at h ⊢
  omega

theorem pop_ok_iff :
    F.pop = .ok (v, H) ↔ ∃ rest, F.stack = v :: rest ∧ H = { F with stack := rest } := by
  unfold pop
  cases F.stack with
  | nil => simp
  | cons u rest =>
      simp only [Except.ok.injEq, Prod.mk.injEq, List.cons.injEq]
      constructor
      · rintro ⟨rfl, rfl⟩
        exact ⟨rest, ⟨rfl, rfl⟩, rfl⟩
      · rintro ⟨_, ⟨rfl, rfl⟩, rfl⟩
        exact ⟨rfl, rfl⟩

theorem popWidth_ok_iff :
    F.popWidth w = .ok (v, H) ↔
      ∃ rest, F.stack = v :: rest ∧ v.width = w ∧ H = { F with stack := rest } := by
  unfold popWidth takeWidth
  cases F.stack with
  | nil => simp
  | cons u rest =>
      by_cases hw : u.width = w
      · simp only [hw, if_true, Except.ok.injEq, Prod.mk.injEq, List.cons.injEq]
        constructor
        · rintro ⟨rfl, rfl⟩
          exact ⟨rest, ⟨rfl, rfl⟩, hw, rfl⟩
        · rintro ⟨_, ⟨rfl, rfl⟩, _, rfl⟩
          exact ⟨rfl, rfl⟩
      · simp only [hw, if_false, reduceCtorEq, List.cons.injEq, false_iff, not_exists, not_and]
        rintro _ ⟨rfl, rfl⟩ hv
        exact absurd hv hw

/-! ## The local table -/

theorem readLocal_ok_iff {k : Nat} :
    F.readLocal k = .ok v ↔ F.locals[k]? = some (some v) := by
  unfold readLocal
  cases F.locals[k]? with
  | none => simp
  | some slot => cases slot <;> simp

theorem writeLocal_ok_iff {k : Nat} :
    F.writeLocal k v = .ok H ↔
      k + v.width.slots ≤ F.locals.length ∧ H = { F with locals := placeLocal F.locals k v } := by
  unfold writeLocal
  by_cases hfits : k + v.width.slots ≤ F.locals.length
  · simp [hfits, eq_comm]
  · simp [hfits]

@[simp] theorem cutBelow_length (locals : List (Option Value)) (k : Nat) :
    (cutBelow locals k).length = locals.length := by
  cases k with
  | zero => rfl
  | succ k =>
      simp only [cutBelow]
      split <;> simp

@[simp] theorem placeLocal_length (locals : List (Option Value)) (k : Nat) (v : Value) :
    (placeLocal locals k v).length = locals.length := by
  unfold placeLocal
  cases v.width <;> simp

private theorem isWideAt_iff {locals : List (Option Value)} {k : Nat} :
    isWideAt locals k = true ↔ ∃ b, locals[k]? = some (some b) ∧ b.width = .two := by
  unfold isWideAt
  split
  · rename_i b hb
    simp [hb]
  · rename_i hempty
    simp only [Bool.false_eq_true, false_iff, not_exists, not_and]
    intro b hb
    exact absurd hb (hempty b)

private theorem cutBelow_present {locals : List (Option Value)} {k j : Nat} {b : Value} :
    (cutBelow locals k)[j]? = some (some b) ↔
      locals[j]? = some (some b) ∧ ¬(j + 1 = k ∧ b.width = .two) := by
  cases k with
  | zero => simp [cutBelow]
  | succ k =>
      simp only [cutBelow, Nat.add_right_cancel_iff]
      by_cases hwide : isWideAt locals k = true
      · obtain ⟨u, hu, hw⟩ := isWideAt_iff.1 hwide
        rw [if_pos hwide, List.getElem?_set]
        by_cases hj : k = j
        · subst hj
          simp only [if_true, hu, Option.some.injEq, true_and]
          constructor
          · intro h
            split at h <;> cases h
          · rintro ⟨rfl, hne⟩
            exact absurd hw hne
        · simp [hj, Ne.symm hj]
      · rw [if_neg hwide]
        constructor
        · intro h
          refine ⟨h, ?_⟩
          rintro ⟨rfl, hw⟩
          exact hwide (isWideAt_iff.2 ⟨b, h, hw⟩)
        · exact And.left

/--
After a write a slot holds the written value, or what it held before unless the
two overlap.
-/
theorem placeLocal_present {locals : List (Option Value)} {k j : Nat} {b : Value}
    (hk : k < locals.length) :
    (placeLocal locals k v)[j]? = some (some b) ↔
      (j = k ∧ b = v) ∨
        (j ≠ k ∧ locals[j]? = some (some b) ∧ ¬(j + 1 = k ∧ b.width = .two) ∧
          ¬(j = k + 1 ∧ v.width = .two)) := by
  unfold placeLocal
  by_cases hj : k = j
  · subst hj
    cases v.width <;> simp [hk, eq_comm]
  · cases hv : v.width with
    | one => simp [List.getElem?_set_ne hj, cutBelow_present, Ne.symm hj]
    | two =>
        simp only [List.getElem?_set_ne hj, Ne.symm hj, false_and, false_or, ne_eq,
          not_false_eq_true, true_and, and_true]
        by_cases hnext : k + 1 = j
        · subst hnext
          rw [List.getElem?_set]
          simp only [if_true]
          constructor
          · intro h
            split at h <;> cases h
          · rintro ⟨_, _, h⟩
            exact absurd trivial h
        · simp [List.getElem?_set_ne hnext, cutBelow_present, Ne.symm hnext]

/-! ## Properties that instructions keep -/

/-- Kept by pushing and popping. -/
structure Held (P : Frame → Prop) : Prop where
  push : ∀ {F H v}, P F → F.push v = .ok H → P H
  pop : ∀ {F : Frame} {v rest}, P F → F.stack = v :: rest → P { F with stack := rest }

/-- Kept by writing locals, too. -/
structure Kept (P : Frame → Prop) : Prop extends Held P where
  write : ∀ {F H k v}, P F → F.writeLocal k v = .ok H → P H

theorem held_clearStack (F : Frame) : Held fun G => G.clearStack = F.clearStack where
  push h hpush := by
    obtain ⟨_, rfl⟩ := push_ok_iff.1 hpush
    exact h
  pop h _ := h

theorem eq_of_clearStack (h : G.clearStack = F.clearStack) : G = { F with stack := G.stack } := by
  cases F
  cases G
  cases h
  rfl

variable {P : Frame → Prop} {τ : Type}

namespace Held

theorem ensures_push (hP : Held P) (h : P F) : Ensures P (F.push v) :=
  fun _ hpush => hP.push h hpush

theorem ensures_pushResult (hP : Held P) (h : P F) (result : Option Value) :
    Ensures P (F.pushResult result) := by
  cases result with
  | none => exact .ok h
  | some v => exact hP.ensures_push h

theorem ensures_pop (hP : Held P) (h : P F) : Ensures (fun x => P x.2) F.pop := by
  rintro ⟨v, G⟩ hpop
  obtain ⟨rest, hstack, rfl⟩ := pop_ok_iff.1 hpop
  exact hP.pop h hstack

theorem clearStack (hP : Held P) (h : P F) : P F.clearStack := by
  obtain ⟨locals, stack, limit⟩ := F
  induction stack with
  | nil => exact h
  | cons v rest ih => exact ih (hP.pop h rfl)

/-- A frame beside itself: what instructions do in parallel, they do to one frame. -/
theorem parallelStacks (hP : Held P) :
    ParallelStacks (fun _ => False) Eq fun F G => F = G ∧ P F where
  width := congrArg Value.width
  push := by
    rintro F _ v _ ⟨rfl, h⟩ rfl
    exact (hP.ensures_push h).concurs fun _ hH => ⟨rfl, hH⟩
  pop := by
    rintro F _ ⟨rfl, h⟩
    exact (hP.ensures_pop h).concurs fun _ hrest => ⟨rfl, rfl, hrest⟩
  read := by
    rintro F _ ⟨rfl, _⟩ k
    exact (Ensures.any _).concurs fun _ _ => rfl
  unresolved _ := rfl
  const _ := rfl
  ref _ := rfl
  fold₁ := by
    rintro f w a _ _ rfl
    rfl
  fold₂ := by
    rintro f w a _ a' _ _ rfl rfl
    rfl

theorem ensures_popWidths (hP : Held P) (h : P F) (ws : List Width) :
    Ensures (fun x => P x.2) (F.popWidths ws) :=
  (hP.parallelStacks.popWidths ⟨rfl, h⟩ ws).ensures fun _ _ hrest => hrest.2.2

theorem ensures_effect_of_unwritten (hP : Held P) (h : P F) {insn : Insn τ}
    (hinsn : insn.written? = none) : Ensures P (insn.effect F) := by
  have hconcurs := hP.parallelStacks.effect ⟨rfl, h⟩ insn (by simp [hinsn]) (by
    rintro className rfl
    exact hP.parallelStacks.instanceOf (fun _ hab => hab ▸ rfl) ⟨rfl, h⟩ className)
  exact hconcurs.ensures fun _ _ hH => hH.2

end Held

namespace Kept

private theorem parallel (hP : Kept P) : Parallel (fun _ => False) Eq fun F G => F = G ∧ P F where
  toParallelStacks := hP.parallelStacks
  write := by
    rintro F _ v _ ⟨rfl, h⟩ rfl k
    exact Ensures.concurs (fun _ hwrite => hP.write h hwrite) fun _ hH => ⟨rfl, hH⟩

theorem ensures_effect (hP : Kept P) (h : P F) (insn : Insn τ) : Ensures P (insn.effect F) :=
  (hP.parallel.effect_of_test (fun _ hab => hab ▸ rfl) ⟨rfl, h⟩ insn).ensures fun _ _ h => h.2

end Kept

end Frame

end FrameFlow

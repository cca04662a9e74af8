import FrameFlow.Frame.Script
import FrameFlow.Proofs.FrameOps
import Mathlib.Data.List.Induction
import Mathlib.Order.Interval.Finset.Nat

/-!
# The last writer of a slot

Writes are made one after another on a new frame, and those that do not fit leave
it as it was.  A local that is read is then the value that was last written there,
unless a later write has taken one of its slots: a write looks only at the slots
next to its own, and still no half of a value is ever read and no value that nothing
touched is ever lost.
-/

namespace FrameFlow.Frame

variable {F : Frame} {write : Nat × Value} {writes : List (Nat × Value)} {k : Nat} {v : Value}

/-! ## One write -/

def tryWrite (F : Frame) (write : Nat × Value) : Frame :=
  (F.act (.write write.1 write.2)).2

def tryWrites (F : Frame) (writes : List (Nat × Value)) : Frame :=
  writes.foldl tryWrite F

def Accepts (F : Frame) (write : Nat × Value) : Prop :=
  ∃ G, F.writeLocal write.1 write.2 = .ok G

def extent (write : Nat × Value) : Finset Nat :=
  Finset.Ico write.1 (write.1 + write.2.width.slots)

theorem accepts_iff : F.Accepts write ↔ write.1 + write.2.width.slots ≤ F.locals.length := by
  simp [Accepts, writeLocal_ok_iff]

theorem tryWrite_of_ok {G : Frame} (h : F.writeLocal write.1 write.2 = .ok G) :
    F.tryWrite write = G := by
  simp [tryWrite, act, h, replace, Except.map]

private theorem tryWrite_of_not_accepts (h : ¬F.Accepts write) : F.tryWrite write = F := by
  cases hwrite : F.writeLocal write.1 write.2 with
  | ok G => exact absurd ⟨G, hwrite⟩ h
  | error e => simp [tryWrite, act, hwrite, replace, Except.map]

private theorem tryWrite_length (F : Frame) (write : Nat × Value) :
    (F.tryWrite write).locals.length = F.locals.length := by
  by_cases haccepts : F.Accepts write
  · obtain ⟨G, hG⟩ := haccepts
    rw [tryWrite_of_ok hG, (writeLocal_ok_iff.1 hG).2]
    exact placeLocal_length _ _ _
  · rw [tryWrite_of_not_accepts haccepts]

/-- What a write looks at on both sides of its slots is just what it would overlap. -/
theorem disjoint_extent_iff {j : Nat} {u : Value} :
    Disjoint (extent (k, v)) (extent (j, u)) ↔
      k ≠ j ∧ ¬(k + 1 = j ∧ v.width = .two) ∧ ¬(k = j + 1 ∧ u.width = .two) := by
  have hapart : Disjoint (extent (k, v)) (extent (j, u)) ↔
      k + v.width.slots ≤ j ∨ j + u.width.slots ≤ k := by
    rw [Finset.disjoint_left]
    simp only [extent, Finset.mem_Ico]
    have hv := v.width.slots_pos
    have hu := u.width.slots_pos
    constructor
    · intro h
      have := @h k
      have := @h j
      omega
    · intro h slot
      omega
  rw [hapart]
  cases v.width <;> cases u.width <;>
    simp only [Width.slots, reduceCtorEq, and_false, and_true, true_and,
      not_false_eq_true] <;> omega

private theorem tryWrite_present :
    (F.tryWrite write).locals[k]? = some (some v) ↔
      (F.Accepts write ∧ write = (k, v)) ∨
        (F.locals[k]? = some (some v) ∧
          (F.Accepts write → Disjoint (extent (k, v)) (extent write))) := by
  by_cases haccepts : F.Accepts write
  · obtain ⟨j, u⟩ := write
    have hj : j < F.locals.length := by
      have hfits := accepts_iff.1 haccepts
      have := u.width.slots_pos
      simp only at hfits
      omega
    obtain ⟨G, hG⟩ := id haccepts
    rw [tryWrite_of_ok hG, (writeLocal_ok_iff.1 hG).2]
    simp only [placeLocal_present hj, haccepts, disjoint_extent_iff, true_and, true_implies,
      Prod.mk.injEq, @eq_comm _ j, @eq_comm _ u]
    tauto
  · rw [tryWrite_of_not_accepts haccepts]
    simp [haccepts]

/-! ## Many writes -/

private theorem tryWrites_concat (F : Frame) (writes : List (Nat × Value)) (write : Nat × Value) :
    F.tryWrites (writes ++ [write]) = (F.tryWrites writes).tryWrite write := by
  simp [tryWrites]

theorem tryWrites_length (F : Frame) (writes : List (Nat × Value)) :
    (F.tryWrites writes).locals.length = F.locals.length := by
  induction writes using List.reverseRecOn with
  | nil => rfl
  | append_singleton writes write ih => rw [tryWrites_concat, tryWrite_length, ih]

/--
A write that succeeded put the value there, and no later one that succeeded
overlaps it.
-/
def LastWriter (F : Frame) (writes : List (Nat × Value)) (k : Nat) (v : Value) : Prop :=
  ∃ before after, writes = before ++ (k, v) :: after ∧ (F.tryWrites before).Accepts (k, v) ∧
    ∀ between later rest, after = between ++ later :: rest →
      (F.tryWrites (before ++ (k, v) :: between)).Accepts later →
        Disjoint (extent (k, v)) (extent later)

private theorem not_lastWriter_nil : ¬F.LastWriter [] k v := by
  rintro ⟨before, after, heq, _⟩
  simp at heq

private theorem lastWriter_concat :
    F.LastWriter (writes ++ [write]) k v ↔
      ((F.tryWrites writes).Accepts write ∧ write = (k, v)) ∨
        (F.LastWriter writes k v ∧
          ((F.tryWrites writes).Accepts write → Disjoint (extent (k, v)) (extent write))) := by
  constructor
  · rintro ⟨before, after, heq, hwritten, hlater⟩
    rcases List.eq_nil_or_concat after with rfl | ⟨after, last, rfl⟩
    · obtain ⟨rfl, hlast⟩ := List.append_inj' heq rfl
      cases hlast
      exact .inl ⟨hwritten, rfl⟩
    · rw [List.concat_eq_append, ← List.cons_append, ← List.append_assoc] at heq
      obtain ⟨rfl, hlast⟩ := List.append_inj' heq rfl
      cases hlast
      refine .inr ⟨⟨before, after, rfl, hwritten, ?_⟩, hlater after write [] (by simp)⟩
      rintro between later rest rfl
      exact hlater between later (rest ++ [write]) (by simp)
  · rintro (⟨hwritten, rfl⟩ | ⟨⟨before, after, rfl, hwritten, hlater⟩, hlast⟩)
    · exact ⟨writes, [], rfl, hwritten, by simp⟩
    · refine ⟨before, after ++ [write], by simp, hwritten, ?_⟩
      intro between later rest heq
      rcases List.eq_nil_or_concat rest with rfl | ⟨rest, last, rfl⟩
      · obtain ⟨rfl, hlater⟩ := List.append_inj' heq rfl
        cases hlater
        exact hlast
      · rw [List.concat_eq_append, ← List.cons_append, ← List.append_assoc] at heq
        exact hlater between later rest (List.append_inj' heq rfl).1

theorem tryWrites_present (n : Nat) (limit : Option Nat) :
    ((empty n limit).tryWrites writes).locals[k]? = some (some v) ↔
      (empty n limit).LastWriter writes k v := by
  induction writes using List.reverseRecOn with
  | nil =>
      simp only [not_lastWriter_nil, iff_false]
      simp [tryWrites, empty, List.getElem?_replicate]
  | append_singleton writes write ih =>
      rw [tryWrites_concat, tryWrite_present, lastWriter_concat, ih]

/--
A local reads as the value of its last writer.  Without one it reads as empty, or as
missing where the table has no such slot.
-/
theorem readLocal_lastWriter (n : Nat) (limit : Option Nat) (writes : List (Nat × Value))
    (k : Nat) :
    (∀ v, ((empty n limit).tryWrites writes).readLocal k = .ok v ↔
      (empty n limit).LastWriter writes k v) ∧
    ((∀ v, ¬(empty n limit).LastWriter writes k v) →
      ((empty n limit).tryWrites writes).readLocal k =
        .error (if k < n then .emptyLocal k else .noSuchLocal k n)) := by
  have hsize : ((empty n limit).tryWrites writes).locals.length = n := by
    rw [tryWrites_length]
    simp [empty]
  constructor
  · intro v
    rw [readLocal_ok_iff, tryWrites_present]
  · intro hnone
    unfold readLocal
    cases hslot : ((empty n limit).tryWrites writes).locals[k]? with
    | none =>
        have hout := List.getElem?_eq_none_iff.1 hslot
        rw [hsize] at hout
        simp [hsize, Nat.not_lt.2 hout]
    | some slot =>
        have hin := (List.getElem?_eq_some_iff.1 hslot).1
        rw [hsize] at hin
        cases slot with
        | none => simp [hin]
        | some v => exact absurd ((tryWrites_present n limit).1 hslot) (hnone v)

def overlappingWrites : List (Nat × Value) :=
  [(1, .const (.long 1)), (2, .const (.long 2)), (4, .const (.int 4)), (6, .unresolved .two),
    (3, .ref "Order"), (5, .const (.double 5)), (7, .const (.long 7)), (6, .const (.long 6))]

theorem overlappingWrites_read :
    (empty 8 none).LastWriter overlappingWrites 3 (.ref "Order") ∧
      (empty 8 none).LastWriter overlappingWrites 4 (.const (.int 4)) ∧
      (∀ v, ¬(empty 8 none).LastWriter overlappingWrites 5 v) ∧
      ((empty 8 none).tryWrites overlappingWrites).readLocal 5 = .error (.emptyLocal 5) ∧
      ((empty 8 none).tryWrites overlappingWrites).readLocal 8 = .error (.noSuchLocal 8 8) := by
  have hread := readLocal_lastWriter 8 none overlappingWrites
  have hnone {k : Nat} {e : FrameError}
      (herror : ((empty 8 none).tryWrites overlappingWrites).readLocal k = .error e) (v : Value) :
      ¬(empty 8 none).LastWriter overlappingWrites k v := by
    rw [← (hread k).1 v, herror]
    simp
  have hempty : ((empty 8 none).tryWrites overlappingWrites).readLocal 5 =
      .error (.emptyLocal 5) := by decide +kernel
  have hmissing : ((empty 8 none).tryWrites overlappingWrites).readLocal 8 =
      .error (.noSuchLocal 8 8) := by decide +kernel
  exact ⟨((hread 3).1 _).1 (by decide +kernel), ((hread 4).1 _).1 (by decide +kernel),
    hnone hempty, (hread 5).2 (hnone hempty), (hread 8).2 (hnone hmissing)⟩

end FrameFlow.Frame

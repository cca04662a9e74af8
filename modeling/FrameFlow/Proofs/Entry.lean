import FrameFlow.Proofs.Growth
import FrameFlow.Proofs.Monotone

/-!
# The entry frame

The arguments arrive in slots next to each other, which the local table holds
once it has been checked.  Nothing is known about them but their widths and the
class of the receiver.
-/

namespace FrameFlow

namespace Frame

variable {F G : Frame} {values : List (Nat × Value)}

theorem writeLocals_cons_ok {slot : Nat} {v : Value} :
    F.writeLocals ((slot, v) :: values) = .ok G ↔
      ∃ H, F.writeLocal slot v = .ok H ∧ H.writeLocals values = .ok G := by
  simp only [writeLocals]
  cases F.writeLocal slot v <;> simp

theorem Kept.writeLocals {P : Frame → Prop} (hP : Kept P) (hF : P F)
    (h : F.writeLocals values = .ok G) : P G := by
  induction values generalizing F with
  | nil =>
      cases h
      exact hF
  | cons value rest ih =>
      obtain ⟨H, hwrite, hrest⟩ := writeLocals_cons_ok.1 h
      exact ih (hP.write hF hwrite) hrest

private theorem writeLocals_rel {R : Value → Value → Prop} (hR : JoinStable R) (hF : Rel R F F)
    (hvalues : ∀ value ∈ values, R value.2 value.2) (h : F.writeLocals values = .ok G) :
    Rel R G G := by
  induction values generalizing F with
  | nil =>
      cases h
      exact hF
  | cons value rest ih =>
      obtain ⟨H, hwrite, hrest⟩ := writeLocals_cons_ok.1 h
      obtain ⟨H', hwrite', hH⟩ :=
        writeLocal_follows hR hF (hvalues value (by simp)) value.1 H hwrite
      cases hwrite.symm.trans hwrite'
      exact ih hH (fun value hvalue => hvalues value (by simp [hvalue])) hrest

private theorem writeLocals_ok
    (h : ∀ value ∈ values, value.1 + value.2.width.slots ≤ F.locals.length) :
    ∃ G, F.writeLocals values = .ok G := by
  induction values generalizing F with
  | nil => exact ⟨F, rfl⟩
  | cons value rest ih =>
      have hwrite := writeLocal_ok_iff.2 ⟨h value (by simp), rfl⟩
      obtain ⟨G, hG⟩ := ih (F := { F with locals := placeLocal F.locals value.1 value.2 })
        fun other hother => by
          simpa using h other (by simp [hother])
      exact ⟨G, writeLocals_cons_ok.2 ⟨_, hwrite, hG⟩⟩

end Frame

private theorem parametersFrom_slot_le {slot : Nat} {types : List FieldType} {x : Nat × FieldType}
    (h : x ∈ parametersFrom slot types) :
    x.1 + x.2.width.slots ≤ slot + Width.total (types.map FieldType.width) := by
  induction types generalizing slot with
  | nil => cases h
  | cons t types ih =>
      simp only [List.map_cons, Width.total_cons]
      rcases List.mem_cons.1 h with rfl | hrest
      · simp only
        omega
      · have := ih hrest
        omega

namespace Method

variable {m : Method} {seed : Frame}

private theorem arguments_cases {value : Nat × Value} (h : value ∈ m.arguments) :
    (∃ x ∈ m.parameters, value = (x.1, .unresolved x.2.width)) ∨
      (m.access.isStatic = false ∧ value = (0, .ref m.owner)) := by
  have hparams (h : value ∈ m.parameters.map fun x => (x.1, .unresolved x.2.width)) :
      ∃ x ∈ m.parameters, value = (x.1, .unresolved x.2.width) := by
    obtain ⟨x, hx, rfl⟩ := List.mem_map.1 h
    exact ⟨x, hx, rfl⟩
  unfold arguments at h
  cases hstatic : m.access.isStatic with
  | true =>
      simp only [hstatic, if_true] at h
      exact .inl (hparams h)
  | false =>
      simp only [hstatic, Bool.false_eq_true, if_false, List.mem_cons] at h
      rcases h with rfl | h
      · exact .inr ⟨rfl, rfl⟩
      · exact .inl (hparams h)

theorem entryFrame_of (h : m.entryFrame = .ok seed) : seed.Of m :=
  (Frame.lasting_of m).writeLocals (Frame.empty_of m) h

theorem entryFrame_rel {R : Value → Value → Prop} (hR : Respected R)
    (h : m.entryFrame = .ok seed) : Frame.Rel R seed seed := by
  refine Frame.writeLocals_rel hR.toJoinStable ?_ (fun value hvalue => ?_) h
  · refine ⟨.refl _, fun k b hb => ?_, .nil⟩
    simp [Frame.empty, List.getElem?_replicate] at hb
  · rcases arguments_cases hvalue with ⟨x, _, rfl⟩ | ⟨_, rfl⟩
    · exact hR.unresolved _
    · exact hR.ref _

theorem entryFrame_refines (h : m.entryFrame = .ok seed) :
    Frame.Rel Value.Refines seed seed :=
  entryFrame_rel Value.refines_respected h

theorem entryFrame_ok (h : m.checkLocals = .ok ()) : ∃ seed, m.entryFrame = .ok seed := by
  have hslots : m.argumentSlots ≤ m.maxLocals := by
    by_contra hfew
    simp [checkLocals, hfew] at h
  refine Frame.writeLocals_ok fun value hvalue => ?_
  simp only [Frame.empty, List.length_replicate]
  unfold argumentSlots at hslots
  rcases arguments_cases hvalue with ⟨x, hx, rfl⟩ | ⟨hstatic, rfl⟩
  · have hle := parametersFrom_slot_le hx
    unfold MethodType.paramSlots at hslots
    exact Nat.le_trans hle hslots
  · simp only [receiverSlots, hstatic, Bool.false_eq_true, if_false] at hslots
    simp only [Value.width, Width.slots]
    omega

end Method

end FrameFlow

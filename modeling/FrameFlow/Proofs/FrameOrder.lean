import FrameFlow.Frame.Merge
import FrameFlow.Proofs.ValueOrder
import Mathlib.Data.List.Forall2

/-!
# The order of frames

A relation between values extends to frames of one table size and one stack
limit: stacks of one height are related entry by entry, and every local present
in the upper frame is present in the lower one with a related value.  An empty
local is therefore above everything.  With the order of values this is an
order, merging gives least upper bounds in it, and a merge reports no change
exactly when the merged frame was below already.
-/

namespace FrameFlow

/-- Relations that values of one width enter, and that joins do not leave. -/
structure JoinStable (R : Value → Value → Prop) : Prop where
  width : ∀ {a b}, R a b → a.width = b.width
  lub : ∀ {a b c}, R a c → R b c → R (a.lub b) c
  above : ∀ {a b c}, R a b → b ≤ c → R a c

theorem joinStable_le : JoinStable fun a b => a ≤ b where
  width := Value.width_eq_of_le
  lub := Value.lub_le
  above := le_trans

theorem joinStable_width : JoinStable fun a b => a.width = b.width where
  width h := h
  lub ha _ := (Value.lub_width _ _).trans ha
  above h hle := h.trans (Value.width_eq_of_le hle)

namespace Frame

structure Alike (F G : Frame) : Prop where
  limit : F.limit = G.limit
  size : F.locals.length = G.locals.length

structure Rel (R : Value → Value → Prop) (F G : Frame) : Prop extends Alike F G where
  locals : ∀ (k : Nat) (b : Value), G.locals[k]? = some (some b) →
    ∃ a, F.locals[k]? = some (some a) ∧ R a b
  stack : List.Forall₂ R F.stack G.stack

instance : LE Frame := ⟨Rel fun a b => a ≤ b⟩

theorem le_iff_rel {F G : Frame} : F ≤ G ↔ Rel (fun a b => a ≤ b) F G :=
  Iff.rfl

theorem Alike.refl (F : Frame) : Alike F F :=
  ⟨rfl, rfl⟩

theorem Alike.symm {F G : Frame} (h : Alike F G) : Alike G F :=
  ⟨h.limit.symm, h.size.symm⟩

theorem Alike.trans {F G H : Frame} (hFG : Alike F G) (hGH : Alike G H) : Alike F H :=
  ⟨hFG.limit.trans hGH.limit, hFG.size.trans hGH.size⟩

private theorem forall₂_above {R : Value → Value → Prop} (hR : JoinStable R) {s t u : List Value}
    (hst : List.Forall₂ R s t) (htu : List.Forall₂ (fun a b => a ≤ b) t u) :
    List.Forall₂ R s u := by
  induction hst generalizing u with
  | nil =>
      cases htu
      exact .nil
  | cons hab _ ih =>
      cases htu with
      | cons hbc htail => exact .cons (hR.above hab hbc) (ih htail)

theorem Rel.above {R : Value → Value → Prop} (hR : JoinStable R) {F G H : Frame}
    (hFG : Rel R F G) (hGH : G ≤ H) : Rel R F H where
  toAlike := hFG.toAlike.trans hGH.toAlike
  locals k c hc := by
    obtain ⟨b, hb, hbc⟩ := hGH.locals k c hc
    obtain ⟨a, ha, hab⟩ := hFG.locals k b hb
    exact ⟨a, ha, hR.above hab hbc⟩
  stack := forall₂_above hR hFG.stack hGH.stack

private theorem forall₂_antisymm {s t : List Value} (hst : List.Forall₂ (· ≤ ·) s t)
    (hts : List.Forall₂ (· ≤ ·) t s) : s = t := by
  induction hst with
  | nil => rfl
  | cons hab _ ih =>
      cases hts with
      | cons hba htail => rw [le_antisymm hab hba, ih htail]

private theorem local_eq_of_le_of_le {F G : Frame} (hFG : F ≤ G) (hGF : G ≤ F) {k : Nat} {a : Value}
    (h : F.locals[k]? = some (some a)) : G.locals[k]? = some (some a) := by
  obtain ⟨b, hb, hba⟩ := hGF.locals k a h
  obtain ⟨c, hc, hcb⟩ := hFG.locals k b hb
  rw [h] at hc
  cases hc
  rw [hb, le_antisymm hba hcb]

private theorem locals_eq_of_le_of_le {F G : Frame} (hFG : F ≤ G) (hGF : G ≤ F) :
    F.locals = G.locals := by
  refine List.ext_getElem? fun k => ?_
  cases hF : F.locals[k]? with
  | none =>
      rw [List.getElem?_eq_none_iff] at hF
      exact (List.getElem?_eq_none (hFG.size ▸ hF)).symm
  | some slot =>
      have hk : k < G.locals.length := by
        rw [← hFG.size]
        exact (List.getElem?_eq_some_iff.1 hF).1
      cases slot with
      | some a => exact (local_eq_of_le_of_le hFG hGF hF).symm
      | none =>
          rw [List.getElem?_eq_getElem hk]
          cases hG : G.locals[k] with
          | none => rfl
          | some b =>
              have hb : G.locals[k]? = some (some b) := by rw [List.getElem?_eq_getElem hk, hG]
              rw [local_eq_of_le_of_le hGF hFG hb] at hF
              cases hF

instance : PartialOrder Frame where
  le_refl F := ⟨.refl F, fun _ b hb => ⟨b, hb, le_refl b⟩, List.forall₂_same.2 fun v _ => le_refl v⟩
  le_trans F G H hFG hGH := Rel.above joinStable_le hFG hGH
  le_antisymm F G hFG hGF := by
    have hlocals := locals_eq_of_le_of_le hFG hGF
    have hstack := forall₂_antisymm hFG.stack hGF.stack
    have hlimit := hFG.limit
    cases F
    cases G
    simp only at hlocals hstack hlimit
    rw [hlocals, hstack, hlimit]

/-! ## Joining stacks -/

theorem le_joinStacks {s t u : List Value} (h : joinStacks s t = some u) :
    List.Forall₂ (· ≤ ·) s u ∧ List.Forall₂ (· ≤ ·) t u := by
  induction s generalizing t u with
  | nil =>
      cases t with
      | nil =>
          cases h
          exact ⟨.nil, .nil⟩
      | cons b t => cases h
  | cons a s ih =>
      cases t with
      | nil => cases h
      | cons b t =>
          simp only [joinStacks, Value.join?] at h
          by_cases hw : a.width = b.width
          · cases htail : joinStacks s t with
            | none => simp [htail] at h
            | some rest =>
                simp only [hw, if_true, htail, Option.some.injEq] at h
                subst h
                obtain ⟨hs, ht⟩ := ih htail
                exact ⟨.cons (Value.le_lub_left a b) hs, .cons (Value.le_lub_right hw) ht⟩
          · simp [hw] at h

theorem joinStacks_rel {R : Value → Value → Prop} (hR : JoinStable R) {s t v : List Value}
    (hs : List.Forall₂ R s v) (ht : List.Forall₂ R t v) :
    ∃ u, joinStacks s t = some u ∧ List.Forall₂ R u v := by
  induction hs generalizing t with
  | nil =>
      cases ht
      exact ⟨[], rfl, .nil⟩
  | @cons a c s v hac _ ih =>
      cases ht with
      | @cons b _ t _ hbc htail =>
          obtain ⟨u, hu, huv⟩ := ih htail
          have hw : a.width = b.width := (hR.width hac).trans (hR.width hbc).symm
          refine ⟨a.lub b :: u, ?_, .cons (hR.lub hac hbc) huv⟩
          simp [joinStacks, Value.join?, hw, hu]

/-! ## Merging local tables -/

@[simp] theorem mergeLocals_length (l l' : List (Option Value)) :
    (mergeLocals l l').length = l.length := by
  induction l generalizing l' with
  | nil => cases l' <;> rfl
  | cons a l ih =>
      cases l' with
      | nil => rfl
      | cons b l' => simp [mergeLocals, ih]

theorem mergeLocals_getElem? (l l' : List (Option Value)) (k : Nat) :
    (mergeLocals l l')[k]? =
      l[k]?.map fun slot => match l'[k]? with
        | none => slot
        | some other => mergeLocal slot other := by
  induction l generalizing l' k with
  | nil => cases l' <;> simp [mergeLocals]
  | cons a l ih =>
      cases l' with
      | nil => simp [mergeLocals]
      | cons b l' =>
          cases k with
          | zero => simp [mergeLocals]
          | succ k => simpa [mergeLocals] using ih l' k

theorem mergeLocal_eq_some {x y : Option Value} {c : Value} :
    mergeLocal x y = some c ↔ ∃ a b, x = some a ∧ y = some b ∧ a.join? b = some c := by
  cases x <;> cases y <;> simp [mergeLocal]

/-- A local is present after a merge when it was on both sides, with one width. -/
theorem mergeLocals_present {l l' : List (Option Value)} (hlen : l.length = l'.length)
    {k : Nat} {c : Value} :
    (mergeLocals l l')[k]? = some (some c) ↔
      ∃ a b, l[k]? = some (some a) ∧ l'[k]? = some (some b) ∧ a.join? b = some c := by
  induction l generalizing l' k with
  | nil => cases l' <;> simp [mergeLocals]
  | cons x l ih =>
      cases l' with
      | nil => simp at hlen
      | cons y l' =>
          cases k with
          | zero => simp [mergeLocals, mergeLocal_eq_some]
          | succ k => simpa [mergeLocals] using ih (by simpa using hlen)

theorem join?_eq_some {a b c : Value} (h : a.join? b = some c) :
    a.width = b.width ∧ a.lub b = c := by
  unfold Value.join? at h
  split at h
  · rename_i hw
    exact ⟨hw, Option.some.inj h⟩
  · cases h

/-! ## Merging frames -/

theorem le_merge {F G H : Frame} {changed : Bool} (hFG : Alike F G)
    (h : F.merge G = .ok (H, changed)) : F ≤ H ∧ G ≤ H := by
  obtain ⟨stack, hstack, rfl, _⟩ := merge_cases h
  obtain ⟨hF, hG⟩ := le_joinStacks hstack
  have hsize : F.locals.length = (mergeLocals F.locals G.locals).length := by simp
  constructor
  · refine ⟨⟨rfl, hsize⟩, fun k c hc => ?_, hF⟩
    obtain ⟨a, b, ha, _, hjoin⟩ := (mergeLocals_present hFG.size).1 hc
    obtain ⟨_, rfl⟩ := join?_eq_some hjoin
    exact ⟨a, ha, Value.le_lub_left a b⟩
  · refine ⟨⟨hFG.limit.symm, hFG.size.symm.trans hsize⟩, fun k c hc => ?_, hG⟩
    obtain ⟨a, b, _, hb, hjoin⟩ := (mergeLocals_present hFG.size).1 hc
    obtain ⟨hw, rfl⟩ := join?_eq_some hjoin
    exact ⟨b, hb, Value.le_lub_right hw⟩

theorem merge_rel {R : Value → Value → Prop} (hR : JoinStable R) {F G K : Frame}
    (hF : Rel R F K) (hG : Rel R G K) :
    ∃ H changed, F.merge G = .ok (H, changed) ∧ Rel R H K := by
  obtain ⟨stack, hjoin, hstack⟩ := joinStacks_rel hR hF.stack hG.stack
  have hsize : F.locals.length = G.locals.length := hF.size.trans hG.size.symm
  refine ⟨{ F with locals := mergeLocals F.locals G.locals, stack := stack }, _,
    by simp only [merge, hjoin]; rfl, ⟨hF.limit, by simp [hF.size]⟩, fun k c hc => ?_, hstack⟩
  obtain ⟨a, ha, hac⟩ := hF.locals k c hc
  obtain ⟨b, hb, hbc⟩ := hG.locals k c hc
  have hw : a.width = b.width := (hR.width hac).trans (hR.width hbc).symm
  exact ⟨a.lub b, (mergeLocals_present hsize).2 ⟨a, b, ha, hb, by simp [Value.join?, hw]⟩,
    hR.lub hac hbc⟩

/-- A merge leaves a frame alone exactly when the other frame is below it. -/
theorem merge_unchanged_iff {F G : Frame} (hFG : Alike F G) :
    F.merge G = .ok (F, false) ↔ G ≤ F := by
  constructor
  · intro h
    exact (le_merge hFG h).2
  · intro hle
    obtain ⟨H, changed, hmerge, hH⟩ :=
      merge_rel joinStable_le (le_iff_rel.1 (le_refl F)) (le_iff_rel.1 hle)
    have heq : H = F := le_antisymm (le_iff_rel.2 hH) (le_merge hFG hmerge).1
    obtain ⟨_, _, _, hchanged⟩ := merge_cases hmerge
    rw [hmerge, hchanged]
    simp [heq]

/-! ## Limits -/

def withLimit (limit : Option Nat) (F : Frame) : Frame :=
  { F with limit := limit }

@[simp] theorem withLimit_locals (limit : Option Nat) (F : Frame) :
    (F.withLimit limit).locals = F.locals := rfl

@[simp] theorem withLimit_stack (limit : Option Nat) (F : Frame) :
    (F.withLimit limit).stack = F.stack := rfl

theorem merge_withLimit (limit limit' : Option Nat) (F G : Frame) :
    (F.withLimit limit).merge (G.withLimit limit') =
      (F.merge G).map fun x => (x.1.withLimit limit, x.2) := by
  simp only [merge, withLimit_stack, withLimit_locals]
  cases joinStacks F.stack G.stack with
  | none => rfl
  | some joined => rfl

end Frame

end FrameFlow

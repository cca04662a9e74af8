import FrameFlow.Frame

/-!
# Merging frames

Where two paths meet, the frames they bring are merged.  Stacks have to agree
in height and in the width of every entry, and are joined entry by entry.  A
local slot keeps the join when both sides hold values of one width there, and
becomes empty otherwise.  A merge that changes a frame uses up at least one of
the finitely many climbs its values have left.
-/

namespace FrameFlow.Frame

def mergeLocal : Option Value → Option Value → Option Value
  | some a, some b => a.join? b
  | _, _ => none

/-- Slots beyond the shorter table stay as they are. -/
def mergeLocals : List (Option Value) → List (Option Value) → List (Option Value)
  | [], _ => []
  | mine, [] => mine
  | a :: mine, b :: theirs => mergeLocal a b :: mergeLocals mine theirs

def joinStacks : List Value → List Value → Option (List Value)
  | [], [] => some []
  | a :: mine, b :: theirs =>
      match a.join? b, joinStacks mine theirs with
      | some v, some rest => some (v :: rest)
      | _, _ => none
  | _, _ => none

/-- Some slot is replaced by something else; each slot is looked at when it is merged. -/
def localsChange : List (Option Value) → List (Option Value) → Bool
  | [], _ => false
  | _, [] => false
  | a :: mine, b :: theirs => decide (mergeLocal a b ≠ a) || localsChange mine theirs

def merge (F G : Frame) : Except FrameError (Frame × Bool) :=
  match joinStacks F.stack G.stack with
  | none => .error (.incompatibleStacks F.stack G.stack)
  | some stack =>
      .ok ({ F with locals := mergeLocals F.locals G.locals, stack := stack },
        decide (stack ≠ F.stack) || localsChange F.locals G.locals)

/-! ## The flag -/

private theorem localsChange_iff (mine theirs : List (Option Value)) :
    localsChange mine theirs = true ↔ mergeLocals mine theirs ≠ mine := by
  induction mine generalizing theirs with
  | nil => simp [localsChange, mergeLocals]
  | cons a mine ih =>
      cases theirs with
      | nil => simp [localsChange, mergeLocals]
      | cons b theirs =>
          simp only [localsChange, mergeLocals, Bool.or_eq_true, decide_eq_true_eq, ih, ne_eq,
            List.cons.injEq, Decidable.not_and_iff_or_not]

theorem merge_cases {F G H : Frame} {changed : Bool} (h : F.merge G = .ok (H, changed)) :
    ∃ stack, joinStacks F.stack G.stack = some stack ∧
      H = { F with locals := mergeLocals F.locals G.locals, stack := stack } ∧
      changed = decide (H ≠ F) := by
  unfold merge at h
  split at h
  · cases h
  · rename_i stack hstack
    simp only [Except.ok.injEq, Prod.mk.injEq] at h
    obtain ⟨rfl, rfl⟩ := h
    refine ⟨stack, hstack, rfl, ?_⟩
    rw [Bool.eq_iff_iff, Bool.or_eq_true, localsChange_iff, decide_eq_true_eq, decide_eq_true_eq,
      ← Decidable.not_and_iff_or_not]
    refine not_congr ⟨fun hsame => ?_, fun hsame => ?_⟩
    · rw [hsame.1, hsame.2]
    · exact ⟨congrArg Frame.stack hsame, congrArg Frame.locals hsame⟩

/-! ## Climbs -/

/-- An occupied slot can also become empty. -/
def localClimbs : Option Value → Nat
  | none => 0
  | some v => v.climbs + 1

attribute [local instance] numeralZero

def climbs (F : Frame) : Nat :=
  (F.locals.map localClimbs).sum + (F.stack.map Value.climbs).sum

private theorem mergeLocal_climbs {a b : Option Value} (h : mergeLocal a b ≠ a) :
    localClimbs (mergeLocal a b) < localClimbs a := by
  match a, b with
  | none, none => exact absurd rfl h
  | none, some _ => exact absurd rfl h
  | some v, none => simp [mergeLocal, localClimbs]
  | some v, some w =>
      simp only [mergeLocal, Value.join?] at h ⊢
      split
      · rename_i hw
        simp only [hw, if_true, ne_eq, Option.some.injEq] at h
        have := Value.lub_climbs h
        simp only [localClimbs]
        omega
      · simp [localClimbs]

private theorem mergeLocals_climbs (mine theirs : List (Option Value)) :
    mergeLocals mine theirs = mine ∨
      ((mergeLocals mine theirs).map localClimbs).sum < (mine.map localClimbs).sum := by
  induction mine generalizing theirs with
  | nil => exact .inl (by cases theirs <;> rfl)
  | cons a mine ih =>
      cases theirs with
      | nil => exact .inl rfl
      | cons b theirs =>
          simp only [mergeLocals, List.map_cons, List.sum_cons, List.cons.injEq]
          by_cases hhead : mergeLocal a b = a
          · rcases ih theirs with htail | htail
            · exact .inl ⟨hhead, htail⟩
            · rw [hhead]
              exact .inr (by omega)
          · have := mergeLocal_climbs hhead
            rcases ih theirs with htail | htail
            · rw [htail]
              exact .inr (by omega)
            · exact .inr (by omega)

private theorem joinStacks_climbs {mine theirs joined : List Value}
    (h : joinStacks mine theirs = some joined) :
    joined = mine ∨ (joined.map Value.climbs).sum < (mine.map Value.climbs).sum := by
  induction mine generalizing theirs joined with
  | nil =>
      cases theirs with
      | nil =>
          cases h
          exact .inl rfl
      | cons b theirs => cases h
  | cons a mine ih =>
      cases theirs with
      | nil => cases h
      | cons b theirs =>
          simp only [joinStacks, Value.join?] at h
          by_cases hw : a.width = b.width
          · simp only [hw, if_true] at h
            cases htail : joinStacks mine theirs with
            | none => simp [htail] at h
            | some rest =>
                simp only [htail, Option.some.injEq] at h
                subst h
                simp only [List.map_cons, List.sum_cons, List.cons.injEq]
                by_cases hhead : a.lub b = a
                · rcases ih htail with hrest | hrest
                  · exact .inl ⟨hhead, hrest⟩
                  · rw [hhead]
                    exact .inr (by omega)
                · have := Value.lub_climbs hhead
                  rcases ih htail with hrest | hrest
                  · rw [hrest]
                    exact .inr (by omega)
                  · exact .inr (by omega)
          · simp [hw] at h

theorem eq_of_merge_unchanged {F G H : Frame} (h : F.merge G = .ok (H, false)) : H = F := by
  obtain ⟨_, _, _, hflag⟩ := merge_cases h
  simpa using hflag

theorem merge_climbs {F G H : Frame} (h : F.merge G = .ok (H, true)) :
    H.climbs < F.climbs := by
  obtain ⟨stack, hstack, rfl, hflag⟩ := merge_cases h
  have hne := of_decide_eq_true hflag.symm
  simp only [climbs]
  rcases mergeLocals_climbs F.locals G.locals with hl | hl
  · rcases joinStacks_climbs hstack with hs | hs
    · refine absurd ?_ hne
      rw [hl, hs]
    · rw [hl]
      omega
  · rcases joinStacks_climbs hstack with hs | hs
    · rw [hs]
      omega
    · omega

end FrameFlow.Frame

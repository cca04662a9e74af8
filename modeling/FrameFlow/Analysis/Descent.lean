import FrameFlow.Analysis.Run

/-!
# Why a run ends

Frames are measured by the number of instructions without one and, below
that, by the climbs left in the others.  Offers never raise this measure, and
leave it alone only when they leave frames and pending instructions alone.
-/

namespace FrameFlow.Run

variable {σ : Type}

/-! ## The measure -/

def frameClimbs : Option Frame → Nat
  | none => 0
  | some F => F.climbs

def unframed (S : Run σ) : Nat :=
  S.frames.toList.countP Option.isNone

attribute [local instance] numeralZero

def slack (S : Run σ) : Nat :=
  (S.frames.toList.map frameClimbs).sum

/-- Nothing has changed from `S` to `T`, or the measure has gone down. -/
def Descends (S T : Run σ) : Prop :=
  (T.frames = S.frames ∧ T.pending = S.pending) ∨
    T.unframed < S.unframed ∨ (T.unframed = S.unframed ∧ T.slack < S.slack)

theorem Descends.refl (S : Run σ) : Descends S S :=
  .inl ⟨rfl, rfl⟩

theorem unframed_eq {S T : Run σ} (h : T.frames = S.frames) : T.unframed = S.unframed := by
  simp [unframed, h]

private theorem slack_eq {S T : Run σ} (h : T.frames = S.frames) : T.slack = S.slack := by
  simp [slack, h]

theorem Descends.trans {S T U : Run σ} (hST : Descends S T) (hTU : Descends T U) :
    Descends S U := by
  rcases hTU with ⟨hframes, hpending⟩ | hless
  · rcases hST with ⟨hframes', hpending'⟩ | hless'
    · exact .inl ⟨hframes.trans hframes', hpending.trans hpending'⟩
    · rw [Descends, unframed_eq hframes, slack_eq hframes]
      exact .inr hless'
  · rcases hST with ⟨hframes', _⟩ | hless'
    · rw [unframed_eq hframes', slack_eq hframes'] at hless
      exact .inr hless
    · right
      omega

theorem descends_of_eq {S T : Run σ} (hframes : T.frames = S.frames)
    (hpending : T.pending = S.pending) : Descends S T :=
  .inl ⟨hframes, hpending⟩

/-! ## Replacing one frame -/

theorem install_frames (p : Problem σ) (S : Run σ) (target : Nat) (F : Frame) :
    (S.install p target F).frames.toList = S.frames.toList.set target (some F) := by
  simp [install]

theorem install_unframed {p : Problem σ} {S : Run σ} {target : Nat} {slot : Option Frame}
    {H : Frame} (hslot : S.frames[target]? = some slot) :
    (S.install p target H).unframed + (if slot.isNone then 1 else 0) = S.unframed := by
  obtain ⟨hlt, hget⟩ := Array.getElem?_eq_some_iff.1 hslot
  have hlt' : target < S.frames.toList.length := by simpa using hlt
  rw [unframed, install_frames, List.countP_set hlt', Array.getElem_toList, hget]
  cases slot with
  | some G => simp [unframed]
  | none =>
      have hpos : 0 < S.frames.toList.countP Option.isNone :=
        List.countP_pos_iff.2 ⟨none, by simp [← hget], rfl⟩
      simp only [unframed, Option.isNone_none, if_true, Option.isNone_some, Bool.false_eq_true,
        if_false]
      omega

theorem sum_map_set {α : Type} (f : α → Nat) (l : List α) {i : Nat} (a : α) (h : i < l.length) :
    ((l.set i a).map f).sum + f l[i] = (l.map f).sum + f a := by
  have hsplit : (l.map f).sum = ((l.take i ++ l[i] :: l.drop (i + 1)).map f).sum := by
    rw [List.getElem_cons_drop, List.take_append_drop]
  rw [hsplit, List.set_eq_take_append_cons_drop, if_pos h]
  simp only [List.map_append, List.map_cons, List.sum_append_nat, List.sum_cons]
  omega

theorem install_slack {p : Problem σ} {S : Run σ} {target : Nat} {slot : Option Frame}
    {H : Frame} (hslot : S.frames[target]? = some slot) :
    (S.install p target H).slack + frameClimbs slot = S.slack + H.climbs := by
  obtain ⟨hlt, hget⟩ := Array.getElem?_eq_some_iff.1 hslot
  have hsum := sum_map_set frameClimbs S.frames.toList (some H) (by simpa using hlt)
  rw [Array.getElem_toList, hget] at hsum
  simp only [slack, install_frames]
  exact hsum

private theorem install_new {p : Problem σ} {S : Run σ} {target : Nat} (F : Frame)
    (h : S.frames[target]? = some none) : Descends S (S.install p target F) := by
  have hunframed := install_unframed (p := p) (H := F) h
  simp only [Option.isNone_none, if_true] at hunframed
  right
  left
  omega

private theorem install_merged {p : Problem σ} {S : Run σ} {target : Nat} {G H : Frame}
    (h : S.frames[target]? = some (some G)) (hclimbs : H.climbs < G.climbs) :
    Descends S (S.install p target H) := by
  have hunframed := install_unframed (p := p) (H := H) h
  have hslack := install_slack (p := p) (H := H) h
  simp only [Option.isNone_some, Bool.false_eq_true, if_false] at hunframed
  simp only [frameClimbs] at hslack
  right
  right
  omega

/-! ## Offers -/

private theorem offer_descends (p : Problem σ) (S : Run σ) (target : Nat) (F : Frame) :
    Descends S (S.offer p target F) := by
  unfold offer
  split
  · exact .refl S
  · split
    · exact .refl S
    · rename_i hnone
      exact install_new F hnone
    · rename_i G hsome
      split
      · exact descends_of_eq rfl rfl
      · exact .refl S
      · rename_i H hmerge
        exact install_merged hsome (Frame.merge_climbs hmerge)

private theorem offerAll_descends (p : Problem σ) (S : Run σ) (F : Frame) (edges : List Edge) :
    Descends S (S.offerAll p F edges) := by
  induction edges generalizing S with
  | nil => exact .refl S
  | cons e edges ih => exact (offer_descends p S e.target F).trans (ih _)

private theorem offerHandler_descends (p : Problem σ) (position : Nat) (F : Frame) (S : Run σ)
    (e : Edge) : Descends S (offerHandler p position F S e) := by
  unfold offerHandler
  split
  · exact .refl S
  · split
    · split
      · exact descends_of_eq rfl rfl
      · exact offer_descends p S e.target _
    all_goals exact .refl S

private theorem offerHandlers_descends (p : Problem σ) (position : Nat) (F : Frame) (S : Run σ) :
    Descends S (S.offerHandlers p position F) := by
  unfold offerHandlers
  induction p.graph.thrownEdges position generalizing S with
  | nil => exact .refl S
  | cons e edges ih => exact (offerHandler_descends p position F S e).trans (ih _)

/-! ## Steps -/

private theorem finish_descends (p : Problem σ) (S : Run σ) (position : Nat)
    (result : Except FrameError Frame) : Descends S (S.finish p position result) := by
  cases result with
  | error cause => exact descends_of_eq rfl rfl
  | ok F => exact offerAll_descends p S F _

private theorem record_descends (S : Run σ) (f : Failure) : Descends S (S.record f) := by
  unfold record
  split
  · exact .refl S
  · exact descends_of_eq rfl rfl

private theorem fail_descends (p : Problem σ) (S : Run σ) (position : Nat) (insn : Insn Nat)
    (F : Frame) (f : Failure) : Descends S (S.fail p position insn F f) := by
  unfold fail
  split
  · exact descends_of_eq rfl rfl
  · rename_i world _
    have hworld : Descends S { S with world := world } := descends_of_eq rfl rfl
    exact hworld.trans ((record_descends _ f).trans (finish_descends p _ position _))

private theorem carryOut_descends (p : Problem σ) (S : Run σ) (position : Nat) (insn : Insn Nat)
    (F : Frame) : Descends S (S.carryOut p position insn F) := by
  have hworld (world : σ) : Descends S { S with world := world } := descends_of_eq rfl rfl
  unfold carryOut
  split
  · exact .refl S
  · split
    · exact (hworld _).trans (finish_descends p _ position _)
    · exact (hworld _).trans (finish_descends p _ position _)
    · exact (hworld _).trans (fail_descends p _ position insn F _)

private theorem visit_descends (p : Problem σ) (S : Run σ) (position : Nat) :
    Descends S (S.visit p position) := by
  unfold visit
  split
  · exact (offerHandlers_descends p position _ S).trans (carryOut_descends p _ position _ _)
  · exact .refl S

/-- The measure of a whole run: a step that leaves the frames alone shortens the queue. -/
def measure (S : Run σ) : Nat × Nat × Nat :=
  (S.unframed, S.slack, S.pending.length)

theorem measure_step (p : Problem σ) {S : Run σ} (h : S.pending ≠ []) :
    Prod.Lex (· < ·) (Prod.Lex (· < ·) (· < ·)) (S.step p).measure S.measure := by
  unfold step
  match hpending : S.pending with
  | [] => exact absurd hpending h
  | i :: rest =>
      simp only
      rcases visit_descends p { S with pending := rest, steps := S.steps + 1 } i with
        ⟨hframes, hqueue⟩ | hless | ⟨hsame, hless⟩
      · simp only [measure]
        rw [unframed_eq hframes, slack_eq hframes, hqueue, hpending]
        exact Prod.Lex.right _ (Prod.Lex.right _ (by simp))
      · exact Prod.Lex.left _ _ hless
      · simp only [measure]
        rw [hsame]
        exact Prod.Lex.right _ (Prod.Lex.left _ _ hless)

end FrameFlow.Run

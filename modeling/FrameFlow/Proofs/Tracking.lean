import FrameFlow.Proofs.FixedPoint

/-!
# Runs below closed frames

One configuration tracks another along a relation of values when, from related
frames, its instructions succeed with related results wherever those of the
other do.  Frames that are closed under the other configuration then bound every
run of the first, whichever order it takes: frames related to one frame can be
merged, no instruction fails, and only a call that is not tolerated stops it.
-/

namespace FrameFlow

variable {σ τ : Type} {R : Value → Value → Prop}

def Config.Tracks (R : Value → Value → Prop) (low : Config σ) (J : σ → Prop)
    (high : Config τ) (I : τ → Prop) : Prop :=
  ∀ ⦃world world'⦄, J world → I world' → ∀ ⦃F G⦄, Frame.Rel R F G →
    ∀ (position : Nat) (insn : Insn Nat),
      Follows (Frame.Rel R) (low.onward world position insn F)
        (high.onward world' position insn G)

/-- A handler has room for the thrown object if a related frame is of the method. -/
theorem Run.handlerFrame_of_rel {m : Method} (hR : JoinStable R) {F K : Frame}
    {catchClass : Option String} (hK : K.Of m)
    (h : Frame.Rel R { F with stack := [.ref (Handler.thrownClass catchClass)] } K) :
    Run.handlerFrame F catchClass =
      .ok { F with stack := [.ref (Handler.thrownClass catchClass)] } := by
  refine Frame.push_ok_iff.2 ⟨fun limit hlimit => ?_, rfl⟩
  have hfits := hK.fits limit (h.limit.symm.trans hlimit)
  rw [← Frame.stackSlots_eq hR h] at hfits
  simpa [Frame.stackSlots, Frame.clearStack] using hfits

/-! ## Frames below closed frames -/

namespace Closed

variable {high : Config τ} {I : τ → Prop} {m : Method} {g : FlowGraph} {seed : Frame}
  {X : Nat → Option Frame}

theorem rel_entry (hX : Closed high I m g seed X) (hR : JoinStable R)
    (hseed : Frame.Rel R seed seed) :
    ∃ K, X FlowGraph.entry = some K ∧ Frame.Rel R seed K := by
  obtain ⟨K, hK, hle⟩ := hX.entry
  exact ⟨K, hK, hseed.above hR hle⟩

theorem rel_onward (hX : Closed high I m g seed X) (hR : JoinStable R) {low : Config σ}
    {J : σ → Prop} (htracks : low.Tracks R J high I) {world : σ} (hworld : J world) {i : Nat}
    {insn : Insn Nat} (hinsn : m.code[i]? = some insn) {F G : Frame} (hG : X i = some G)
    (h : Frame.Rel R F G) :
    ∃ H, low.onward world i insn F = .ok H ∧
      ∀ e ∈ g.normalEdges i, ∃ K, X e.target = some K ∧ Frame.Rel R H K := by
  obtain ⟨world', out, hworld', hout, hedges⟩ := hX.normal i insn G hinsn hG
  obtain ⟨H, hH, hrel⟩ := htracks hworld hworld' h i insn out hout
  refine ⟨H, hH, fun e he => ?_⟩
  obtain ⟨K, hK, hle⟩ := hedges e he
  exact ⟨K, hK, hrel.above hR hle⟩

theorem rel_thrown (hX : Closed high I m g seed X) (hR : Respected R) {i : Nat} {F G : Frame}
    (hG : X i = some G) (h : Frame.Rel R F G) {e : Edge} (he : e ∈ g.thrownEdges i)
    {catchClass : Option String} (hkind : e.kind = .thrown catchClass) :
    ∃ H K, Run.handlerFrame F catchClass = .ok H ∧ X e.target = some K ∧ Frame.Rel R H K := by
  obtain ⟨K, hK, hle⟩ := hX.thrown i G hG e he catchClass hkind
  have hthrown : Frame.Rel R { F with stack := [.ref (Handler.thrownClass catchClass)] }
      { G with stack := [.ref (Handler.thrownClass catchClass)] } :=
    ⟨⟨h.limit, h.size⟩, h.locals, .cons (hR.ref _) .nil⟩
  have hrel := hthrown.above hR.toJoinStable hle
  exact ⟨_, K, Run.handlerFrame_of_rel hR.toJoinStable (hX.frames _ K hK) hrel, hK, hrel⟩

end Closed

/-! ## Bounded runs -/

namespace Run

variable {p : Problem σ} {X : Nat → Option Frame}

/-- Related to the frames of `X`, and stopped by nothing but a failed call. -/
structure Within (R : Value → Value → Prop) (X : Nat → Option Frame) (S : Run σ) : Prop where
  frames : ∀ (i : Nat) (F : Frame), S.frames[i]? = some (some F) →
    ∃ G, X i = some G ∧ Frame.Rel R F G
  stopped : ∀ e, S.stopped = some e → ∃ f, e = .simulation f

private theorem Within.quiet {S T : Run σ} (hST : Quiet S T) (h : Within R X S) : Within R X T := by
  constructor
  · rw [hST.frames]
    exact h.frames
  · rw [hST.stopped]
    exact h.stopped

private theorem Within.install {S : Run σ} (h : Within R X S) {target : Nat} {H K : Frame}
    (hK : X target = some K) (hHK : Frame.Rel R H K) : Within R X (S.install p target H) := by
  refine ⟨fun i F hF => ?_, h.stopped⟩
  rcases install_frames_cases hF with ⟨rfl, rfl⟩ | hold
  · exact ⟨K, hK, hHK⟩
  · exact h.frames i F hold

private theorem Within.offer (hR : JoinStable R) {S : Run σ} (h : Within R X S) {target : Nat}
    {F K : Frame} (hK : X target = some K) (hFK : Frame.Rel R F K) :
    Within R X (S.offer p target F) := by
  -- Two frames related to a third one can be merged, and the result is related to it too.
  have hmerge {G : Frame} (hG : S.frames[target]? = some (some G)) :
      ∃ H changed, G.merge F = .ok (H, changed) ∧ Frame.Rel R H K := by
    obtain ⟨K', hK', hGK⟩ := h.frames target G hG
    cases hK.symm.trans hK'
    exact Frame.merge_rel hR hGK hFK
  apply offer_induction h
  · intro G cause hG herror
    obtain ⟨H, changed, hok, _⟩ := hmerge hG
    rw [herror] at hok
    cases hok
  · intro H hraise
    rcases hraise with ⟨_, rfl⟩ | ⟨G, hG, hraised⟩
    · exact h.install hK hFK
    · obtain ⟨H', changed, hok, hHK⟩ := hmerge hG
      rw [hraised] at hok
      cases hok
      exact h.install hK hHK

section

variable {high : Config τ} {I : τ → Prop} {J : σ → Prop} {seed : Frame}
  (hX : Closed high I p.method p.graph seed X) (hR : Respected R)
  (htracks : p.config.Tracks R J high I)

include hX hR htracks

private theorem Offers.rel {position target : Nat} {insn : Insn Nat} {F G H : Frame} {world : σ}
    (h : Offers p position insn F world target H) (hworld : J world)
    (hinsn : p.method.code[position]? = some insn) (hG : X position = some G)
    (hFG : Frame.Rel R F G) : ∃ K, X target = some K ∧ Frame.Rel R H K := by
  cases h with
  | thrown he hkind hhandler =>
      obtain ⟨H', K, hH', hK, hrel⟩ := hX.rel_thrown hR hG hFG he hkind
      cases hhandler.symm.trans hH'
      exact ⟨K, hK, hrel⟩
  | normal he honward =>
      obtain ⟨H', hH', hedges⟩ := hX.rel_onward hR.toJoinStable htracks hworld hinsn hG hFG
      cases honward.symm.trans hH'
      exact hedges _ he

private theorem Stops.simulation {position : Nat} {insn : Insn Nat} {F G : Frame} {world : σ}
    {e : Error} (h : Stops p position insn F world e) (hworld : J world)
    (hinsn : p.method.code[position]? = some insn) (hG : X position = some G)
    (hFG : Frame.Rel R F G) : ∃ f, e = .simulation f := by
  cases h with
  | thrown he hkind herror =>
      obtain ⟨H, K, hH, _⟩ := hX.rel_thrown hR hG hFG he hkind
      rw [herror] at hH
      cases hH
  | normal herror =>
      obtain ⟨H, hH, _⟩ := hX.rel_onward hR.toJoinStable htracks hworld hinsn hG hFG
      rw [herror] at hH
      cases hH
  | refused _ _ => exact ⟨_, rfl⟩

private theorem Within.pick {S : Run σ} (h : Within R X S) (hworld : J S.world) (i : Nat) :
    Within R X (S.pick p i) := by
  refine visit_induction (P := Within R X) (S := S.taken i) (fun hquiet h => h.quiet hquiet)
    ?_ ?_ ⟨h.frames, h.stopped⟩
  · intro T insn F target H hF hinsn hoffers hT
    obtain ⟨G, hG, hFG⟩ := h.frames i F hF
    obtain ⟨K, hK, hHK⟩ := hoffers.rel hX hR htracks hworld hinsn hG hFG
    exact hT.offer hR.toJoinStable hK hHK
  · intro T insn F e hF hinsn hstops hT
    obtain ⟨G, hG, hFG⟩ := h.frames i F hF
    obtain ⟨f, rfl⟩ := hstops.simulation hX hR htracks hworld hinsn hG hFG
    refine ⟨hT.frames, fun e he => ?_⟩
    cases he
    exact ⟨f, rfl⟩

theorem Leads.within {start : σ} {T : Run σ} (h : Leads p (Config.begin p seed start) T)
    (hworlds : ∀ U, Leads p (Config.begin p seed start) U → J U.world)
    (hseed : Frame.Rel R seed seed) : Within R X T := by
  apply h.invariant
  · obtain ⟨K, hK, hrel⟩ := hX.rel_entry hR.toJoinStable hseed
    have hblank : Within R X (blank p start) :=
      ⟨fun _ _ hF => absurd hF blank_frames, fun _ he => by cases he⟩
    exact hblank.install hK hrel
  · intro U i hU hwithin _ _
    exact hwithin.pick hX hR htracks (hworlds U hU) i

end

end Run

end FrameFlow

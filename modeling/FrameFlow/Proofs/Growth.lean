import FrameFlow.Proofs.Visits

/-!
# Frames only rise

During a run the frame of an instruction is never lost and only goes up in the
order of frames, and an instruction whose frame has changed is pending
afterwards.  A visit that does not stop the run leaves every successor above
what it was offered, even if the visited instruction is its own successor and
its frame has changed meanwhile.
-/

namespace FrameFlow

variable {σ : Type} {p : Problem σ}

/-! ## Properties of all frames -/

/-- Kept by instructions and by merges. -/
structure Frame.Lasting (P : Frame → Prop) : Prop extends Frame.Kept P where
  merge : ∀ {F G H changed}, P F → P G → F.merge G = .ok (H, changed) → P H

structure Frame.Of (m : Method) (F : Frame) : Prop where
  limit : F.limit = m.maxStack
  size : F.locals.length = m.maxLocals
  fits : ∀ limit, F.limit = some limit → F.stackSlots ≤ limit

theorem Frame.Of.alike {m : Method} {F G : Frame} (hF : F.Of m) (hG : G.Of m) : Alike F G :=
  ⟨hF.limit.trans hG.limit.symm, hF.size.trans hG.size.symm⟩

theorem Frame.empty_of (m : Method) : (Frame.empty m.maxLocals m.maxStack).Of m :=
  ⟨rfl, by simp [Frame.empty], fun _ _ => by simp [Frame.empty, Frame.stackSlots]⟩

theorem Frame.merge_stackSlots {F G H : Frame} {changed : Bool}
    (h : F.merge G = .ok (H, changed)) : H.stackSlots = F.stackSlots := by
  obtain ⟨stack, hstack, rfl, _⟩ := merge_cases h
  have hwidths := widths_eq joinStable_le (le_joinStacks hstack).1
  rw [stackSlots, stackSlots, hwidths]

theorem Frame.lasting_of (m : Method) : Frame.Lasting (Frame.Of m) where
  push h hpush := by
    have hfits := Frame.push_fits hpush
    obtain ⟨_, rfl⟩ := Frame.push_ok_iff.1 hpush
    exact ⟨h.limit, h.size, hfits⟩
  pop h hstack :=
    ⟨h.limit, h.size, fun limit hlimit => Frame.pop_fits (h.fits limit hlimit) hstack⟩
  write h hwrite := by
    obtain ⟨_, rfl⟩ := Frame.writeLocal_ok_iff.1 hwrite
    exact ⟨h.limit, by simpa using h.size, h.fits⟩
  merge hF hG hmerge := by
    have hle := (Frame.le_merge (hF.alike hG) hmerge).1
    refine ⟨hle.limit.symm.trans hF.limit, hle.size.symm.trans hF.size, fun limit hlimit => ?_⟩
    rw [Frame.merge_stackSlots hmerge]
    exact hF.fits limit (hle.limit.trans hlimit)

theorem Frame.Kept.handlerFrame {P : Frame → Prop} (hP : Frame.Kept P) {F H : Frame}
    {catchClass : Option String} (hF : P F) (h : Run.handlerFrame F catchClass = .ok H) : P H :=
  hP.push (hP.clearStack hF) h

namespace Run

theorem Offers.kept {P : Frame → Prop} (hP : Frame.Kept P) {position target : Nat}
    {insn : Insn Nat} {F H : Frame} {world : σ}
    (h : Offers p position insn F world target H) (hF : P F) : P H := by
  cases h with
  | thrown _ _ hhandler => exact hP.handlerFrame hF hhandler
  | normal _ honward => exact Config.onward_kept hP p.config world position insn hF H honward

def AllFrames (P : Frame → Prop) (S : Run σ) : Prop :=
  ∀ (i : Nat) (F : Frame), S.frames[i]? = some (some F) → P F

variable {P : Frame → Prop}

theorem AllFrames.quiet {S T : Run σ} (hST : Quiet S T) (h : AllFrames P S) : AllFrames P T := by
  intro i F hF
  rw [hST.frames] at hF
  exact h i F hF

theorem AllFrames.install {S : Run σ} (h : AllFrames P S) {target : Nat} {H : Frame}
    (hH : P H) : AllFrames P (S.install p target H) := by
  intro i F hF
  rcases install_frames_cases hF with ⟨_, rfl⟩ | hold
  · exact hH
  · exact h i F hold

theorem AllFrames.offer
    (hmerge : ∀ {F G H changed}, P F → P G → F.merge G = .ok (H, changed) → P H) {S : Run σ}
    (h : AllFrames P S) {target : Nat} {F : Frame} (hF : P F) :
    AllFrames P (S.offer p target F) := by
  refine offer_induction h (fun _ _ _ _ => h) fun H hraise => h.install ?_
  rcases hraise with ⟨_, rfl⟩ | ⟨G, hG, hmerged⟩
  · exact hF
  · exact hmerge (h target G hG) hF hmerged

private theorem AllFrames.visit (hP : Frame.Lasting P) {S : Run σ} (h : AllFrames P S) (i : Nat) :
    AllFrames P (S.visit p i) :=
  visit_induction (P := AllFrames P) (fun hquiet h => h.quiet hquiet)
    (fun hF _ hoffers h' => h'.offer hP.merge (hoffers.kept hP.toKept (h i _ hF)))
    (fun _ _ _ h' => h') h

theorem AllFrames.pick (hP : Frame.Lasting P) {S : Run σ} (h : AllFrames P S) (i : Nat) :
    AllFrames P (S.pick p i) :=
  AllFrames.visit hP (S := S.taken i) h i

/-! ## Growth -/

structure Grows (S T : Run σ) : Prop where
  size : T.frames.size = S.frames.size
  frames : ∀ (i : Nat) (F : Frame), S.frames[i]? = some (some F) →
    ∃ G, T.frames[i]? = some (some G) ∧ F ≤ G
  pending : ∀ i, i ∈ S.pending → i ∈ T.pending
  unchanged : ∀ i : Nat, i ∉ T.pending → T.frames[i]? = S.frames[i]?
  running : T.stopped = none → S.stopped = none

theorem Grows.refl (S : Run σ) : Grows S S :=
  ⟨rfl, fun _ F hF => ⟨F, hF, le_refl F⟩, fun _ h => h, fun _ _ => rfl, fun h => h⟩

theorem Grows.trans {S T U : Run σ} (hST : Grows S T) (hTU : Grows T U) : Grows S U where
  size := hTU.size.trans hST.size
  frames i F hF := by
    obtain ⟨G, hG, hFG⟩ := hST.frames i F hF
    obtain ⟨H, hH, hGH⟩ := hTU.frames i G hG
    exact ⟨H, hH, le_trans hFG hGH⟩
  pending i hi := hTU.pending i (hST.pending i hi)
  unchanged i hi := by
    rw [hTU.unchanged i hi, hST.unchanged i fun h => hi (hTU.pending i h)]
  running h := hST.running (hTU.running h)

private theorem Grows.quiet {S T U : Run σ} (hST : Grows S T) (hTU : Quiet T U) : Grows S U where
  size := by rw [hTU.frames, hST.size]
  frames i F hF := by
    rw [hTU.frames]
    exact hST.frames i F hF
  pending i hi := by
    rw [hTU.pending]
    exact hST.pending i hi
  unchanged i hi := by
    rw [hTU.pending] at hi
    rw [hTU.frames]
    exact hST.unchanged i hi
  running h := by
    rw [hTU.stopped] at h
    exact hST.running h

theorem Grows.stop {S T : Run σ} (hST : Grows S T) (e : Error) : Grows S (T.stop e) :=
  ⟨hST.size, hST.frames, hST.pending, hST.unchanged, fun h => nomatch h⟩

private theorem Raises.le {S : Run σ} {target : Nat} {F G H : Frame} (hFG : Frame.Alike F G)
    (hG : S.frames[target]? = some (some G)) (h : S.Raises target F H) : G ≤ H ∧ F ≤ H := by
  rcases h with ⟨hnone, _⟩ | ⟨G', hG', hmerge⟩
  · rw [hG] at hnone
    cases hnone
  · rw [hG] at hG'
    cases hG'
    exact Frame.le_merge hFG.symm hmerge

private theorem install_grows {S : Run σ} {target : Nat} {F H : Frame} (hF : F.Of p.method)
    (hS : AllFrames (Frame.Of p.method) S) (h : S.Raises target F H) :
    Grows S (S.install p target H) where
  size := install_size S target H
  frames i G hG := by
    by_cases hi : i = target
    · subst hi
      exact ⟨H, install_self h.lt_size, (h.le (hF.alike (hS i G hG)) hG).1⟩
    · exact ⟨G, by rw [install_ne hi, hG], le_refl G⟩
  pending i hi := mem_install_pending.2 (.inr hi)
  unchanged i hi := by
    have hne : i ≠ target := fun heq => hi (mem_install_pending.2 (.inl heq))
    exact install_ne hne
  running h := h

theorem offer_grows {S : Run σ} {target : Nat} {F : Frame} (hF : F.Of p.method)
    (hS : AllFrames (Frame.Of p.method) S) : Grows S (S.offer p target F) :=
  offer_induction (.refl S) (fun _ _ _ _ => (Grows.refl S).stop _)
    fun _ hraise => install_grows hF hS hraise

/-! ## What a visit leaves behind -/

def Above (S : Run σ) (target : Nat) (F : Frame) : Prop :=
  ∃ G, S.frames[target]? = some (some G) ∧ F ≤ G

theorem Above.grows {S T : Run σ} (hST : Grows S T) {target : Nat} {F : Frame}
    (h : S.Above target F) : T.Above target F := by
  obtain ⟨G, hG, hFG⟩ := h
  obtain ⟨H, hH, hGH⟩ := hST.frames target G hG
  exact ⟨H, hH, le_trans hFG hGH⟩

private theorem offer_above {S : Run σ} {target : Nat} {F : Frame} (hF : F.Of p.method)
    (hS : AllFrames (Frame.Of p.method) S) (htarget : target < S.frames.size)
    (hrunning : (S.offer p target F).stopped = none) : (S.offer p target F).Above target F := by
  rcases offer_cases p S target F with ⟨heq, hreason⟩ | ⟨_, G, cause, _, _, heq⟩ |
    ⟨_, H, hraise, heq⟩
  · rw [heq] at hrunning ⊢
    rcases hreason with hstopped | hout | ⟨G, hG, hmerge⟩
    · exact absurd hrunning hstopped
    · omega
    · exact ⟨G, hG, (Frame.merge_unchanged_iff ((hS target G hG).alike hF)).1 hmerge⟩
  · rw [heq] at hrunning
    cases hrunning
  · rw [heq]
    refine ⟨H, install_self hraise.lt_size, ?_⟩
    rcases hraise with ⟨_, rfl⟩ | ⟨G, hG, hmerge⟩
    · exact le_refl H
    · exact (Frame.le_merge ((hS target G hG).alike hF) hmerge).2

private theorem offerAll_grows {S : Run σ} {F : Frame} (hF : F.Of p.method)
    (hS : AllFrames (Frame.Of p.method) S) (edges : List Edge) :
    Grows S (S.offerAll p F edges) := by
  induction edges generalizing S with
  | nil => exact .refl S
  | cons e edges ih =>
      exact (offer_grows hF hS).trans (ih (hS.offer (Frame.lasting_of p.method).merge hF))

private theorem offerAll_above {S : Run σ} {F : Frame} (hF : F.Of p.method)
    (hS : AllFrames (Frame.Of p.method) S) {edges : List Edge}
    (htargets : ∀ e ∈ edges, e.target < S.frames.size)
    (hrunning : (S.offerAll p F edges).stopped = none) :
    ∀ e ∈ edges, (S.offerAll p F edges).Above e.target F := by
  induction edges generalizing S with
  | nil => simp
  | cons e edges ih =>
      have hgrows : Grows S (S.offer p e.target F) := offer_grows hF hS
      have hS' : AllFrames (Frame.Of p.method) (S.offer p e.target F) :=
        hS.offer (Frame.lasting_of p.method).merge hF
      have hrest := offerAll_grows hF hS' edges
      intro e' he'
      rcases List.mem_cons.1 he' with rfl | he'
      · have hfirst := hrest.running hrunning
        exact (offer_above hF hS (htargets e' (by simp)) hfirst).grows hrest
      · refine ih hS' (fun e he => ?_) hrunning e' he'
        rw [hgrows.size]
        exact htargets e (by simp [he])

theorem offerHandler_grows {S : Run σ} {F : Frame} (hF : F.Of p.method)
    (hS : AllFrames (Frame.Of p.method) S) (position : Nat) (e : Edge) :
    AllFrames (Frame.Of p.method) (offerHandler p position F S e) ∧
      Grows S (offerHandler p position F S e) := by
  have hlasting := Frame.lasting_of p.method
  unfold offerHandler
  split
  · exact ⟨hS, .refl S⟩
  · split
    · split
      · exact ⟨hS, (Grows.refl S).stop _⟩
      · rename_i H hpush
        have hH : H.Of p.method := hlasting.handlerFrame hF hpush
        exact ⟨hS.offer hlasting.merge hH, offer_grows hH hS⟩
    all_goals exact ⟨hS, .refl S⟩

private theorem offerHandler_above {S : Run σ} {F : Frame} (hF : F.Of p.method)
    (hS : AllFrames (Frame.Of p.method) S) {position : Nat} {e : Edge}
    (htarget : e.target < S.frames.size)
    (hrunning : (offerHandler p position F S e).stopped = none)
    {catchClass : Option String} (hkind : e.kind = .thrown catchClass) :
    ∃ H, handlerFrame F catchClass = .ok H ∧ (offerHandler p position F S e).Above e.target H := by
  have hstopped : S.stopped = none := (offerHandler_grows hF hS position e).2.running hrunning
  simp only [offerHandler, hstopped, hkind, Option.isSome_none, Bool.false_eq_true, if_false]
    at hrunning ⊢
  cases hpush : handlerFrame F catchClass with
  | error cause =>
      simp only [hpush] at hrunning
      cases hrunning
  | ok H =>
      simp only [hpush] at hrunning
      have hH : H.Of p.method := (Frame.lasting_of p.method).handlerFrame hF hpush
      exact ⟨H, rfl, offer_above hH hS htarget hrunning⟩

theorem foldl_offerHandler_grows {S : Run σ} {F : Frame} (hF : F.Of p.method)
    (hS : AllFrames (Frame.Of p.method) S) (position : Nat) (edges : List Edge) :
    AllFrames (Frame.Of p.method) (edges.foldl (offerHandler p position F) S) ∧
      Grows S (edges.foldl (offerHandler p position F) S) := by
  induction edges generalizing S with
  | nil => exact ⟨hS, .refl S⟩
  | cons e edges ih =>
      obtain ⟨hS', hgrows⟩ := offerHandler_grows hF hS position e
      obtain ⟨hall, hrest⟩ := ih hS'
      exact ⟨hall, hgrows.trans hrest⟩

private theorem carryOut_grows {S : Run σ} {F : Frame} (hF : F.Of p.method)
    (hS : AllFrames (Frame.Of p.method) S) (position : Nat) (insn : Insn Nat) :
    Grows S (S.carryOut p position insn F) := by
  have hlasting := Frame.lasting_of p.method
  have hboth : AllFrames (Frame.Of p.method) (S.carryOut p position insn F) ∧
      Grows S (S.carryOut p position insn F) := by
    refine carryOut_induction
      (P := fun T : Run σ => AllFrames (Frame.Of p.method) T ∧ Grows S T) ?_ ?_ ?_ rfl
      ⟨hS, .refl S⟩
    · intro T U hquiet h
      exact ⟨h.1.quiet hquiet, h.2.quiet hquiet⟩
    · intro T target H hoffers h
      have hH : H.Of p.method := hoffers.kept hlasting.toKept hF
      exact ⟨h.1.offer hlasting.merge hH, h.2.trans (offer_grows hH h.1)⟩
    · intro T e _ h
      exact ⟨h.1, h.2.stop e⟩
  exact hboth.2

theorem visit_grows {S : Run σ} (hS : AllFrames (Frame.Of p.method) S) (i : Nat) :
    Grows S (S.visit p i) := by
  unfold visit
  split
  · rename_i F insn hF _
    obtain ⟨hS', hgrows⟩ :=
      foldl_offerHandler_grows (hS i F hF) hS i (p.graph.thrownEdges i)
    exact hgrows.trans (carryOut_grows (hS i F hF) hS' i insn)
  · exact .refl S

private theorem foldl_offerHandler_above {S : Run σ} {F : Frame} (hF : F.Of p.method)
    (hS : AllFrames (Frame.Of p.method) S) {position : Nat} {edges : List Edge}
    (htargets : ∀ e ∈ edges, e.target < S.frames.size)
    (hrunning : (edges.foldl (offerHandler p position F) S).stopped = none) :
    ∀ e ∈ edges, ∀ catchClass, e.kind = .thrown catchClass →
      ∃ H, handlerFrame F catchClass = .ok H ∧
        (edges.foldl (offerHandler p position F) S).Above e.target H := by
  induction edges generalizing S with
  | nil => simp
  | cons e edges ih =>
      obtain ⟨hS', hgrows⟩ := offerHandler_grows hF hS position e
      have hrest := (foldl_offerHandler_grows hF hS' position edges).2
      intro e' he' catchClass hkind
      rcases List.mem_cons.1 he' with rfl | he'
      · have hfirst := hrest.running hrunning
        obtain ⟨H, hH, habove⟩ :=
          offerHandler_above hF hS (htargets e' (by simp)) hfirst hkind
        exact ⟨H, hH, habove.grows hrest⟩
      · refine ih hS' (fun e he => ?_) hrunning e' he' catchClass hkind
        rw [hgrows.size]
        exact htargets e (by simp [he])

/-- The instruction gives frames, and its successors are above them. -/
structure Settled (p : Problem σ) (world : σ) (S : Run σ) (position : Nat) (insn : Insn Nat)
    (F : Frame) : Prop where
  thrown : ∀ e ∈ p.graph.thrownEdges position, ∀ catchClass, e.kind = .thrown catchClass →
    ∃ H, handlerFrame F catchClass = .ok H ∧ S.Above e.target H
  normal : ∃ H, p.config.onward world position insn F = .ok H ∧
    ∀ e ∈ p.graph.normalEdges position, S.Above e.target H

theorem Settled.grows {world : σ} {S T : Run σ} (hST : Grows S T) {position : Nat}
    {insn : Insn Nat} {F : Frame} (h : Settled p world S position insn F) :
    Settled p world T position insn F where
  thrown e he catchClass hkind := by
    obtain ⟨H, hH, habove⟩ := h.thrown e he catchClass hkind
    exact ⟨H, hH, habove.grows hST⟩
  normal := by
    obtain ⟨H, hH, habove⟩ := h.normal
    exact ⟨H, hH, fun e he => (habove e he).grows hST⟩

private theorem finish_above {S : Run σ} {position : Nat} {result : Except FrameError Frame}
    (hresult : Ensures (Frame.Of p.method) result) (hS : AllFrames (Frame.Of p.method) S)
    (htargets : ∀ e ∈ p.graph.normalEdges position, e.target < S.frames.size)
    (hrunning : (S.finish p position result).stopped = none) :
    ∃ H, result = .ok H ∧
      ∀ e ∈ p.graph.normalEdges position, (S.finish p position result).Above e.target H := by
  cases result with
  | error cause => cases hrunning
  | ok H => exact ⟨H, rfl, offerAll_above (hresult H rfl) hS htargets hrunning⟩

private theorem carryOut_above {S : Run σ} {position : Nat} {insn : Insn Nat} {F : Frame}
    (hF : F.Of p.method) (hS : AllFrames (Frame.Of p.method) S)
    (htargets : ∀ e ∈ p.graph.normalEdges position, e.target < S.frames.size)
    (hstopped : S.stopped = none)
    (hrunning : (S.carryOut p position insn F).stopped = none) :
    ∃ H, p.config.onward S.world position insn F = .ok H ∧
      ∀ e ∈ p.graph.normalEdges position, (S.carryOut p position insn F).Above e.target H := by
  have honward : Ensures (Frame.Of p.method) (p.config.onward S.world position insn F) :=
    Config.onward_kept (Frame.lasting_of p.method).toKept p.config S.world position insn hF
  rcases carryOut_cases (p := p) hstopped position insn F with ⟨_, heq⟩ | ⟨f, hfailed, heq⟩
  · rw [heq] at hrunning ⊢
    exact finish_above honward hS htargets hrunning
  · rw [heq] at hrunning ⊢
    rcases fail_cases (p := p) _ position insn F f with ⟨_, hrefused⟩ | ⟨_, hgo⟩
    · rw [hrefused] at hrunning
      cases hrunning
    · rw [hgo, ← Config.onward_of_failed hfailed] at hrunning ⊢
      have hquiet (world : σ) := record_quiet { S with world := world } f
      refine finish_above honward (AllFrames.quiet (hquiet _) hS) (fun e he => ?_) hrunning
      rw [(hquiet _).frames]
      exact htargets e he

theorem visit_settled {S : Run σ} {position : Nat} {insn : Insn Nat} {F : Frame}
    (hS : AllFrames (Frame.Of p.method) S) (hF : S.frames[position]? = some (some F))
    (hinsn : p.method.code[position]? = some insn)
    (htargets : ∀ e ∈ p.graph.edges position, e.target < S.frames.size)
    (hrunning : (S.visit p position).stopped = none) :
    Settled p S.world (S.visit p position) position insn F := by
  have hvisit : S.visit p position =
      (S.offerHandlers p position F).carryOut p position insn F := by
    simp only [visit, hF, hinsn]
  rw [hvisit] at hrunning ⊢
  have hFm : F.Of p.method := hS position F hF
  obtain ⟨hS', hgrows⟩ := foldl_offerHandler_grows hFm hS position (p.graph.thrownEdges position)
  -- The handlers come first, and nothing they were given is lost when the instruction follows.
  have hrest : Grows (S.offerHandlers p position F) _ := carryOut_grows hFm hS' position insn
  have hstopped := hrest.running hrunning
  constructor
  · intro e he catchClass hkind
    obtain ⟨H, hH, habove⟩ := foldl_offerHandler_above hFm hS
      (fun e he => htargets e (List.mem_append_right _ he)) hstopped e he catchClass hkind
    exact ⟨H, hH, habove.grows hrest⟩
  · have hnormal := carryOut_above hFm hS' (fun e he => ?_) hstopped hrunning
    · rw [← offerHandlers_world position F S]
      exact hnormal
    · rw [hgrows.size]
      exact htargets e (List.mem_append_left _ he)

/-! ## Frames along a run -/

theorem Leads.allFrames {P : Frame → Prop} (hP : Frame.Lasting P) {S T : Run σ}
    (h : Leads p S T) (hS : AllFrames P S) : AllFrames P T :=
  h.invariant hS fun _ i _ hT _ _ => hT.pick hP i

theorem Leads.frames_le {S T : Run σ} (h : Leads p S T)
    (hS : AllFrames (Frame.Of p.method) S) {i : Nat} {F : Frame}
    (hF : S.frames[i]? = some (some F)) : ∃ G, T.frames[i]? = some (some G) ∧ F ≤ G := by
  induction h with
  | refl => exact ⟨F, hF, le_refl F⟩
  | @pick T j hT _ _ ih =>
      obtain ⟨G, hG, hFG⟩ := ih
      have hgrows : Grows (T.taken j) (T.pick p j) :=
        visit_grows (S := T.taken j) (hT.allFrames (Frame.lasting_of p.method) hS) j
      obtain ⟨H, hH, hGH⟩ := hgrows.frames i G hG
      exact ⟨H, hH, le_trans hFG hGH⟩

end Run

end FrameFlow
